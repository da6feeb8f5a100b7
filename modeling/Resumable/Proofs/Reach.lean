import Resumable.Lower.Visit
import Resumable.Proofs.Tree

/-!
# `Proofs.Reach`: the nodes that splitting looks at

Whether a tree has to be split depends on the tree and the index of jumps only, so the nodes that a
visit of a body looks at can be told beforehand. Splitting makes a state for a label at every jump it
looks at, and finishes that state where it looks at the place of the label. So it matters that **a
label which is jumped to is also placed at a node that is looked at**: the subtree around its place
that leaves out the jump is crossed by it, and is therefore split.

**Contents**
* `needed`, `reached`: the trees that are split, and the nodes a visit looks at.
* `aims`, `marks`: the labels jumped to and placed at these nodes.
* `mem_marks_of_crossed`, `aims_subset_marks`: the targets of the jumps are placed.
-/

namespace Resumable.JumpIndex

open Resumable.Expr

variable {ix : JumpIndex} {e : Expr} {d : Data Expr} {i r : Nat} {t : Ty} {l : Label}

/-- The tree has to be split: it suspends, or jumps cross its boundary. -/
def needed (ix : JumpIndex) (e : Expr) : Bool :=
  !(e.isAbsent || e.hasKind .lambda) && (e.isAsync || ix.escapes e)

/-- The nodes that a visit looks at. -/
def reached (ix : JumpIndex) (e : Expr) : List Expr := (e.nodes ix.needed).filter ix.needed

/-- The labels that are jumped to at the nodes looked at. -/
def aims (ix : JumpIndex) (e : Expr) : List Label := (ix.reached e).filterMap jumpTarget?

/-- The labels that are placed at the nodes looked at. -/
def marks (ix : JumpIndex) (e : Expr) : List Label := (ix.reached e).flatMap placedHere

theorem reached_of_not_needed (h : ix.needed e = false) : ix.reached e = [] := by
  cases e with
  | absent => simp [reached]
  | node i r t d => simp [reached, nodes_node, h]

theorem reached_node (h : ix.needed (.node i r t d) = true) :
    ix.reached (.node i r t d) = .node i r t d :: (operands d).flatMap ix.reached := by
  unfold reached
  rw [nodes_node, if_pos h, List.filter_cons_of_pos h, List.filter_flatMap]

theorem aims_of_not_needed (h : ix.needed e = false) : ix.aims e = [] := by
  rw [aims, reached_of_not_needed h]
  rfl

theorem marks_of_not_needed (h : ix.needed e = false) : ix.marks e = [] := by
  rw [marks, reached_of_not_needed h]
  rfl

/-- The labels that a node jumps to are those of its own jump and of its operands. -/
theorem mem_aims_node (h : ix.needed (.node i r t d) = true) :
    l ∈ ix.aims (.node i r t d) ↔
      (Expr.node i r t d).jumpTarget? = some l ∨ ∃ c ∈ operands d, l ∈ ix.aims c := by
  simp only [aims, reached_node h, List.mem_filterMap, List.mem_cons, List.mem_flatMap]
  constructor
  · rintro ⟨n, rfl | ⟨c, hc, hn⟩, hl⟩
    · exact Or.inl hl
    · exact Or.inr ⟨c, hc, n, hn, hl⟩
  · rintro (hl | ⟨c, hc, n, hn, hl⟩)
    · exact ⟨_, Or.inl rfl, hl⟩
    · exact ⟨n, Or.inr ⟨c, hc, hn⟩, hl⟩

/-- The labels in a node are its own and those of its operands. -/
theorem mem_marks_node (h : ix.needed (.node i r t d) = true) :
    l ∈ ix.marks (.node i r t d) ↔
      l ∈ placedHere (.node i r t d) ∨ ∃ c ∈ operands d, l ∈ ix.marks c := by
  simp only [marks, reached_node h, List.mem_cons, List.mem_flatMap]
  constructor
  · rintro ⟨n, rfl | ⟨c, hc, hn⟩, hl⟩
    · exact Or.inl hl
    · exact Or.inr ⟨c, hc, n, hn, hl⟩
  · rintro (hl | ⟨c, hc, n, hn, hl⟩)
    · exact ⟨_, Or.inl rfl, hl⟩
    · exact ⟨n, Or.inr ⟨c, hc, hn⟩, hl⟩

theorem needed_of_mem_aims (h : l ∈ ix.aims e) : ix.needed e = true := by
  cases hn : ix.needed e with
  | true => rfl
  | false =>
    rw [aims_of_not_needed hn] at h
    cases h

/-- The test on a tree that is no lambda: none of the nested lambdas is looked into. -/
theorem escapes_node (hd : d.kind ≠ .lambda) : ix.escapes (.node i r t d) =
    (!(ix.jumps.isEmpty && ix.paths.isEmpty) &&
      (((Expr.node i r t d).jumps.any fun j => j.jumpTarget?.any fun l =>
          !(Expr.node i r t d).placed.contains l) ||
        (Expr.node i r t d).placed.any fun l => count (Expr.node i r t d).jumps l < count ix.jumps l)) := by
  have hopened : (Expr.node i r t d).opened = (Expr.node i r t d).ownNodes := by
    rw [ownNodes_node, if_neg hd, opened]
  unfold escapes Expr.jumps Expr.placed
  rw [hopened]
  cases ix.jumps.isEmpty && ix.paths.isEmpty <;> rfl

/-- A node whose only operand is `c`, and which neither suspends nor jumps nor places labels, is split
exactly when `c` is. -/
theorem needed_wrap {c : Expr} (hops : operands d = [c]) (hd : d.kind ≠ .lambda)
    (hs : (Expr.node i r t d).suspends = false) (hj : (Expr.node i r t d).jumpTarget? = none)
    (hp : placedHere (.node i r t d) = []) : ix.needed (.node i r t d) = ix.needed c := by
  have hjumps : (Expr.node i r t d).jumps = c.jumps := by
    unfold Expr.jumps
    rw [ownNodes_node, if_neg hd, hops, List.filter_cons_of_neg (by simp [hj])]
    simp
  have hplaced : (Expr.node i r t d).placed = c.placed := by
    unfold Expr.placed
    rw [ownNodes_node, if_neg hd, hops, List.flatMap_cons, hp]
    simp
  have hasync : (Expr.node i r t d).isAsync = c.ownNodes.any suspends := by
    rw [isAsync_node, hs, hops]
    simp
  have hkind : ∀ (a : Data Expr) (k m : Nat) (w : Ty), a.kind ≠ .lambda →
      ((Expr.node k m w a).isAbsent || (Expr.node k m w a).hasKind .lambda) = false :=
    fun a k m w ha => beq_eq_false_iff_ne.mpr fun h => ha (Option.some.inj h)
  unfold needed
  rw [escapes_node hd, hjumps, hplaced, hasync, hkind d i r t hd]
  cases c with
  | absent => simp [Expr.jumps, Expr.placed, isAbsent]
  | node j q u b =>
    by_cases hb : b.kind = .lambda
    · have hown : (Expr.node j q u b).ownNodes = [.node j q u b] := by
        rw [ownNodes_node, if_pos hb]
      unfold Expr.jumps Expr.placed
      rw [hown]
      cases b <;> cases hb
      simp [hasKind, kind?, data?, Data.kind, suspends, jumpTarget?, placedHere]
    · have hasync' : (Expr.node j q u b).ownNodes.any suspends = (Expr.node j q u b).isAsync := by
        rw [isAsync_node, ownNodes_node, if_neg hb, List.any_cons, List.any_flatMap]
      rw [hasync', escapes_node hb, hkind b j q u hb]

theorem mem_marks_wrap {c : Expr} (hops : operands d = [c]) (hp : placedHere (.node i r t d) = [])
    (hn : ix.needed (.node i r t d) = ix.needed c) :
    l ∈ ix.marks (.node i r t d) ↔ l ∈ ix.marks c := by
  cases h : ix.needed c with
  | true =>
    rw [mem_marks_node (hn.trans h), hp, hops]
    simp
  | false => rw [marks_of_not_needed h, marks_of_not_needed (hn.trans h)]

theorem mem_aims_wrap {c : Expr} (hops : operands d = [c])
    (hn : ix.needed (.node i r t d) = ix.needed c) (hl : l ∈ ix.aims c) :
    l ∈ ix.aims (.node i r t d) := by
  rw [mem_aims_node (hn.trans (needed_of_mem_aims hl)), hops]
  exact Or.inr ⟨c, List.mem_singleton_self c, hl⟩

theorem mem_placed_node (hd : d.kind ≠ .lambda) :
    l ∈ placed (.node i r t d) ↔
      l ∈ placedHere (.node i r t d) ∨ ∃ c ∈ operands d, l ∈ placed c := by
  simp only [placed, ownNodes_node, if_neg hd, List.mem_cons, List.mem_flatMap]
  constructor
  · rintro ⟨n, rfl | ⟨c, hc, hn⟩, hl⟩
    · exact Or.inl hl
    · exact Or.inr ⟨c, hc, n, hn, hl⟩
  · rintro (hl | ⟨c, hc, n, hn, hl⟩)
    · exact ⟨_, Or.inl rfl, hl⟩
    · exact ⟨n, Or.inr ⟨c, hc, hn⟩, hl⟩

/-! ### Counting jumps -/

theorem le_sum_of_mem {α : Type} {xs : List α} (f : α → Nat) {x : α} (hx : x ∈ xs) :
    f x ≤ (xs.map f).sum := by
  induction xs with
  | nil => cases hx
  | cons y ys ih =>
    rw [List.map_cons, List.sum_cons]
    obtain rfl | hx := List.mem_cons.mp hx
    · omega
    · have := ih hx
      omega

theorem add_le_sum_of_ne {α : Type} {xs : List α} (f : α → Nat) {x y : α} (hx : x ∈ xs)
    (hy : y ∈ xs) (hne : x ≠ y) : f x + f y ≤ (xs.map f).sum := by
  induction xs with
  | nil => cases hx
  | cons z zs ih =>
    rw [List.map_cons, List.sum_cons]
    obtain rfl | hx' := List.mem_cons.mp hx
    · obtain rfl | hy := List.mem_cons.mp hy
      · exact absurd rfl hne
      · have := le_sum_of_mem f hy
        omega
    · obtain rfl | hy := List.mem_cons.mp hy
      · have := le_sum_of_mem f hx'
        omega
      · have := ih hx' hy
        omega

/-- The number of jumps to `l` in a tree. -/
def jumpsTo (l : Label) (e : Expr) : Nat := count e.jumps l

/-- The jumps to a label are those of a node and of its operands. -/
theorem jumpsTo_node (l : Label) (hd : d.kind ≠ .lambda) :
    jumpsTo l (.node i r t d) = (if (Expr.node i r t d).jumpTarget? = some l then 1 else 0) +
      ((operands d).map (jumpsTo l)).sum := by
  have hsum : (((operands d).flatMap ownNodes).filter fun n => n.jumpTarget?.isSome).countP
      (fun j => j.jumpTarget? == some l) = ((operands d).map (jumpsTo l)).sum := by
    rw [List.filter_flatMap, List.countP_flatMap]
    rfl
  rw [jumpsTo, count, Expr.jumps, ownNodes_node, if_neg hd]
  by_cases hj : (Expr.node i r t d).jumpTarget? = some l
  · rw [List.filter_cons_of_pos (by simp [hj]), List.countP_cons, hsum]
    simp [hj, Nat.add_comm]
  · rw [if_neg hj, Nat.zero_add, ← hsum, List.filter_cons]
    split
    · rw [List.countP_cons_of_neg (by simpa using hj)]
    · rfl

theorem jumpsTo_le_of_mem {c : Expr} (hd : d.kind ≠ .lambda) (hc : c ∈ operands d) :
    jumpsTo l c ≤ jumpsTo l (.node i r t d) := by
  have := le_sum_of_mem (jumpsTo l) hc
  rw [jumpsTo_node l hd]
  omega

/-- A reached jump is one of the jumps. -/
theorem jumpsTo_pos_of_mem_aims (h : l ∈ ix.aims e) : 0 < jumpsTo l e := by
  induction e using operandInduction with
  | absent => simp [aims, reached] at h
  | node i r t d ih =>
    by_cases hn : ix.needed (.node i r t d) = true
    · have hd : d.kind ≠ .lambda := by
        intro hd
        simp [needed, hasKind, kind?, data?, hd] at hn
      rw [mem_aims_node hn] at h
      obtain h | ⟨c, hc, h⟩ := h
      · rw [jumpsTo_node l hd, if_pos h]
        omega
      · exact Nat.lt_of_lt_of_le (ih c hc h) (jumpsTo_le_of_mem hd hc)
    · rw [aims_of_not_needed (by simpa using hn)] at h
      cases h

/-- A node that a jump from outside leads into is needed. -/
theorem needed_of_crossed (hd : d.kind ≠ .lambda) (hp : l ∈ placed (.node i r t d))
    (hx : jumpsTo l (.node i r t d) < count ix.jumps l) : ix.needed (.node i r t d) = true := by
  have hesc : ix.escapes (.node i r t d) = true := by
    have hjumps : ix.jumps.isEmpty = false := by
      cases hnone : ix.jumps with
      | nil => simp [hnone, count] at hx
      | cons => rfl
    rw [escapes_node hd, hjumps]
    simp only [Bool.false_and, Bool.not_false, Bool.true_and, Bool.or_eq_true, List.any_eq_true,
      decide_eq_true_eq]
    exact Or.inr ⟨l, hp, hx⟩
  simp [needed, hesc, isAbsent, hasKind, kind?, data?, hd]

/-- **A label that is placed in a tree and jumped to from elsewhere is placed where a visit looks.** A
subtree around the place either holds a jump that is looked at, or leaves out one of the jumps. -/
theorem mem_marks_of_crossed (hle : jumpsTo l e ≤ count ix.jumps l) (hp : l ∈ placed e)
    (hx : jumpsTo l e < count ix.jumps l ∨ l ∈ ix.aims e) : l ∈ ix.marks e := by
  induction e using operandInduction with
  | absent => simp [placed] at hp
  | node i r t d ih =>
    have hd : d.kind ≠ .lambda := by
      intro hd
      rw [placed, ownNodes_node, if_pos hd] at hp
      cases d <;> cases hd
      cases hp
    have hn : ix.needed (.node i r t d) = true := by
      obtain hx | hx := hx
      · exact needed_of_crossed hd hp hx
      · exact needed_of_mem_aims hx
    rw [mem_marks_node hn]
    rw [mem_placed_node hd] at hp
    obtain hp | ⟨c, hc, hp⟩ := hp
    · exact Or.inl hp
    · refine Or.inr ⟨c, hc, ?_⟩
      have hcle : jumpsTo l c ≤ jumpsTo l (.node i r t d) := jumpsTo_le_of_mem hd hc
      refine ih c hc (Nat.le_trans hcle hle) hp ?_
      by_cases haims : l ∈ ix.aims c
      · exact Or.inr haims
      · refine Or.inl ?_
        obtain hx | hx := hx
        · exact Nat.lt_of_le_of_lt hcle hx
        · -- a jump that is looked at outside `c` is one that `c` leaves out
          refine Nat.lt_of_lt_of_le ?_ hle
          rw [jumpsTo_node l hd]
          rw [mem_aims_node hn] at hx
          obtain hx | ⟨c', hc', hx⟩ := hx
          · have := le_sum_of_mem (jumpsTo l) hc
            rw [if_pos hx]
            omega
          · have hne : c ≠ c' := by
              rintro rfl
              exact haims hx
            have := add_le_sum_of_ne (jumpsTo l) hc hc' hne
            have := jumpsTo_pos_of_mem_aims hx
            omega

/-- A label with a region is placed in the tree. -/
theorem mem_placed_of_placements {path path' : List Region}
    (h : (l, path') ∈ placements path e) : l ∈ placed e := by
  induction e using operandInduction generalizing path with
  | absent => simp [placements] at h
  | node i r t d ih =>
    by_cases hd : d.kind = .lambda
    · cases d <;> cases hd
      simp [placements] at h
    · rw [mem_placed_node hd]
      rw [placements.eq_def] at h
      split at h
      · cases h
      · rename_i hlam
        cases hlam
        exact absurd rfl hd
      · rename_i hnode
        cases hnode
        rw [List.mem_append, List.mem_flatMap] at h
        obtain h | ⟨⟨c, p⟩, hc, h⟩ := h
        · obtain ⟨_, hl, heq⟩ := List.mem_map.mp h
          cases heq
          exact Or.inl hl
        · exact Or.inr ⟨c.1, c.2, ih c.1 c.2 h⟩

/-- Where every jump of a body has a place to go to, the target of a jump is placed in the body. -/
theorem mem_placed_of_jump {body j : Expr} (hdef : (ofBody body).undefined = []) (hj : j ∈ body.jumps)
    (hl : j.jumpTarget? = some l) : l ∈ body.placed := by
  have hsome : (ofBody body).path? l ≠ none := by
    simpa [hl] using List.filter_eq_nil_iff.mp hdef j hj
  obtain ⟨path, hpath⟩ := Option.ne_none_iff_exists'.mp hsome
  obtain ⟨before, after, heq, -⟩ := List.lookup_eq_some_iff.mp hpath
  refine mem_placed_of_placements (List.mem_reverse.mp (?_ : (l, path) ∈ (ofBody body).paths))
  rw [heq]
  exact List.mem_append_right before List.mem_cons_self

/-- The targets of the jumps that a visit of a body looks at are placed where it looks, as long as
every jump of the body has a place to go to. -/
theorem aims_subset_marks {body : Expr} (hdef : (ofBody body).undefined = [])
    (h : l ∈ (ofBody body).aims body) : l ∈ (ofBody body).marks body := by
  obtain ⟨j, hj, hl⟩ := List.countP_pos_iff.mp (jumpsTo_pos_of_mem_aims h)
  exact mem_marks_of_crossed (Nat.le_refl _) (mem_placed_of_jump hdef hj (beq_iff_eq.mp hl)) (Or.inr h)

end Resumable.JumpIndex

namespace Resumable.Split

/-- The question during splitting has the answer that the index gives. -/
theorem needs_run (e : Expr) (p : Plan) (s : Splitter) :
    needs e p s = .ok (p.index.needed e) s := by
  unfold needs JumpIndex.needed
  by_cases h : (e.isAbsent || e.hasKind .lambda) = true
  · rw [if_pos h, h]
    rfl
  · rw [if_neg h]
    rw [Bool.not_eq_true] at h
    rw [h]
    rfl

end Resumable.Split
