import Resumable.Proofs.Reach
import Resumable.Proofs.Rewriting

/-!
# `Proofs.Crossing`: the jumps that cross the boundary of a tree

Splitting passes a tree through unchanged when nothing in it suspends and no jump crosses its boundary. The
second is found out by counting: for each label that is placed in the tree, the jumps to it inside are
compared with those of the whole body. In a body where **every node occurs once** the nodes of a tree are a
sublist of those of the body, so that the counts differ just when one of the jumps stands outside.

Nested lambdas have jumps of their own, which the body does not know. Trees inside them are never split along
with the body, and the test is not about them: `leap_unnoticed` is a jump in a nested lambda that it passes by.

**Contents**
* `ownNodes_sublist_of_mem`, `own_of_shared`: the nodes of a tree and of the body around it.
* `countP_lt_iff`: counting in a sublist.
* `Crossed`: a jump leads out of a tree, or into it.
* `escapes_iff`: the test in terms of jumps and counts.
* `escapes_iff_crossed`: the test finds the trees that are crossed.
* `leap_unnoticed`: a tree inside a nested lambda for which it does not.
-/

namespace Resumable.Expr

variable {body c e n : Expr} {d : Data Expr} {i r : Nat} {t : Ty}

/-! ### Trees inside a body -/

/-- The nodes under a node of a tree are nodes of the tree. -/
theorem allNodes_subset_of_mem (he : e ∈ body.allNodes) : e.allNodes ⊆ body.allNodes := by
  induction body using operandInduction with
  | absent => simp at he
  | node i r t d ih =>
    rw [allNodes_node] at he
    obtain rfl | he := List.mem_cons.mp he
    · exact List.Subset.refl _
    · obtain ⟨c, hc, he⟩ := List.mem_flatMap.mp he
      intro n hn
      rw [allNodes_node]
      exact List.mem_cons_of_mem _ (List.mem_flatMap.mpr ⟨c, hc, ih c hc he hn⟩)

/-- The nodes under a node of a body stand in the list of the body in their order. -/
theorem ownNodes_sublist_of_mem (he : e ∈ body.ownNodes) : e.ownNodes.Sublist body.ownNodes := by
  induction body using operandInduction with
  | absent => simp at he
  | node i r t d ih =>
    by_cases hd : d.kind = .lambda
    · rw [ownNodes_node, if_pos hd, List.mem_singleton] at he
      rw [he]
    · have hown : (Expr.node i r t d).ownNodes = .node i r t d :: (operands d).flatMap ownNodes := by
        rw [ownNodes_node, if_neg hd]
      rw [hown] at he
      obtain rfl | he := List.mem_cons.mp he
      · exact List.Sublist.refl _
      · obtain ⟨c, hc, he⟩ := List.mem_flatMap.mp he
        rw [hown]
        exact ((ih c hc he).trans (flatMap_sublist_of_mem hc)).cons _

/-- A node under an operand that the tree has outside its lambdas is outside those of the operand: it does
not occur a second time, at the top or under another operand. -/
theorem own_of_operand (honce : (Expr.node i r t d).allNodes.Nodup) (hc : c ∈ operands d)
    (hn : n ∈ c.allNodes) (hown : n ∈ (Expr.node i r t d).ownNodes) : d.kind ≠ .lambda ∧ n ∈ c.ownNodes := by
  rw [allNodes_node] at honce
  obtain ⟨htop, honce⟩ := List.nodup_cons.mp honce
  have hne : n ≠ .node i r t d := by
    rintro rfl
    exact htop (List.mem_flatMap.mpr ⟨c, hc, hn⟩)
  rw [ownNodes_node, List.mem_cons] at hown
  have hrest := hown.resolve_left hne
  split at hrest
  · cases hrest
  · rename_i hd
    refine ⟨hd, ?_⟩
    obtain ⟨c', hc', hn'⟩ := List.mem_flatMap.mp hrest
    have hsame : c = c' :=
      eq_of_mem_flatMap honce hc hc' hn ((ownNodes_sublist_allNodes c').subset hn')
    exact hsame ▸ hn'

/-- A tree that holds one of the nodes that the body has outside its lambdas is outside of them itself, and
so is the node in the tree. -/
theorem own_of_shared (honce : body.allNodes.Nodup) (he : e ∈ body.allNodes) (hn : n ∈ e.allNodes)
    (hown : n ∈ body.ownNodes) : e ∈ body.ownNodes ∧ n ∈ e.ownNodes := by
  induction body using operandInduction with
  | absent => simp at he
  | node i r t d ih =>
    have hself : Expr.node i r t d ∈ (Expr.node i r t d).ownNodes := by
      rw [ownNodes_node]
      exact List.mem_cons_self
    rw [allNodes_node] at he
    obtain rfl | he := List.mem_cons.mp he
    · exact ⟨hself, hown⟩
    · obtain ⟨c, hc, he⟩ := List.mem_flatMap.mp he
      obtain ⟨hd, hnc⟩ := own_of_operand honce hc (allNodes_subset_of_mem he hn) hown
      have honce' : c.allNodes.Nodup := by
        rw [allNodes_node] at honce
        exact (List.nodup_cons.mp honce).2.sublist (flatMap_sublist_of_mem hc)
      obtain ⟨hec, hne⟩ := ih c hc honce' he hnc
      refine ⟨?_, hne⟩
      rw [ownNodes_node, if_neg hd]
      exact List.mem_cons_of_mem _ (List.mem_flatMap.mpr ⟨c, hc, hec⟩)

theorem mem_jumps : n ∈ e.jumps ↔ n ∈ e.ownNodes ∧ n.jumpTarget?.isSome = true := List.mem_filter

end Resumable.Expr

namespace Resumable.JumpIndex

open Resumable.Expr

variable {body e j : Expr} {l : Label}

/-- A jump crosses the boundary of a tree in a body: one inside leads to a label that the tree does not
place, or one outside leads to a label that it does. Jumps and labels in nested lambdas do not count. -/
def Crossed (body e : Expr) : Prop :=
  (∃ j ∈ e.jumps, ∃ l, j.jumpTarget? = some l ∧ l ∉ e.placed) ∨
    ∃ j ∈ body.jumps, j ∉ e.allNodes ∧ ∃ l ∈ e.placed, j.jumpTarget? = some l

theorem Crossed.isAbsent (h : Crossed body e) : e.isAbsent = false := by
  cases e with
  | absent =>
    obtain ⟨j, hj, -⟩ | ⟨j, -, -, l, hl, -⟩ := h
    · simp [Expr.jumps] at hj
    · simp [Expr.placed] at hl
  | node i r t d => rfl

/-- Fewer elements of a sublist have a property just when one that has it is left out. -/
theorem countP_lt_iff {α : Type} {xs ys : List α} {p : α → Bool} (hsub : xs.Sublist ys) (hys : ys.Nodup) :
    xs.countP p < ys.countP p ↔ ∃ y ∈ ys, y ∉ xs ∧ p y = true := by
  have hfilter : (xs.filter p).Sublist (ys.filter p) := hsub.filter p
  rw [List.countP_eq_length_filter, List.countP_eq_length_filter]
  constructor
  · intro hlt
    by_contra hall
    have hback : ys.filter p ⊆ xs.filter p := by
      intro y hy
      obtain ⟨hmem, hp⟩ := List.mem_filter.mp hy
      refine List.mem_filter.mpr ⟨?_, hp⟩
      by_contra hout
      exact hall ⟨y, hmem, hout, hp⟩
    have hle := ((hys.filter p).subperm hback).length_le
    omega
  · rintro ⟨y, hy, hout, hp⟩
    refine Nat.lt_of_le_of_ne hfilter.length_le fun heq => hout ?_
    have hmem : y ∈ ys.filter p := List.mem_filter.mpr ⟨hy, hp⟩
    rw [← hfilter.eq_of_length heq] at hmem
    exact (List.mem_filter.mp hmem).1

/-- The test in terms of jumps and counts, for a tree whose jumps are jumps of the body. -/
theorem escapes_iff (hkind : e.hasKind .lambda = false) (hsub : e.jumps ⊆ body.jumps) :
    (ofBody body).escapes e = true ↔
      (∃ j ∈ e.jumps, ∃ l, j.jumpTarget? = some l ∧ l ∉ e.placed) ∨
        ∃ l ∈ e.placed, count e.jumps l < count body.jumps l := by
  cases e with
  | absent => simp [escapes, opened, Expr.jumps, Expr.placed]
  | node i r t d =>
    rw [escapes_node (by simpa [hasKind, kind?, data?] using hkind)]
    cases hnone : (ofBody body).jumps.isEmpty && (ofBody body).paths.isEmpty with
    | false =>
      simp only [Bool.not_false, Bool.true_and, Bool.or_eq_true, List.any_eq_true, Option.any_eq_true,
        Bool.not_eq_true', decide_eq_true_eq, List.contains_eq_mem, decide_eq_false_iff_not]
      exact Iff.rfl
    | true =>
      -- in a body without jumps there is none to find
      have hbody : body.jumps = [] := List.isEmpty_iff.mp (Bool.and_eq_true_iff.mp hnone).1
      have hjumps : (Expr.node i r t d).jumps = [] := List.subset_nil.mp (hbody ▸ hsub)
      simp [hbody, hjumps, count]

/-- For a tree outside the lambdas of the body, the counts tell whether it leaves out a jump. -/
theorem count_lt_iff (honce : body.allNodes.Nodup) (he : e ∈ body.ownNodes) :
    count e.jumps l < count body.jumps l ↔
      ∃ j ∈ body.jumps, j ∉ e.allNodes ∧ j.jumpTarget? = some l := by
  have hsub : e.jumps.Sublist body.jumps := (ownNodes_sublist_of_mem he).filter _
  have hnodup : body.jumps.Nodup := (honce.sublist (ownNodes_sublist_allNodes body)).filter _
  have heall : e ∈ body.allNodes := (ownNodes_sublist_allNodes body).subset he
  unfold count
  rw [countP_lt_iff hsub hnodup]
  constructor
  · rintro ⟨j, hj, hout, hl⟩
    refine ⟨j, hj, fun hin => hout ?_, beq_iff_eq.mp hl⟩
    obtain ⟨hown, htarget⟩ := mem_jumps.mp hj
    exact mem_jumps.mpr ⟨(own_of_shared honce heall hin hown).2, htarget⟩
  · rintro ⟨j, hj, hout, hl⟩
    refine ⟨j, hj, fun hin => hout ?_, beq_iff_eq.mpr hl⟩
    exact (ownNodes_sublist_allNodes e).subset (mem_jumps.mp hin).1

/-- What a tree that no jump crosses holds of its jumps and labels. -/
theorem closed_of_not_crossed (honce : body.allNodes.Nodup) (he : e ∈ body.allNodes) (h : ¬Crossed body e) :
    (∀ j ∈ e.jumps, ∀ l, j.jumpTarget? = some l → l ∈ e.placed) ∧
      ∀ j ∈ body.jumps, ∀ l ∈ e.placed, j.jumpTarget? = some l → j ∈ e.jumps := by
  constructor
  · intro j hj l hl
    by_contra hout
    exact h (.inl ⟨j, hj, l, hl, hout⟩)
  · intro j hj l hplaced hl
    have hin : j ∈ e.allNodes := by
      by_contra hout
      exact h (.inr ⟨j, hj, hout, l, hplaced, hl⟩)
    obtain ⟨hown, htarget⟩ := mem_jumps.mp hj
    exact mem_jumps.mpr ⟨(own_of_shared honce he hin hown).2, htarget⟩

/-- **The test finds exactly the trees that a jump crosses.** In a body where every node occurs once, a tree
outside nested lambdas escapes when a jump inside leads out of it or a jump outside leads into it. Hence a tree
that need not be split keeps its jumps, and is jumped into by no others. -/
theorem escapes_iff_crossed (honce : (body.allNodes.map ref).Nodup) (he : e ∈ body.ownNodes)
    (hkind : e.hasKind .lambda = false) :
    ((ofBody body).escapes e = true ↔ Crossed body e) ∧
      ∀ p s, p.index = ofBody body → Split.needs e p s = .ok false s →
        (∀ j ∈ e.jumps, ∀ l, j.jumpTarget? = some l → l ∈ e.placed) ∧
          ∀ j ∈ body.jumps, ∀ l ∈ e.placed, j.jumpTarget? = some l → j ∈ e.jumps := by
  have hnodup : body.allNodes.Nodup := honce.of_map ref
  have heall : e ∈ body.allNodes := (ownNodes_sublist_allNodes body).subset he
  have hsub : e.jumps ⊆ body.jumps := ((ownNodes_sublist_of_mem he).filter _).subset
  have hiff : (ofBody body).escapes e = true ↔ Crossed body e := by
    rw [escapes_iff hkind hsub]
    refine or_congr_right ⟨?_, ?_⟩
    · rintro ⟨l, hplaced, hlt⟩
      obtain ⟨j, hj, hout, hl⟩ := (count_lt_iff hnodup he).mp hlt
      exact ⟨j, hj, hout, l, hplaced, hl⟩
    · rintro ⟨j, hj, hout, l, hplaced, hl⟩
      exact ⟨l, hplaced, (count_lt_iff hnodup he).mpr ⟨j, hj, hout, hl⟩⟩
  refine ⟨hiff, fun p s hp hneeds => closed_of_not_crossed hnodup heall fun hcrossed => ?_⟩
  rw [Split.needs_run, hp] at hneeds
  have hneeded : (ofBody body).needed e = true := by
    unfold needed
    rw [hcrossed.isAbsent, hkind, hiff.mpr hcrossed, Bool.or_true]
    rfl
  rw [hneeded] at hneeds
  cases hneeds

/-- A block with a jump to its own end. -/
def rounded : Expr :=
  .node 3 3 .void (.block [] [.node 1 1 .void (.goto .plain ⟨1, "end", .void⟩ .absent),
    .node 2 2 .void (.label ⟨1, "end", .void⟩ .absent)])

/-- The block before a jump past it, inside of which nothing needs to be split. -/
def around : Expr :=
  .node 6 6 .void (.block [] [rounded, .node 4 4 .void (.goto .plain ⟨2, "out", .void⟩ .absent),
    .node 5 5 .void (.label ⟨2, "out", .void⟩ .absent)])

/-- Splitting `around`. -/
def aroundPlan : Plan where
  name := "around"
  options := {}
  index := .ofBody around
  target := .async .future ⟨7, "cell", .future⟩ ⟨8, "continuation", .thunk⟩
  stateVar := ⟨1, "state", .int⟩
  resumeVar := ⟨2, "resume", .int⟩
  excVar := ⟨3, "exc", .error⟩
  brk := ⟨9, "break", .void⟩
  cont := ⟨10, "continue", .void⟩

def aroundStart : Splitter := { supply := ⟨6, 10, 6⟩, reporter := .ofBag (.empty 0) }

theorem escapes_iff_crossed_rounded :
    ((ofBody around).escapes rounded = true ↔ Crossed around rounded) ∧
      (∀ j ∈ rounded.jumps, ∀ l, j.jumpTarget? = some l → l ∈ rounded.placed) ∧
        ∀ j ∈ around.jumps, ∀ l ∈ rounded.placed, j.jumpTarget? = some l → j ∈ rounded.jumps := by
  have hplaced : rounded ∈ around.ownNodes := by
    unfold around
    rw [ownNodes_node, if_neg (by decide)]
    refine List.mem_cons_of_mem _ (List.mem_flatMap.mpr ⟨rounded, List.mem_cons_self, ?_⟩)
    unfold rounded
    rw [ownNodes_node]
    exact List.mem_cons_self
  have hneeded : (ofBody around).needed rounded = false := by decide +kernel
  have hneeds : Split.needs rounded aroundPlan aroundStart = .ok false aroundStart := by
    rw [Split.needs_run, show aroundPlan.index = ofBody around from rfl, hneeded]
  obtain ⟨hiff, hclosed⟩ := escapes_iff_crossed (by decide +kernel) hplaced rfl
  exact ⟨hiff, hclosed aroundPlan aroundStart rfl hneeds⟩

/-- A jump to the end of a block. -/
def leap : Expr := .node 1 1 .void (.goto .plain ⟨1, "end", .void⟩ .absent)

/-- A body without jumps and labels of its own: it calls a lambda that jumps over a call. -/
def aside : Expr :=
  .node 13 13 .int (.block [] [
    .node 8 8 .void (.call (.node 7 7 Native.callThunk.type (.constant (some (.ofNative .callThunk)))) [
      .node 6 6 .thunk (.lambda "inner" [] (.node 5 5 .void (.block [] [leap,
        .node 3 3 .void (.call (.node 2 2 Native.log.type (.constant (some (.ofNative .log))))
          [.node 9 9 .string (.constant (some (.ofText "skipped")))]),
        .node 4 4 .void (.label ⟨1, "end", .void⟩ .absent)])) .plain false)]),
    .node 11 11 .void (.await (.node 10 10 .future (.call
      (.node 14 14 Native.done.type (.constant (some (.ofNative .done)))) [])) none),
    .node 12 12 .int (.constant (some (.ofInt 2)))])

/-- Inside a nested lambda nothing is looked for: the body has no jumps and no labels, so the jump does not
escape, although it leads out of itself. -/
theorem leap_unnoticed : (aside.allNodes.map ref).Nodup ∧ leap ∈ aside.allNodes ∧ leap.hasKind .lambda = false ∧
    ¬((ofBody aside).escapes leap = true ↔ Crossed aside leap) ∧
      Split.needs leap { aroundPlan with index := .ofBody aside } aroundStart = .ok false aroundStart ∧
        ¬∀ j ∈ leap.jumps, ∀ l, j.jumpTarget? = some l → l ∈ leap.placed := by
  have hnodes : leap.ownNodes = [leap] := by
    unfold leap
    rw [ownNodes_node, if_neg (by decide)]
    simp [operands]
  have hjump : leap ∈ leap.jumps := mem_jumps.mpr ⟨hnodes ▸ List.mem_singleton_self _, rfl⟩
  have hplaced : (⟨1, "end", .void⟩ : Label) ∉ leap.placed := by decide +kernel
  have hquiet : (ofBody aside).escapes leap = false := by decide +kernel
  have hself : leap ∈ leap.allNodes := (ownNodes_sublist_allNodes leap).subset (hnodes ▸ List.mem_singleton_self _)
  have hinside : leap ∈ aside.allNodes := by simp [aside, allNodes_node, operands, hself]
  refine ⟨by decide +kernel, hinside, rfl, fun h => ?_, ?_, fun h => ?_⟩
  · have hcrossed : Crossed aside leap := .inl ⟨leap, hjump, _, rfl, hplaced⟩
    rw [hquiet] at h
    exact Bool.false_ne_true (h.mpr hcrossed)
  · have hneeded : (ofBody aside).needed leap = false := by decide +kernel
    rw [Split.needs_run, hneeded]
  · exact hplaced (h leap hjump _ rfl)

end Resumable.JumpIndex
