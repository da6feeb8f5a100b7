import Resumable.Proofs.Hosting

/-!
# `Proofs.Marking`: where a machine is marked as over

The store of -1 that marks a machine as over is a statement of a block, and what stands beside it in the
block settles the machine's cell: the statement before it when the machine completes, the one after it when
it fails. No other node of a tree that hosts the machine holds such a store.

**Contents**
* `Expr.MarksOver`: a node in which the store stands where it should.
* `Obeys.marked`: so it is in every node of a tree, whatever the role of the tree.
-/

namespace Resumable

open Resumable.Expr

/-- The node holds the store that marks a machine as over, -1 in its state slot, next to what settles its
cell, as a statement of a block; or not at all. -/
def Expr.MarksOver (state cell : Var) : Expr → Prop
  | .absent => True
  | .node _ _ _ d =>
    match d with
    | .block _ xs => ∀ before x after, xs = before ++ x :: after → Watch.Puts state (Watch.Number (· = -1)) x →
      (∃ y, before.getLast? = some y ∧ Watch.Settled cell y) ∨ ∃ y, after.head? = some y ∧ Watch.Settling false cell y
    | _ => ∀ c ∈ operands d, ¬ Watch.Puts state (Watch.Number (· = -1)) c

/-- The node marks the machine as over where it should. -/
def Watch.Marked (m : Watch) : Expr → Prop := Expr.MarksOver m.state m.cell

section
variable {m : Watch} {role : Role} {armed bare : Bool} {e c x : Expr} {xs : List Expr} {i r : Nat} {t : Ty} {d : Data Expr}

/-- A tree that is not the store, in which every store stands where it should. -/
structure Watch.Unmarked (m : Watch) (c : Expr) : Prop where
  none : ¬ m.Ends c
  within : ∀ n ∈ c.allNodes, m.Marked n

/-- A node without statements of its own. -/
theorem Watch.marked_node (hd : d.kind ≠ .block) (hc : ∀ c ∈ operands d, m.Unmarked c) :
    ∀ n ∈ (Expr.node i r t d).allNodes, m.Marked n := by
  intro n hn
  obtain rfl | ⟨c, hc', hn⟩ := mem_allNodes_node.mp hn
  · cases d with
    | block => exact absurd rfl hd
    | _ => exact fun c hc' => (hc c hc').none
  · exact (hc c hc').within n hn

/-- A block in which every store stands where it should. -/
theorem Watch.marked_block {vs : List Var} (hself : m.Marked (.node i r t (.block vs xs)))
    (hc : ∀ x ∈ xs, ∀ n ∈ x.allNodes, m.Marked n) : ∀ n ∈ (Expr.node i r t (.block vs xs)).allNodes, m.Marked n := by
  intro n hn
  obtain rfl | ⟨c, hc', hn⟩ := mem_allNodes_node.mp hn
  · exact hself
  · exact hc c hc' n hn

/-- A block without the store. -/
theorem Watch.marked_of_none {vs : List Var} (h : ∀ x ∈ xs, ¬ m.Ends x) : m.Marked (.node i r t (.block vs xs)) := by
  rintro before x after rfl hends
  exact absurd hends (h x (by simp))

/-- What stays as it is has no store in it. -/
theorem Watch.Still.unmarked (h : m.Still c) : m.Unmarked c := by
  refine ⟨fun hends => ?_, ?_⟩
  · have := hends.isAssign
    unfold Watch.Still at h
    split at h
    · cases this
    · cases this
    · cases this
    · cases this
    · cases h
  · unfold Watch.Still at h
    split at h
    · simp
    · exact marked_node (by simp [Data.kind]) (by simp [operands])
    · exact marked_node (by simp [Data.kind]) (by simp [operands])
    · refine marked_node (by simp [Data.kind]) fun c hc => ?_
      cases List.mem_singleton.mp hc
      exact ⟨fun h => (by cases h), by simp⟩
    · cases h

/-- A store of something that stays as it is. -/
theorem Watch.Puts.marked {v : Var} {P : Expr → Prop} (hP : ∀ e, P e → m.Still e) (h : Watch.Puts v P e) :
    ∀ n ∈ e.allNodes, m.Marked n := by
  unfold Watch.Puts at h
  split at h
  · refine marked_node (by simp [Data.kind]) fun c hc => ?_
    obtain ⟨hf, -⟩ | rfl := mem_operands_assign.mp hc
    · cases hf
    · exact (hP _ h.2).unmarked
  · cases h

/-- Marking the machine as over is not going on in a cleanup block. -/
theorem Watch.Ends.not_enters (hm : m.Fair) (h : m.Ends x) : ¬ m.Enters x := by
  intro h'
  obtain ⟨-, value, hminus, hclean⟩ := h.both h'
  obtain ⟨n, rfl, hn⟩ := hminus.both hclean
  exact hm.minus (.inr hn)

/-- Where every statement fits, the store stands beside what settles the cell. -/
theorem Watch.Shape.marks (hm : m.Fair) (hg : ¬ m.gone m.state.id) {prev : Expr} {before after : List Expr}
    (h : m.Shape armed bare prev (before ++ x :: after)) (hends : m.Ends x) :
    m.Settles (before.getLast?.getD prev) ∨ ∃ y, after.head? = some y ∧ m.Calls false y := by
  induction before generalizing prev with
  | nil =>
    obtain ⟨hfits, -⟩ := h
    cases hfits with
    | any hx => exact absurd (.ends hends hg) hx
    | enter hx => exact absurd hx (hends.not_enters hm)
    | aimed hp hx => exact absurd hx (hends.not_enters hm)
    | complete hp => exact .inl hp
    | fail _ _ hy => exact .inr ⟨_, rfl, hy.1⟩
    | hand hx =>
      unfold Watch.Hands at hx
      split at hx
      · cases hends.isAssign
      · cases hx
  | cons y before ih =>
    have := ih h.2
    rw [List.getLast?_cons]
    cases hlast : before.getLast? with
    | none => simpa [hlast] using this
    | some z => simpa [hlast] using this

/-! ### Statements of the block that opens an instance -/

/-- Setting up a slot is not marking the machine as over. -/
theorem Watch.Opens.unmarked (hm : m.Fair) (h : m.Opens x) : m.Unmarked x := by
  refine ⟨fun hends => ?_, ?_⟩
  · obtain h | h := h
    · obtain ⟨-, value, hzero, hminus⟩ := h.both hends
      obtain ⟨n, rfl, hn⟩ := hzero.both hminus
      cases hn
    · exact hm.state_ne_resume (congrArg Var.id (h.both hends).1).symm
  · obtain h | h := h
    · exact h.marked fun _ => Watch.still_number
    · exact h.marked fun _ => Watch.still_number

/-- The store of the function that runs the dispatch loop is another one. -/
theorem Watch.Closes.unmarked {L : Expr} (h : m.Closes L x) (hL : Obeys m .running L)
    (hmarked : ∀ n ∈ L.allNodes, m.Marked n) : m.Unmarked x := by
  obtain ⟨_, _, _, _, _, _, rfl⟩ := h
  refine ⟨?_, Watch.marked_node (by simp [Data.kind]) fun c hc => ?_⟩
  · rintro ⟨-, hnum⟩
    cases hL with
    | running => cases hnum
  · obtain ⟨hf, -⟩ | rfl := mem_operands_assign.mp hc
    · cases hf
    · exact ⟨hL.not_ends (by simp), hmarked⟩

theorem Watch.Starts.unmarked (h : m.Starts x) : m.Unmarked x := by
  unfold Watch.Starts at h
  split at h
  · refine ⟨fun h => (by cases h.isAssign), Watch.marked_node (by simp [Data.kind]) fun c hc => ?_⟩
    cases List.mem_singleton.mp hc
    exact h.still.unmarked
  · cases h

/-- A block that opens an instance holds the store in the function that runs the dispatch loop only. -/
theorem Obeys.opening_marked (hm : m.Fair) (h : Obeys m .opening (.node i r t d))
    (ih : ∀ {c role n}, c ∈ operands d ∨ (∃ x ∈ operands d, m.Closes c x) → Obeys m role c → n ∈ c.allNodes → m.Marked n) :
    ∀ n ∈ (Expr.node i r t d).allNodes, m.Marked n := by
  cases h with
  | @opening _ _ _ _ before after loop x _ _ _ _ hbo _ _ hx hloop _ hao _ =>
    have houtside : ∀ {y}, y ∈ before ++ x :: after → Obeys m (.outside false) y → m.Unmarked y := fun hy h =>
      ⟨h.not_ends (by simp), fun n hn => ih (.inl hy) h hn⟩
    have hall : ∀ y ∈ before ++ x :: after, m.Unmarked y := fun y hy => by
      obtain hmem | rfl | hmem := (List.mem_append.trans (or_congr_right List.mem_cons)).mp hy
      · by_cases ho : m.Opens y
        · exact ho.unmarked hm
        · exact houtside hy (hbo y hmem ho)
      · exact hx.unmarked hloop fun n hn => ih (.inr ⟨y, hy, hx⟩) hloop hn
      · by_cases hs : m.Starts y
        · exact hs.unmarked
        · exact houtside hy (hao y hmem hs)
    exact Watch.marked_block (Watch.marked_of_none fun y hy => (hall y hy).none) fun y hy => (hall y hy).within

/-- A block of the machine holds the store beside what settles the cell. -/
theorem Obeys.block_marked (hm : m.Fair) (hg : ¬ m.gone m.state.id) (hopen : role ≠ .opening) {vs : List Var}
    (h : Obeys m role (.node i r t (.block vs xs))) : m.Marked (.node i r t (.block vs xs)) := by
  have houtside : ∀ {hosts}, Obeys m (.outside hosts) (.node i r t (.block vs xs)) →
      m.Marked (.node i r t (.block vs xs)) := fun h => by
    cases h with
    | node _ _ hops => exact Watch.marked_of_none fun x hx => (hops x hx).not_ends (by simp)
  cases h with
  | node hr hd hc => exact houtside (.node hr hd hc)
  | user hx => exact houtside hx
  | failed hx => exact houtside hx
  | raw hx => obtain ⟨_, _, _, ⟨_, _, _, h⟩ | ⟨_, h⟩⟩ := hx.shape <;> cases h
  | block _ _ _ hs =>
    rintro before x after rfl hends
    refine (hs.marks hm hg hends).imp_left fun h => ?_
    cases hlast : before.getLast? with
    | none => exact absurd (hlast ▸ h) Watch.not_settles_absent
    | some y =>
      rw [hlast] at h
      exact ⟨y, rfl, h⟩
  | opening => exact absurd rfl hopen
  | @failing _ _ _ _ x y _ _ hx hy _ hcalls =>
    rintro before z after heq hends
    obtain ⟨rfl, hrest⟩ | ⟨before, rfl, hrest⟩ := List.cons_eq_append_iff.mp heq
    · cases hrest
      exact .inr ⟨y, rfl, hcalls⟩
    · -- the call that settles the cell is not the store
      have hz : z = y := by
        have : z ∈ before ++ z :: after := by simp
        rwa [← hrest, List.mem_singleton] at this
      exact absurd (hz ▸ hends) (hy.not_ends (by simp))

/-- **Where the machine is marked as over.** Every node of a tree holds the store where it should. -/
theorem Obeys.marked (hm : m.Fair) (hg : ¬ m.gone m.state.id) (h : Obeys m role e) :
    ∀ n ∈ e.allNodes, m.Marked n := by
  -- the function that runs the dispatch loop stands two levels below the block that opens an instance
  induction hsize : sizeOf e using Nat.strongRecOn generalizing e role with
  | ind size ih =>
  subst hsize
  cases e with
  | absent => exact (show m.Still .absent from trivial).unmarked.within
  | node i r t d =>
    have hoperand : ∀ {c}, c ∈ operands d → sizeOf c < sizeOf (Expr.node i r t d) := fun hc => by
      have := sizeOf_lt_of_mem_operands hc
      simp only [Expr.node.sizeOf_spec]
      omega
    by_cases hopen : role = .opening
    · subst hopen
      refine h.opening_marked hm fun hc h hn => ih _ ?_ h rfl _ hn
      obtain hc | ⟨x, hx, _, _, _, _, _, _, rfl⟩ := hc
      · exact hoperand hc
      · refine Nat.lt_trans ?_ (hoperand hx)
        simp
        omega
    · have hparts : ∀ c ∈ operands d, (∀ n ∈ c.allNodes, m.Marked n) ∧ (d.kind ≠ .block → ¬ m.Ends c) := fun c hc => by
        cases h.part hopen hc with
        | still hs => exact ⟨hs.unmarked.within, fun _ => hs.unmarked.none⟩
        | part h' _ he => exact ⟨ih _ (hoperand hc) h' rfl, fun hd => he hd hg⟩
      by_cases hd : d.kind = .block
      · cases d with
        | block => exact Watch.marked_block (h.block_marked hm hg hopen) fun c hc => (hparts c hc).1
        | _ => cases hd
      · exact Watch.marked_node hd fun c hc => ⟨(hparts c hc).2 hd, (hparts c hc).1⟩

end

end Resumable
