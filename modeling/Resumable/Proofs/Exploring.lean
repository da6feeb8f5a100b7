import Mathlib.Data.List.Nodup
import Mathlib.Data.List.Perm.Subperm
import Resumable.Lower.Check

/-!
# `Proofs.Exploring`: what the checker reaches

From the entry on, the checker follows every number that it meets to the numbers that may come next. It
follows each number once, so that its fuel is enough to follow all of them: the numbers that it has met in the
end are closed under what may come next.

**Contents**
* `mem_foldl_meets`, `nodup_foldl_meets`: the numbers that are new when a state is followed.
* `Exploring`: the invariant of the search.
* `mem_reachable_of_successor`: what follows a number that is reached is reached.
* `unreached`, `reachFindings_eq`: the states that are reported.
-/

namespace Resumable.Machine

variable {m : Machine} {seen acc work : List Nat} {ids : List Int} {n fuel : Nat} {id : Int}

/-- Meeting a number: it joins the new ones unless it is known, or is the number of no state. -/
def meets (m : Machine) (seen acc : List Nat) (id : Int) : List Nat :=
  let n := id.toNat
  if 0 ≤ id && n < m.states.length && !seen.contains n && !acc.contains n then acc ++ [n] else acc

/-- The state that a number stands for. -/
def numbered (m : Machine) (i : Nat) : State := m.graph.state (m.states.getD i 0)

/-- The number of a state of the machine, by its place. -/
structure Places (m : Machine) (id : Int) (n : Nat) : Prop where
  nonneg : 0 ≤ id
  toNat : id.toNat = n
  lt : n < m.states.length

theorem meets_of (h : m.Places id n) (hseen : n ∉ seen) (hacc : n ∉ acc) : m.meets seen acc id = acc ++ [n] := by
  obtain ⟨hnonneg, rfl, hlt⟩ := h
  simp [meets, hnonneg, hlt, hseen, hacc]

/-- A number that is met is one of those before, or is new. -/
theorem meets_cases (m : Machine) (seen acc : List Nat) (id : Int) :
    m.meets seen acc id = acc ∧ (∀ n, m.Places id n → n ∈ seen ∨ n ∈ acc) ∨
      ∃ n, m.Places id n ∧ n ∉ seen ∧ n ∉ acc ∧ m.meets seen acc id = acc ++ [n] := by
  by_cases h : ∃ n, m.Places id n ∧ n ∉ seen ∧ n ∉ acc
  · obtain ⟨n, hn, hseen, hacc⟩ := h
    exact .inr ⟨n, hn, hseen, hacc, meets_of hn hseen hacc⟩
  · have hknown : ∀ n, m.Places id n → n ∈ seen ∨ n ∈ acc := fun n hn => by
      by_contra hnot
      exact h ⟨n, hn, (not_or.mp hnot).1, (not_or.mp hnot).2⟩
    refine .inl ⟨?_, hknown⟩
    unfold meets
    dsimp only
    rw [if_neg]
    simp only [Bool.and_eq_true, decide_eq_true_eq, Bool.not_eq_true', List.contains_eq_mem, decide_eq_false_iff_not]
    rintro ⟨⟨⟨hnonneg, hlt⟩, hseen⟩, hacc⟩
    exact (hknown _ ⟨hnonneg, rfl, hlt⟩).elim hseen hacc

/-- What is met is what the states with some numbers place, besides what was met before. -/
theorem mem_foldl_meets : n ∈ ids.foldl (m.meets seen) acc ↔ n ∈ acc ∨ n ∉ seen ∧ ∃ id ∈ ids, m.Places id n := by
  induction ids generalizing acc with
  | nil => simp
  | cons id ids ih =>
    rw [List.foldl_cons, ih]
    obtain ⟨heq, hknown⟩ | ⟨k, hk, hseen, -, heq⟩ := m.meets_cases seen acc id <;> rw [heq]
    · constructor
      · rintro (h | ⟨h, id', hmem, hp⟩)
        · exact .inl h
        · exact .inr ⟨h, id', List.mem_cons_of_mem _ hmem, hp⟩
      · rintro (h | ⟨h, id', hmem, hp⟩)
        · exact .inl h
        · obtain rfl | hmem := List.mem_cons.mp hmem
          · exact .inl ((hknown n hp).resolve_left h)
          · exact .inr ⟨h, id', hmem, hp⟩
    · simp only [List.mem_append, List.mem_singleton]
      constructor
      · rintro ((h | rfl) | ⟨h, id', hmem, hp⟩)
        · exact .inl h
        · exact .inr ⟨hseen, id, List.mem_cons_self, hk⟩
        · exact .inr ⟨h, id', List.mem_cons_of_mem _ hmem, hp⟩
      · rintro (h | ⟨h, id', hmem, hp⟩)
        · exact .inl (.inl h)
        · obtain rfl | hmem := List.mem_cons.mp hmem
          · exact .inl (.inr (hp.toNat.symm.trans hk.toNat))
          · exact .inr ⟨h, id', hmem, hp⟩

theorem nodup_foldl_meets (h : acc.Nodup) : (ids.foldl (m.meets seen) acc).Nodup := by
  induction ids generalizing acc with
  | nil => exact h
  | cons id ids ih =>
    rw [List.foldl_cons]
    obtain ⟨heq, -⟩ | ⟨k, -, -, hacc, heq⟩ := m.meets_cases seen acc id <;> rw [heq]
    · exact ih h
    · exact ih (h.append (List.nodup_singleton k) (by simpa using hacc))

/-! ### The search -/

/-- The numbers that are met when a state is followed. -/
def follow (m : Machine) (i : Nat) (seen : List Nat) : List Nat := (m.successors (m.numbered i)).foldl (m.meets seen) []

theorem explore_cons (i : Nat) :
    m.explore (fuel + 1) (i :: work) seen = m.explore fuel (m.follow i seen ++ work) (m.follow i seen ++ seen) := rfl

theorem mem_follow {i : Nat} : n ∈ m.follow i seen ↔ n ∉ seen ∧ ∃ id ∈ m.successors (m.numbered i), m.Places id n := by
  unfold follow
  rw [mem_foldl_meets]
  simp

/-- What was met stays met. -/
theorem mem_explore (h : n ∈ seen) : n ∈ m.explore fuel work seen := by
  induction fuel generalizing work seen with
  | zero => exact h
  | succ fuel ih =>
    cases work with
    | nil => exact h
    | cons i work =>
      rw [explore_cons]
      exact ih (List.mem_append_right _ h)

/-- The entry is met. -/
theorem zero_mem_reachable : 0 ∈ m.reachable := mem_explore (List.mem_singleton_self 0)

/-- On the way: all that was met and is not left to be followed has been followed. -/
structure Exploring (m : Machine) (work seen : List Nat) : Prop where
  nodup : seen.Nodup
  lt : ∀ i ∈ seen, i < m.states.length
  met : ∀ i ∈ work, i ∈ seen
  followed : ∀ i ∈ seen, i ∉ work → ∀ id ∈ m.successors (m.numbered i), ∀ n, m.Places id n → n ∈ seen

namespace Exploring

theorem start (h : 0 < m.states.length) : m.Exploring [0] [0] where
  nodup := List.nodup_singleton 0
  lt i hi := by rwa [List.mem_singleton.mp hi]
  met i hi := hi
  followed i hi hnot := absurd hi hnot

/-- One more state is followed. -/
theorem step {i : Nat} (h : m.Exploring (i :: work) seen) :
    m.Exploring (m.follow i seen ++ work) (m.follow i seen ++ seen) where
  nodup := by
    refine (nodup_foldl_meets List.nodup_nil).append h.nodup fun k hk hseen => ?_
    exact (mem_follow.mp hk).1 hseen
  lt k hk := by
    obtain hk | hk := List.mem_append.mp hk
    · obtain ⟨-, id, -, hplaces⟩ := mem_follow.mp hk
      exact hplaces.lt
    · exact h.lt k hk
  met k hk := by
    obtain hk | hk := List.mem_append.mp hk
    · exact List.mem_append_left _ hk
    · exact List.mem_append_right _ (h.met k (List.mem_cons_of_mem _ hk))
  followed k hk hnot id hid n hn := by
    have hk : k ∈ seen := (List.mem_append.mp hk).resolve_left fun hmem => hnot (List.mem_append_left _ hmem)
    by_cases hki : k = i
    · -- the one that is followed now
      subst hki
      by_cases hseen : n ∈ seen
      · exact List.mem_append_right _ hseen
      · exact List.mem_append_left _ (mem_follow.mpr ⟨hseen, id, hid, hn⟩)
    · refine List.mem_append_right _ (h.followed k hk (fun hmem => ?_) id hid n hn)
      exact hnot (List.mem_append_right _ ((List.mem_cons.mp hmem).resolve_left hki))

theorem length_le (h : m.Exploring work seen) : seen.length ≤ m.states.length := by
  have hsub : seen ⊆ List.range m.states.length := fun i hi => List.mem_range.mpr (h.lt i hi)
  simpa using (h.nodup.subperm hsub).length_le

/-- Enough fuel follows all. -/
theorem explore (h : m.Exploring work seen) (hfuel : m.states.length + work.length ≤ fuel + seen.length) :
    m.Exploring [] (m.explore fuel work seen) := by
  induction fuel generalizing work seen with
  | zero =>
    have hle := h.length_le
    obtain rfl : work = [] := List.length_eq_zero_iff.mp (by omega)
    exact h
  | succ fuel ih =>
    cases work with
    | nil => exact h
    | cons i work =>
      rw [explore_cons]
      exact ih h.step (by simp only [List.length_append, List.length_cons] at hfuel ⊢; omega)

end Exploring

theorem reachable_done (h : 0 < m.states.length) : m.Exploring [] m.reachable :=
  (Exploring.start h).explore (by simp)

/-- **What follows a number that is reached** is reached. -/
theorem mem_reachable_of_successor {i : Nat} (h : 0 < m.states.length) (hi : i ∈ m.reachable)
    (hid : id ∈ m.successors (m.numbered i)) (hn : m.Places id n) : n ∈ m.reachable :=
  (reachable_done h).followed i hi (by simp) id hid n hn

/-! ### What is reported -/

/-- The warning about a state that the entry does not lead to. -/
def neverEntered (m : Machine) (st : State) : Diagnostic :=
  ⟨.warning, .unreachableState, ⟨m.name, st.origin⟩,
    "state " ++ toString st.id ++ " (" ++ st.kind.text ++ ") is never entered", []⟩

/-- The states that the entry does not lead to, apart from the one where errors end. -/
def unreached (m : Machine) : List State :=
  m.stateList.filter fun st => !((0 ≤ st.id && m.reachable.contains st.id.toNat) || st.kind == .rethrow)

theorem reachFindings_eq (m : Machine) : m.reachFindings = m.unreached.map m.neverEntered := by
  unfold reachFindings unreached
  rw [← List.filterMap_eq_map, List.filterMap_filter]
  refine List.filterMap_congr fun st _ => ?_
  cases (0 ≤ st.id && m.reachable.contains st.id.toNat) || st.kind == .rethrow <;> rfl

theorem mem_unreached {st : State} : st ∈ m.unreached ↔
    st ∈ m.stateList ∧ st.kind ≠ .rethrow ∧ (0 ≤ st.id → st.id.toNat ∉ m.reachable) := by
  simp only [unreached, List.mem_filter, Bool.not_eq_true', Bool.or_eq_false_iff, Bool.and_eq_false_imp,
    decide_eq_true_eq, List.contains_eq_mem, decide_eq_false_iff_not, beq_eq_false_iff_ne]
  exact and_congr_right fun _ => and_comm

end Resumable.Machine
