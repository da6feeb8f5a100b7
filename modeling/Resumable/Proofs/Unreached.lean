import Resumable.Proofs.KnownStates
import Resumable.Proofs.SteeringRuns
import Resumable.Proofs.SteeringTrees

/-!
# `Proofs.Unreached`: states that the checker reports are never entered

The checker warns of states that the entry of a machine does not lead to. Its search goes by the graph and by the
numbers that the statements store, and never looks at a run. Yet whatever a program does with a lowered tree, the
slot of the next state holds numbers only that the search has met: -1 when the machine is over, the number of the
state where errors end, or that of a state that the checker reaches.

**Contents**
* `Machine.Numbered.not_live`: a state that is reported has no number that is live.
* `Machine.Heeded`: what a run says of the numbers in the slot of the next state.
* `tree_heeded`: so it is in every run of a lowered tree.
-/

namespace Resumable

open Resumable.Expr

section
variable {M : Machine} {st st' : State}

/-- The number of a state tells which one it is. -/
theorem Machine.Numbered.eq (h : M.Numbered) (hst : st ∈ M.stateList) (hst' : st' ∈ M.stateList)
    (hid : st.id = st'.id) : st = st' := by
  obtain ⟨r, hr, rfl⟩ := List.mem_map.mp hst
  obtain ⟨r', hr', rfl⟩ := List.mem_map.mp hst'
  obtain ⟨i, hi⟩ := List.mem_iff_getElem?.mp hr
  obtain ⟨j, hj⟩ := List.mem_iff_getElem?.mp hr'
  rw [h i r hi, h j r' hj, Int.natCast_inj] at hid
  subst hid
  rw [Option.some.inj (hi.symm.trans hj)]

theorem Machine.Numbered.nonneg (h : M.Numbered) (hst : st ∈ M.stateList) : 0 ≤ st.id := by
  obtain ⟨r, hr, rfl⟩ := List.mem_map.mp hst
  obtain ⟨i, hi⟩ := List.mem_iff_getElem?.mp hr
  exact h i r hi ▸ Int.natCast_nonneg i

/-- A state that is reported has no number that is live. -/
theorem Machine.Numbered.not_live (h : M.Numbered) (hst : st ∈ M.unreached) : ¬ M.Live st.id := by
  obtain ⟨hmem, hkind, hreach⟩ := mem_unreached.mp hst
  intro hl
  cases hl with
  | done hn => exact absurd (h.nonneg hmem) (by omega)
  | rethrow hst' hk hn => exact hkind (h.eq hst' hmem hn ▸ hk)
  | reached hn hr => exact hreach hn hr

end

/-- What the slots and the trail of a world say of a machine whose next state is kept in `v`: the slot only ever
held -1, the number of the state where errors end, and numbers that the checker reaches. -/
structure Machine.Heeded (M : Machine) (v : Var) (w : World) : Prop where
  held : ∀ (a : Nat) s, w.slots[a]? = some s → s.var = v.id → ∃ n, s.value = .int .int n ∧ M.Live n
  stored : ∀ a x, Footprint.stored v.id a x ∈ w.trail → ∃ n, x = .int .int n ∧ M.Live n
  turned : ∀ a x, Footprint.switched v.id a x ∈ w.trail → ∃ n, x = some (.int .int n) ∧ M.Live n
  /-- A state that is reported is never the next one. -/
  never : ∀ st ∈ M.unreached, ∀ a, Footprint.stored v.id a (.int .int st.id) ∉ w.trail ∧
    Footprint.switched v.id a (some (.int .int st.id)) ∉ w.trail

section
variable {M : Machine} {v : Var} {w w' : World} {e out : Expr} {config : LowerConfig} {supply : Supply} {s : Lowering}

/-- A world in which the machine is steered heeds its states. -/
theorem Steered.heeded (hw : Steered M.helm w) (hn : M.Numbered) (hv : M.stateVar = some v) : M.Heeded v w := by
  have hstored : ∀ a x, Footprint.stored v.id a x ∈ w.trail → ∃ n, x = .int .int n ∧ M.Live n := fun a x hx =>
    hw.trail _ hx (.state hv rfl)
  have hturned : ∀ a x, Footprint.switched v.id a x ∈ w.trail → ∃ n, x = some (.int .int n) ∧ M.Live n := by
    intro a x hx
    obtain ⟨_, rfl, n, rfl, hl⟩ := hw.trail _ hx (.state hv rfl)
    exact ⟨n, rfl, hl⟩
  refine ⟨fun a s ha hs => hw.slots a s ha (.state hv hs.symm), hstored, hturned, fun st hst a => ⟨fun hx => ?_, fun hx => ?_⟩⟩
  · obtain ⟨n, heq, hl⟩ := hstored a _ hx
    cases heq
    exact hn.not_live hst hl
  · obtain ⟨n, heq, hl⟩ := hturned a _ hx
    cases heq
    exact hn.not_live hst hl

/-- **Warnings about states that are never entered are sound.** Take any tree whose names have numbers that were
handed out, any options, and a machine with a dispatch loop that lowering the tree has recorded. Whatever a program
does with the new tree, the slot of the next state only ever holds -1, the number of the state where errors end, or
one that the checker reaches from the entry. So no state that the checker reports is ever dispatched. -/
theorem tree_heeded (hn : e.Named supply.names) (h : Lower.tree e config (.start config supply) = .ok out s)
    (hM : M ∈ s.machines) (hv : M.stateVar = some v) (hw : w.Blank) (hreach : Reaches out w w') :
    M.reachFindings = M.unreached.map M.neverEntered ∧ M.Heeded v w' := by
  obtain ⟨hnumbered, hheeds⟩ := tree_heeds hn h hM (by rw [hv]; rfl)
  have hsteered := hreach.steered (Machine.Live.reached (Int.le_refl 0) M.zero_mem_reachable) hheeds hw.steered
  exact ⟨M.reachFindings_eq, hsteered.heeded hnumbered hv⟩

/-- An async lambda that jumps over the first of two places where it would await its parameter. -/
def skippedAwait : Expr :=
  let task : Var := ⟨1, "task", .task .int⟩
  let done : Label := ⟨2, "done", .void⟩
  .node 8 8 (.func [.task .int] false [.task .int]) (.lambda "skipped" [task]
    (.node 7 7 .int (.block []
      [.node 1 1 .void (.goto .plain done .absent),
        .node 3 3 .int (.await (.node 2 2 (.task .int) (.var task)) none),
        .node 4 4 .void (.label done .absent),
        .node 6 6 .int (.await (.node 5 5 (.task .int) (.var task)) none)])) .async false)

/-- Whether lowering the tree records a machine of a kind. -/
def Lower.records (config : LowerConfig) (e : Expr) (supply : Supply) (p : Expr → Machine → Bool) : Bool :=
  match Lower.tree e config (.start config supply) with
  | .ok out s => s.machines.any (p out)
  | .error _ _ => false

omit v w w' out s M in
theorem Lower.exists_of_records {p : Expr → Machine → Bool} (h : Lower.records config e supply p = true) :
    ∃ out s M, Lower.tree e config (.start config supply) = .ok out s ∧ M ∈ s.machines ∧ p out M = true := by
  unfold Lower.records at h
  split at h
  · obtain ⟨i, hi, hM⟩ := Array.any_eq_true.mp h
    exact ⟨_, _, _, ‹_›, Array.getElem_mem hi, hM⟩
  · cases h

/-- Whether a footprint marks a machine as over whose next state is kept in the variable. -/
def Footprint.isOver (i : Nat) : Footprint → Bool
  | .stored j _ (.int .int (-1)) => j == i
  | _ => false

/-- A machine with a state that is reported runs to its end without it. -/
theorem tree_heeded_skippedAwait :
    ∃ out s M v, Lower.tree skippedAwait verifying (.start verifying ⟨8, 2, 8⟩) = .ok out s ∧ M ∈ s.machines ∧
      M.stateVar = some v ∧ M.unreached ≠ [] ∧
      (M.reachFindings = M.unreached.map M.neverEntered ∧ M.Heeded v (Act.performAll 60 out awaitedActs .withCell)) ∧
      (Act.performAll 60 out awaitedActs .withCell).trail.any (·.isOver v.id) = true := by
  have hrecords : Lower.records verifying skippedAwait ⟨8, 2, 8⟩ (fun out M =>
      !M.unreached.isEmpty && M.stateVar.any fun v =>
        (Act.performAll 60 out awaitedActs .withCell).trail.any (·.isOver v.id)) = true := by decide +kernel
  obtain ⟨out, s, M, hrun, hM, hp⟩ := Lower.exists_of_records hrecords
  rw [Bool.and_eq_true, Option.any_eq_true] at hp
  obtain ⟨hunreached, v, hv, htrail⟩ := hp
  refine ⟨out, s, M, v, hrun, hM, hv, fun hnil => by simp [hnil] at hunreached, ?_, htrail⟩
  exact tree_heeded (by decide +kernel) hrun hM hv ⟨rfl, rfl, rfl⟩ (Reaches.refl.performAll 60 awaitedActs)

end

end Resumable
