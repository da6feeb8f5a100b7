import Resumable.Proofs.Acting
import Resumable.Proofs.Calling
import Resumable.Proofs.Lowering
import Resumable.Proofs.Marking
import Resumable.Proofs.Naming

/-!
# `Proofs.KnownStates`: no machine turns on an unknown state

Whatever the program around a lowered tree does, in any world in which nothing has run before, the worlds that it
brings about are sane for every machine of the tree, and what a sane world's trail says of a machine is that its
dispatch loop only ever turned on numbers of its states.

**Contents**
* `Act.stays`, `Reaches.sane`: one act, and then all of them, leave a sane world.
* `Obeys.not_turnsOn`: only the function that runs the dispatch loop turns on the state slot.
* `Machine.Known`: what the trail says of a machine.
* `tree_known`: so it is in every run of a lowered tree.
-/

namespace Resumable

open Resumable.Expr

section
variable {m : Watch} {e : Expr} {w w' : World}

/-- Nothing has happened to the machine yet. -/
theorem World.Blank.sane (h : w.Blank) : Sane m w := by
  have hclosure : ∀ {k : Nat} {κ : Closure}, w.closures[k]? ≠ some κ := by simp [h.closures]
  have hslot : ∀ {a : Nat} {s : Slot}, w.slots[a]? ≠ some s := by simp [h.slots]
  have hcoherent : Coherent m w :=
    { leads := fun k κ hk => absurd hk hclosure
      kinds := fun k κ hk => absurd hk hclosure
      slots := fun a s ha => absurd ha hslot
      apart := fun j k ι κ x a hj => absurd hj.closure hclosure
      waiting := fun k κ hi => absurd hi.closure hclosure
      owed := fun k κ hi => absurd hi.closure hclosure
      echo := fun k κ b hi => absurd hi.closure hclosure
      bounds := fun f hf => by simp [h.trail] at hf
      trail := fun l f l' hl => by simp [h.trail] at hl }
  exact ⟨hcoherent, fun l a l' hl => by simp [h.trail] at hl⟩

instance : Overlooks (Kept m fun _ => True) where
  still hslots hclosures htrail := Respects.kept ⟨htrail ▸ List.suffix_refl _, fun k κ hk => by rw [hclosures]; exact hk⟩
    fun hs _ => .of_same hs hslots hclosures htrail

/-- **One act** leaves every machine of the tree alone that nobody waits for, and the world sane. -/
theorem Act.stays (hm : m.Fair) (he : m.Foreign true e) (n : Nat) (a : Act) :
    Stays m (fun _ => True) (a.perform (Calls.level n) e) := by
  have hu := level_upright hm n
  have := hu.spared.stay
  refine a.runs ((hu.spared.eval he {}).mono fun w _ _ => ?_)
  exact ⟨fun x a h => by simp [Env.slot?] at h, fun _ x _ => by simp [Env.slot?]⟩

/-- **Whatever a program does** with a tree that hosts the machine, the world is sane. -/
theorem Reaches.sane (hm : m.Fair) (he : m.Foreign true e) (hr : Reaches e w w') (hs : Sane m w)
    (hl : m.Lawful w') : Sane m w' := by
  induction hr with
  | refl => exact hs
  | @act v n a _ ih =>
    have hkept := (Act.stays hm he n a).left v
    exact (hkept.keeps hl (ih (hl.earlier hkept.later)) trivial).1

end

section
variable {m : Watch} {hosts : Bool} {e : Expr} {w w' : World}

/-! ### Who turns on the state slot -/

/-- Code outside the machine has no switch over the state slot, outside the lambdas in it. -/
theorem Obeys.not_turnsHere (h : Obeys m (.outside hosts) e) : ∀ x ∈ e.ownNodes, x.turnsHere m.state.id = false := by
  generalize hrole : Role.outside hosts = role at h
  induction h generalizing hosts with
  | absent => simp
  | @node _ i r t d _ hd hc ih =>
    cases hrole
    intro x hx
    rw [ownNodes_node, List.mem_cons] at hx
    obtain rfl | hx := hx
    · cases d with
      | switch value cases other comparer =>
        cases hvar : value.asVar? with
        | none => simp [turnsHere, hvar]
        | some u =>
          have hplain := (hc value (by simp [operands])).plain_of_asVar? hvar
          simpa [turnsHere, hvar] using fun heq => hplain.foreign (.inl heq)
      | _ => rfl
    · split at hx
      · cases hx
      · obtain ⟨c, hc', hx⟩ := List.mem_flatMap.mp hx
        exact ih c hc' rfl x hx
  | host => simp [ownNodes_node, Data.kind, turnsHere]
  | _ => cases hrole

/-- A store into a variable turns on nothing but what the value does. -/
theorem Watch.Puts.not_turnsHere {v : Var} {P : Expr → Prop} {k : Nat} (h : Watch.Puts v P e)
    (hP : ∀ y, P y → ∀ x ∈ y.ownNodes, x.turnsHere k = false) : ∀ x ∈ e.ownNodes, x.turnsHere k = false := by
  unfold Watch.Puts at h
  split at h
  · intro x hx
    simp only [ownNodes_node, Data.kind, List.mem_cons] at hx
    obtain rfl | hx := hx
    · rfl
    · simp only [reduceCtorEq, if_false, List.mem_flatMap] at hx
      obtain ⟨c, hc, hx⟩ := hx
      obtain ⟨hf, -⟩ | rfl := mem_operands_assign.mp hc
      · cases hf
      · exact hP _ h.2 x hx
  · cases h

theorem Watch.Number.not_turnsHere {P : Int → Prop} {k : Nat} (h : Watch.Number P e) :
    ∀ x ∈ e.ownNodes, x.turnsHere k = false := by
  unfold Watch.Number at h
  split at h
  · simp [ownNodes_node, Data.kind, operands, turnsHere]
  · cases h

/-- The block that opens an instance turns on nothing itself. -/
theorem Obeys.opening_not_turnsHere (h : Obeys m .opening e) : ∀ x ∈ e.ownNodes, x.turnsHere m.state.id = false := by
  cases h with
  | @opening i r t vs before after loop x _ _ _ hb hbo _ _ hx hloop ha hao _ =>
    intro y hy
    simp only [ownNodes_node, Data.kind, List.mem_cons] at hy
    obtain rfl | hy := hy
    · rfl
    simp only [reduceCtorEq, if_false, List.mem_flatMap] at hy
    obtain ⟨c, hc, hy⟩ := hy
    obtain hc | rfl | hc := (List.mem_append.trans (or_congr_right List.mem_cons)).mp (show c ∈ before ++ x :: after from hc)
    · -- before the loop is stored: the first numbers, or foreign code
      by_cases ho : m.Opens c
      · obtain h | h := ho
        · exact h.not_turnsHere (fun _ => Watch.Number.not_turnsHere) y hy
        · exact h.not_turnsHere (fun _ => Watch.Number.not_turnsHere) y hy
      · exact (hbo c hc ho).not_turnsHere y hy
    · obtain ⟨i, r, t, i', r', t', rfl⟩ := hx
      have hputs : Watch.Puts m.continuation (· = loop)
          (.node i r t (.assign .plain (.node i' r' t' (.var m.continuation)) loop)) := ⟨rfl, rfl⟩
      refine hputs.not_turnsHere (fun z hz x hx => ?_) y hy
      subst hz
      cases hloop with
      | running => simp_all [ownNodes_node, Data.kind, turnsHere]
    · -- after it: the first call of the continuation, or foreign code
      by_cases hs : m.Starts c
      · unfold Watch.Starts at hs
        split at hs
        · unfold Watch.IsContinuation at hs
          split at hs
          · simp only [ownNodes_node, Data.kind, operands] at hy
            simp_all [ownNodes_node, Data.kind, operands, turnsHere]
            obtain rfl | rfl := hy <;> rfl
          · cases hs
        · cases hs
      · exact (hao c hc hs).not_turnsHere y hy

/-- **Only the function that runs the dispatch loop** turns on the state slot. -/
theorem Obeys.not_turnsOn (h : Obeys m (.outside hosts) e) : e.turnsOn m.state.id = false := by
  have hbody : ∀ b : Expr, (∀ x ∈ b.ownNodes, x.turnsHere m.state.id = false) →
      b.ownNodes.any (·.turnsHere m.state.id) = false := fun b hb => by
    rw [List.any_eq_false]
    exact fun x hx => by simp [hb x hx]
  cases h with
  | absent => rfl
  | @node _ i r t d _ _ hc =>
    cases d with
    | lambda name params body kind fallible => exact hbody body (hc body (by simp [operands])).not_turnsHere
    | _ => rfl
  | host _ _ hopening => exact hbody _ hopening.opening_not_turnsHere

/-- A closure in a sane world that turns on the state slot is an instance. -/
theorem Sane.instance_of_turnsOn (h : Sane m w) {k : Nat} {κ : Closure} (hk : w.closures[k]? = some κ)
    (ht : κ.lambda.turnsOn m.state.id = true) : Instance m w k κ := by
  refine ⟨hk, ?_⟩
  cases h.kinds k κ hk with
  | outside hosts hobeys => rw [hobeys.not_turnsOn] at ht; cases ht
  | running hrunning => exact hrunning

/-! ### What the trail says -/

/-- The variables that a machine's code goes by. -/
structure Machine.Vars where
  state : Var
  resume : Var
  cell : Var
  continuation : Var
  deriving DecidableEq

/-- The variables of a machine with a dispatch loop of an async lambda. -/
def Machine.vars? (M : Machine) : Option Machine.Vars := do
  return ⟨← M.stateVar, ← M.resumeVar, ← M.cellVar, ← M.continuationVar⟩

/-- The value is the number of a state of the machine that runs no cleanup block. -/
def Machine.IsGood (M : Machine) (x : Value) : Prop :=
  ∃ st ∈ M.stateList, st.kind ≠ .cleanup ∧ x = .int .int st.id

/-- The value is the number of a state of the machine. -/
def Machine.IsKnown (M : Machine) (x : Value) : Prop := ∃ st ∈ M.stateList, x = .int .int st.id

/-- What the trail of a world, the latest first, says of a machine. -/
structure Machine.Known (M : Machine) (v : Machine.Vars) (w : World) : Prop where
  /-- What the dispatch loop turns on is the number of a state, and the machine is not over. -/
  turned : ∀ l a x l', w.trail = l ++ .switched v.state.id a x :: l' →
    (∃ y, x = some y ∧ M.IsKnown y) ∧ Footprint.stored v.state.id a (.int .int (-1)) ∉ l'
  /-- The loop has a case for it. -/
  hit : ∀ a, Footprint.missed v.state.id a ∉ w.trail
  /-- When it is a cleanup block, the resume slot of the instance holds a state to go on in. -/
  resumed : ∀ l a st l' κ b, w.trail = l ++ .switched v.state.id a (some (.int .int st.id)) :: l' →
    st ∈ M.stateList → st.kind = .cleanup → κ ∈ w.closures → κ.lambda.turnsOn v.state.id = true →
    κ.env.slot? v.state.id = some a → κ.env.slot? v.resume.id = some b → M.IsGood (content b l')
  /-- Only numbers of states are stored into the slots, or -1, which is never parked. -/
  stateStores : ∀ a x, Footprint.stored v.state.id a x ∈ w.trail → M.IsKnown x ∨ x = .int .int (-1)
  resumeStores : ∀ a x, Footprint.stored v.resume.id a x ∈ w.trail → M.IsGood x ∨ x = .int .int (-1)
  parkedStores : ∀ g p a x, (M.graph.guard g).parked = some p → Footprint.stored p.id a x ∈ w.trail → M.IsGood x
  /-- Only an instance that has completed its cell just before, or makes it fail right after, is marked as over. -/
  ended : ∀ l a l', w.trail = l ++ .stored v.state.id a (.int .int (-1)) :: l' →
    Completes v.state v.cell a l' ∨ Faults v.state v.cell a l

variable {M : Machine} {v : Machine.Vars}

theorem Watch.Suits.isGood (h : m.Suits M) {n : Int} (hn : m.good n) : M.IsGood (.int .int n) := by
  obtain ⟨st, hst, hkind, rfl⟩ := (h.good n).mp hn
  exact ⟨st, hst, hkind, rfl⟩

theorem Watch.Suits.isKnown (h : m.Suits M) {n : Int} (hn : m.Known n) : M.IsKnown (.int .int n) := by
  obtain hn | hn := hn
  · obtain ⟨st, hst, -, rfl⟩ := (h.good n).mp hn
    exact ⟨st, hst, rfl⟩
  · obtain ⟨st, hst, -, rfl⟩ := (h.clean n).mp hn
    exact ⟨st, hst, rfl⟩

/-- The variables of the machine are those of its watch. -/
theorem Watch.Suits.vars (h : m.Suits M) (hv : M.vars? = some v) :
    v = ⟨m.state, m.resume, m.cell, m.continuation⟩ := by
  simp only [Machine.vars?, h.stateVar, h.resumeVar, h.cellVar, h.continuationVar] at hv
  exact (Option.some.inj hv).symm

/-- The trail of a sane world says that the machine is known. -/
theorem Sane.known (h : Sane m w) (hs : m.Suits M) : M.Known ⟨m.state, m.resume, m.cell, m.continuation⟩ w where
  turned l a x l' hl := by
    obtain ⟨n, rfl, hn, hover, -⟩ := h.trail l _ l' hl rfl
    exact ⟨⟨_, rfl, hs.isKnown hn⟩, hover⟩
  hit a ha := by
    obtain ⟨l, l', hl⟩ := List.append_of_mem ha
    exact h.trail l _ l' hl rfl
  resumed l a st l' κ b hl hst hkind hκ ht ha hb := by
    obtain ⟨n, heq, -, -, hclean⟩ := h.trail l _ l' hl rfl
    cases heq
    obtain ⟨k, hk⟩ := Array.mem_iff_getElem?.mp hκ
    obtain ⟨j, hj, hgood⟩ :=
      hclean ((hs.clean _).mpr ⟨st, hst, hkind, rfl⟩) b ⟨k, κ, h.instance_of_turnsOn hk ht, ha, hb⟩
    exact hj ▸ hs.isGood hgood
  stateStores a x hx := by
    obtain ⟨l, l', hl⟩ := List.append_of_mem hx
    obtain ⟨n, rfl, hn | rfl⟩ := (h.trail l _ l' hl).1 rfl
    · exact .inl (hs.isKnown hn)
    · exact .inr rfl
  resumeStores a x hx := by
    obtain ⟨l, l', hl⟩ := List.append_of_mem hx
    obtain ⟨n, rfl, hn | rfl⟩ := (h.trail l _ l' hl).2.1 rfl
    · exact .inl (hs.isGood hn)
    · exact .inr rfl
  parkedStores g p a x hp hx := by
    obtain ⟨l, l', hl⟩ := List.append_of_mem hx
    obtain ⟨n, rfl, hn⟩ := (h.trail l _ l' hl).2.2 ((hs.parked _).mpr ⟨g, p, hp, rfl⟩)
    exact hs.isGood hn
  ended := h.ended

/-- **A machine never turns on an unknown state.** Take any tree whose names and nodes have numbers that were
handed out, any options, and an async machine that lowering the tree has recorded. Whatever a program does
with the new tree, as long as each awaiter calls what it was handed at most once and refuses nothing, every
turn of the dispatch loop finds a case, as the state slot holds the number of a state; the resume slot holds
one whenever a cleanup block is entered, and what a cleanup block has parked is always one. The state slot of
an instance gets -1 only when the instance has just completed its cell, or when the next thing it does is to
make the cell fail, and no turn follows; in the new tree these stores stand next to those calls. -/
theorem tree_known {config : LowerConfig} {out : Expr} {supply : Supply} {s : Lowering}
    (hn : e.Named supply.names) (hr : ∀ x ∈ e.allNodes, x.ref ≤ supply.refs)
    (h : Lower.tree e config (.start config supply) = .ok out s) (hM : M ∈ s.machines) (hkind : M.kind = .async)
    (hv : M.vars? = some v) (hw : w.Blank) (hreach : Reaches out w w') (hl : Lawful v.state v.continuation w') :
    M.Known v w' ∧ ∀ x ∈ out.allNodes, x.MarksOver v.state v.cell := by
  have hslot : M.stateVar.isSome = true := by
    unfold Machine.vars? at hv
    cases hstate : M.stateVar with
    | none => rw [hstate] at hv; cases hv
    | some => rfl
  obtain ⟨m, hs, hm, hkept, hhosts⟩ := tree_bears hn hr h hM hkind hslot
  obtain rfl := hs.vars hv
  exact ⟨(hreach.sane hm hhosts hw.sane hl).known hs, hhosts.marked hm hkept⟩

/-- A world with a cell that waits for an outcome. -/
def World.withCell : World := { World.initial with store := World.initial.store.push (.completion {}) }

/-- Compiles `guardedAwait`, calls it with the cell, gives the cell a value and lets the loop run. -/
def awaitedActs : List Act :=
  [.compile, .call (.func (.func [.task .int] false [.task .int]) (.closure 0)) [.pointer (.task .int) 5],
    .finish 5 none (some (.ofInt 42)), .drain]

/-- A machine with a cleanup block that waits, goes on, cleans up and comes to its end. -/
theorem tree_known_guardedAwait :
    ∃ out s M v, Lower.tree guardedAwait verifying (.start verifying ⟨6, 1, 6⟩) = .ok out s ∧ M ∈ s.machines ∧
      M.vars? = some v ∧ M.Known v (Act.performAll 60 out awaitedActs .withCell) ∧
      (∀ x ∈ out.allNodes, x.MarksOver v.state v.cell) ∧
      (Act.performAll 60 out awaitedActs .withCell).trail.any (fun f =>
        match f with
        | .stored i _ (.int .int (-1)) => i == v.state.id
        | _ => false) = true := by
  have hcheck : (match Lower.tree guardedAwait verifying (.start verifying ⟨6, 1, 6⟩) with
      | .ok out s => s.machines.any fun M => M.kind == .async && M.vars?.any fun v =>
        decide (Lawful v.state v.continuation (Act.performAll 60 out awaitedActs .withCell)) &&
          (Act.performAll 60 out awaitedActs .withCell).trail.any fun f =>
            match f with
            | .stored i _ (.int .int (-1)) => i == v.state.id
            | _ => false
      | .error _ _ => false) = true := by decide +kernel
  cases hrun : Lower.tree guardedAwait verifying (.start verifying ⟨6, 1, 6⟩) with
  | error f s =>
    rw [hrun] at hcheck
    cases hcheck
  | ok out s =>
    rw [hrun] at hcheck
    obtain ⟨i, hi, hM⟩ := Array.any_eq_true.mp hcheck
    rw [Bool.and_eq_true, Option.any_eq_true] at hM
    obtain ⟨hkind, v, hv, hM⟩ := hM
    rw [Bool.and_eq_true, decide_eq_true_iff] at hM
    obtain ⟨hknown, hmarks⟩ :=
      tree_known (by decide +kernel) (by decide +kernel) hrun (Array.getElem_mem hi) (beq_iff_eq.mp hkind) hv
        ⟨rfl, rfl, rfl⟩ (Reaches.refl.performAll 60 awaitedActs) hM.1
    exact ⟨out, s, _, v, rfl, Array.getElem_mem hi, hv, hknown, hmarks, hM.2⟩

end

end Resumable
