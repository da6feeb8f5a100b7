import Resumable.Proofs.Dispatch
import Resumable.Proofs.Emitting

/-!
# `Proofs.Covering`: every state gets a case

Emission walks over the states of the loop while the routing of errors adds to them. It stops after a
number of cases that is fixed beforehand; this is enough, since every region asks for at most one state
that raises its error again and one that closes an enumeration, and the machine for one that fails it.

**Contents**
* `Splitter.due`: how many cases there may be in the end.
* `Idle`: steps that make no state.
* `Frugal`: steps that only make states which were allowed for.
-/

namespace Resumable

open Resumable.Expr Split Build

/-- How many states the region may still ask for. -/
def Guard.due (g : Guard) : Nat := g.propagate.isNone.toNat + g.disposeExit.isNone.toNat

/-- How many cases there may be in the end. -/
def Splitter.due (s : Splitter) : Nat :=
  s.states.size + (s.graph.guards.toList.map Guard.due).sum + s.rethrow.isNone.toNat

/-- The states of the loop have their places in the graph. -/
def Splitter.Placed (s : Splitter) : Prop := ∀ r ∈ s.states, r < s.graph.states.size

namespace Split

/-! ### Steps that make no state -/

/-- The same states and regions, but for what the states hold. -/
structure Alike (s s' : Splitter) : Prop where
  states : s'.states = s.states
  size : s'.graph.states.size = s.graph.states.size
  guards : s'.graph.guards = s.graph.guards
  rethrow : s'.rethrow = s.rethrow

theorem Alike.refl (s : Splitter) : Alike s s := ⟨rfl, rfl, rfl, rfl⟩

theorem Alike.trans {s s' s'' : Splitter} (h : Alike s s') (h' : Alike s' s'') : Alike s s'' :=
  ⟨h'.states.trans h.states, h'.size.trans h.size, h'.guards.trans h.guards, h'.rethrow.trans h.rethrow⟩

/-- The step makes no state. -/
class Idle (x : Split α) : Prop where
  alike : ∀ p s, Ensures p s x fun _ s' => Alike s s'

namespace Idle

variable {x y : Split α}

instance pure (a : α) : Idle (pure a : Split α) := ⟨fun _ s => .pure (.refl s)⟩

instance throw (f : Fault) : Idle (throw f : Split α) := ⟨fun _ _ => .throw f⟩

instance read : Idle (read : Split Plan) := ⟨fun _ s => .of_run rfl (.refl s)⟩

instance get : Idle (get : Split Splitter) := ⟨fun _ s => .of_run rfl (.refl s)⟩

instance bind {f : α → Split β} [hx : Idle x] [hf : ∀ a, Idle (f a)] : Idle (x >>= f) where
  alike p s := (hx.alike p s).bind fun a s₁ h1 => ((hf a).alike p s₁).mono fun _ _ h2 => h1.trans h2

instance ite {c : Prop} [Decidable c] [hx : Idle x] [hy : Idle y] : Idle (if c then x else y) := by
  split
  · exact hx
  · exact hy

instance foldrM {f : γ → α → Split α} {xs : List γ} {a : α} [hf : ∀ c a, Idle (f c a)] :
    Idle (xs.foldrM f a) := by
  induction xs with
  | nil => exact pure a
  | cons c cs ih =>
    rw [List.foldrM_cons]
    infer_instance

instance build (x : Build α) : Idle (liftM x : Split α) where
  alike p s := by
    intro a s' hrun
    change Split.build x p s = _ at hrun
    unfold Split.build at hrun
    split at hrun
    · cases hrun
      exact ⟨rfl, rfl, rfl, rfl⟩
    · cases hrun

instance state (r : StateRef) : Idle (state r) := by unfold Split.state; infer_instance

instance guard (g : GuardRef) : Idle (guard g) := by unfold Split.guard; infer_instance

instance modifyState (r : StateRef) (f : State → State) : Idle (modifyState r f) :=
  ⟨fun _ s => .of_run rfl ⟨rfl, by simp [Graph.modifyState], rfl, rfl⟩⟩

instance modify {supply : Splitter → Supply} {reporter : Splitter → Reporter}
    {moments : Splitter → Array Moment} {current : Splitter → StateRef}
    {context : Splitter → List GuardRef} {frames : Splitter → List Frame} {cleanups : Splitter → Nat}
    {caught : Splitter → Option Var} {vars : Splitter → Array Var}
    {labels : Splitter → List (Label × StateRef)} :
    Idle (modify fun s => ⟨supply s, reporter s, moments s, s.graph, s.states, current s, context s,
      frames s, cleanups s, caught s, vars s, s.rethrow, labels s⟩ : Split Unit) :=
  ⟨fun _ _ => .of_run rfl ⟨rfl, rfl, rfl, rfl⟩⟩

end Idle

instance (name : String) (t : Ty) : Idle (newLocal name t) := by unfold newLocal; infer_instance

instance (id : Int) : Idle (setStateId id) := by unfold setStateId; infer_instance

instance (r : StateRef) : Idle (setState r) := by unfold setState; infer_instance

instance (r : StateRef) : Idle (setResume r) := by unfold setResume; infer_instance

instance : Idle continueDispatch := by unfold continueDispatch; infer_instance

instance (value : Expr) : Idle (leaveDispatch value) := by unfold leaveDispatch; infer_instance

instance (r : StateRef) : Idle (transition r) := by
  unfold transition
  repeat' first | infer_instance | split | refine @Idle.bind _ _ _ _ ?_ fun _ => ?_

instance (g : Guard) : Idle (caughtVar g) := by
  unfold caughtVar
  split <;> infer_instance

instance (err : Expr) : Idle (failTarget err) := by
  unfold failTarget
  repeat' first | infer_instance | split | refine @Idle.bind _ _ _ _ ?_ fun _ => ?_

instance (caught ex : Var) (c : Catch) (skip : Option Var) (r : Routing) :
    Idle (routeHandler caught ex c skip r) := by
  unfold routeHandler
  dsimp only
  repeat' first | infer_instance | split | refine @Idle.bind _ _ _ _ ?_ fun _ => ?_

instance (caught ex : Var) (cs : List Catch) (skip : Option Var) (r : Routing) :
    Idle (routeHandlers caught ex cs skip r) := by
  induction cs generalizing skip r with
  | nil => exact Idle.pure r
  | cons c cs ih =>
    unfold routeHandlers
    infer_instance

instance (e : Expr) : Idle (isSafe e) := by
  unfold isSafe
  split <;> infer_instance

instance (r : StateRef) : Idle (announce r) := by unfold announce; infer_instance

instance : Idle unknownState := by
  unfold unknownState
  repeat' first | infer_instance | split | refine @Idle.bind _ _ _ _ ?_ fun _ => ?_

/-! ### Steps that make what was allowed for -/

/-- States were made that were allowed for. -/
structure Spends (s s' : Splitter) : Prop where
  registered : s.states.toList <+: s'.states.toList
  due : s'.due ≤ s.due
  placed : s.Placed → s'.Placed

theorem Spends.trans {s s' s'' : Splitter} (h : Spends s s') (h' : Spends s' s'') : Spends s s'' :=
  ⟨h.registered.trans h'.registered, Nat.le_trans h'.due h.due, fun hp => h'.placed (h.placed hp)⟩

theorem Alike.due {s s' : Splitter} (h : Alike s s') : s'.due = s.due := by
  unfold Splitter.due
  rw [h.states, h.guards, h.rethrow]

theorem Alike.placed {s s' : Splitter} (h : Alike s s') (hp : s.Placed) : s'.Placed := by
  intro r hr
  rw [h.states] at hr
  exact Nat.lt_of_lt_of_eq (hp r hr) h.size.symm

theorem Alike.spends {s s' : Splitter} (h : Alike s s') : Spends s s' :=
  ⟨h.states ▸ List.prefix_refl _, Nat.le_of_eq h.due, h.placed⟩

/-- The step makes no more states than it was allowed for. -/
class Frugal (x : Split α) : Prop where
  spends : ∀ p s, Ensures p s x fun _ s' => Spends s s'

namespace Frugal

variable {x y : Split α}

instance (priority := low) idle [h : Idle x] : Frugal x :=
  ⟨fun p s => (h.alike p s).mono fun _ _ h => h.spends⟩

instance bind {f : α → Split β} [hx : Frugal x] [hf : ∀ a, Frugal (f a)] : Frugal (x >>= f) where
  spends p s := (hx.spends p s).bind fun a s₁ h1 => ((hf a).spends p s₁).mono fun _ _ h2 => h1.trans h2

instance ite {c : Prop} [Decidable c] [hx : Frugal x] [hy : Frugal y] : Frugal (if c then x else y) := by
  split
  · exact hx
  · exact hy

end Frugal

/-- One state was made. -/
structure Adds (r : StateRef) (s s' : Splitter) : Prop where
  states : s'.states = s.states.push r
  place : r < s'.graph.states.size
  size : s.graph.states.size ≤ s'.graph.states.size
  guards : s'.graph.guards = s.graph.guards
  rethrow : s'.rethrow = s.rethrow

theorem Adds.alike {r : StateRef} {s s' s'' : Splitter} (h : Adds r s s') (h' : Alike s' s'') : Adds r s s'' :=
  ⟨h'.states.trans h.states, Nat.lt_of_lt_of_eq h.place h'.size.symm, Nat.le_trans h.size h'.size.ge,
    h'.guards.trans h.guards, h'.rethrow.trans h.rethrow⟩

/-- A new state is added to the list and has the context that it is made for. -/
theorem newStateIn_adds (context : List GuardRef) (kind : StateKind) (origin : Expr) (t : Ty) (p : Plan)
    (s : Splitter) : Ensures p s (newStateIn context kind origin t) fun r s' => Adds r s s' := by
  unfold newStateIn
  extract_lets tail
  have htail : ∀ slot s₁, Alike s s₁ → Ensures p s₁ (tail slot) fun r s' => Adds r s s' := by
    intro slot s₁ h1
    refine Ensures.of_run rfl ⟨congrArg (Array.push · s₁.graph.states.size) h1.states, ?_, ?_,
      h1.guards, h1.rethrow⟩
    · exact Nat.lt_of_lt_of_eq (Nat.lt_succ_self _) (Array.size_push _).symm
    · refine Nat.le_trans h1.size.ge (Nat.le_trans (Nat.le_succ _) (Nat.le_of_eq ?_))
      exact (Array.size_push _).symm
  split
  · exact htail none s (.refl s)
  · refine Ensures.bind (R := fun _ s₁ => Alike s s₁) ?_ htail
    exact Ensures.map (Idle.alike p s)

/-- What one entry of a sum pays for. -/
theorem sum_modify {l : List α} {f : α → α} {h : α → Nat} {i : Nat} (hi : i < l.length)
    (hf : h (f l[i]) + 1 = h l[i]) : ((l.modify i f).map h).sum + 1 = (l.map h).sum := by
  induction l generalizing i with
  | nil => simp at hi
  | cons x xs ih =>
    cases i with
    | zero =>
      simp only [List.getElem_cons_zero] at hf
      simp only [List.modify_zero_cons, List.map_cons, List.sum_cons]
      omega
    | succ i =>
      simp only [List.getElem_cons_succ] at hf
      have := ih (Nat.lt_of_succ_lt_succ hi) hf
      simp only [List.modify_succ_cons, List.map_cons, List.sum_cons]
      omega

/-- A state that was made is paid for by a region. -/
theorem Adds.modifyGuard {r : StateRef} {s s' : Splitter} {g : GuardRef} {f : Guard → Guard}
    (h : Adds r s s') (hg : g < s.graph.guards.size)
    (hf : (f (s.graph.guard g)).due + 1 = (s.graph.guard g).due) :
    Spends s { s' with graph := s'.graph.modifyGuard g f } := by
  refine ⟨?_, ?_, fun hp q hq => ?_⟩
  · show s.states.toList <+: s'.states.toList
    rw [h.states, Array.toList_push]
    exact List.prefix_append _ _
  · have hsum : ((s.graph.guards.toList.modify g f).map Guard.due).sum + 1 =
        (s.graph.guards.toList.map Guard.due).sum := by
      refine sum_modify hg ?_
      simpa [Graph.guard, Array.getD_eq_getD_getElem?, hg] using hf
    unfold Splitter.due
    simp only [Graph.modifyGuard, h.guards, h.states, h.rethrow, Array.size_push, Array.toList_modify]
    omega
  · rw [h.states] at hq
    obtain hq | rfl := Array.mem_push.mp hq
    · exact Nat.lt_of_lt_of_le (hp q hq) h.size
    · exact h.place

theorem caughtVar_some (g : Guard) (p : Plan) (s : Splitter) :
    Ensures p s (caughtVar g) fun v s' => g.caught = some v ∧ s' = s := by
  unfold caughtVar
  split
  · rename_i v hv
    exact .pure ⟨hv, rfl⟩
  · exact .throw _

instance (g : GuardRef) : Frugal (propagateState g) where
  spends p s := by
    unfold propagateState
    refine .guard ?_
    split
    · exact .pure (Alike.refl s).spends
    · rename_i hnone
      refine (newStateIn_adds _ _ _ _ p s).bind fun r s₁ h1 => (caughtVar_some _ p s₁).bind ?_
      rintro v _ ⟨hv, rfl⟩
      refine (Idle.alike p _).bind fun a s₂ h2 => (Idle.alike p s₂).bind fun x s₃ h3 => ?_
      refine (Idle.alike p s₃).bind fun _ s₄ h4 => Ensures.of_run rfl ?_
      refine (h1.alike (h2.trans (h3.trans h4))).modifyGuard (lt_of_caught hv) ?_
      simp only [Guard.due, hnone, Option.isNone_none, Option.isNone_some, Bool.toNat_true, Bool.toNat_false]
      omega

instance : Frugal rethrowState where
  spends p s := by
    unfold rethrowState
    refine .get ?_
    split
    · exact .pure (Alike.refl s).spends
    · rename_i hnone
      refine (newStateIn_adds _ _ _ _ p s).bind fun r s₁ h1 => (Idle.alike p s₁).bind fun a s₂ h2 => ?_
      refine .read ((Idle.alike p s₂).bind fun b s₃ h3 => (Idle.alike p s₃).bind fun c s₄ h4 => ?_)
      refine (Idle.alike p s₄).bind fun _ s₅ h5 => Ensures.of_run rfl ?_
      have h := h1.alike (h2.trans (h3.trans (h4.trans h5)))
      refine ⟨?_, ?_, fun hp q hq => ?_⟩
      · show s.states.toList <+: s₅.states.toList
        rw [h.states, Array.toList_push]
        exact List.prefix_append _ _
      · simp only [Splitter.due, h.guards, h.states, hnone, Array.size_push, Option.isNone_none,
          Option.isNone_some, Bool.toNat_true, Bool.toNat_false]
        omega
      · change q ∈ s₅.states at hq
        rw [h.states] at hq
        obtain hq | rfl := Array.mem_push.mp hq
        · exact Nat.lt_of_lt_of_le (hp q hq) h.size
        · exact h.place

instance (ex : Var) (context : List GuardRef) (r : Routing) : Frugal (routeGuards ex context r) := by
  induction context generalizing r with
  | nil => exact @Frugal.idle _ _ (Idle.pure (r, none))
  | cons g outer ih =>
    unfold routeGuards
    repeat' first | infer_instance | split | refine @Frugal.bind _ _ _ _ ?_ fun _ => ?_

instance (context : List GuardRef) (ex : Var) : Frugal (dispatch context ex) := by
  unfold dispatch
  dsimp only
  repeat' first | infer_instance | split | refine @Frugal.bind _ _ _ _ ?_ fun _ => ?_

/-- A region with a cleanup block is there. -/
theorem lt_of_cleanup {graph : Graph} {g : GuardRef} {r : StateRef}
    (h : (graph.guard g).cleanup = some r) : g < graph.guards.size := by
  by_contra hge
  rw [Before.guard_of_size_le (Nat.le_of_not_lt hge)] at h
  cases h

instance (context : List GuardRef) : Frugal (disposeRoute context) := by
  induction context with
  | nil =>
    unfold disposeRoute
    infer_instance
  | cons g outer ih =>
    refine ⟨fun p s => ?_⟩
    unfold disposeRoute
    refine .guard ?_
    split
    · exact ih.spends p s
    · rename_i cleanup hcleanup
      extract_lets tail
      have htail : ∀ r s₁, Ensures p s₁ (tail r) fun _ s' => Spends s₁ s' := fun r s₁ =>
        (inferInstance : Frugal (tail r)).spends p s₁
      split
      · exact htail _ s
      · rename_i hnone
        refine (newStateIn_adds _ _ _ _ p s).bind fun r s₁ h1 => ?_
        refine Ensures.bind (R := fun _ s₂ => Spends s s₂) (Ensures.of_run rfl ?_) fun _ s₂ h2 => ?_
        · refine h1.modifyGuard (lt_of_cleanup hcleanup) ?_
          simp only [Guard.due, hnone, Option.isNone_none, Option.isNone_some, Bool.toNat_true,
            Bool.toNat_false]
        · refine (ih.spends p s₂).bind fun route s₃ h3 => (Idle.alike p s₃).bind fun _ s₄ h4 => ?_
          exact (htail r s₄).mono fun _ _ h5 => h2.trans (h3.trans (h4.spends.trans h5))

instance (context : List GuardRef) : Frugal (disposeGate context) := by
  unfold disposeGate
  repeat' first | infer_instance | split | refine @Frugal.bind _ _ _ _ ?_ fun _ => ?_

instance (r : StateRef) : Frugal (caseBody r) := by
  unfold caseBody
  dsimp only
  repeat' first | infer_instance | split | refine @Frugal.bind _ _ _ _ ?_ fun _ => ?_

/-- At first there is enough for every state. -/
theorem due_le (s : Splitter) : s.due ≤ s.states.size + 2 * s.graph.guards.size + 1 := by
  have hsum : ∀ gs : List Guard, (gs.map Guard.due).sum ≤ 2 * gs.length := by
    intro gs
    induction gs with
    | nil => exact Nat.le_refl 0
    | cons g gs ih =>
      have hg : g.due ≤ 2 := Nat.add_le_add (Bool.toNat_le _) (Bool.toNat_le _)
      simp only [List.map_cons, List.sum_cons, List.length_cons]
      omega
  have := hsum s.graph.guards.toList
  have := Bool.toNat_le s.rethrow.isNone
  unfold Splitter.due
  simp only [Array.length_toList] at *
  omega

end Split

end Resumable
