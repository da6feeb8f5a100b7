import Resumable.Proofs.Assembling

/-!
# `Proofs.Retaining`: emission takes nothing back

While the cases of a machine are emitted, new states are made, and regions learn where errors and closing go
on. Nothing is taken out of the graph: the statements of a state, its transitions and its context stay, and so
do the handlers of a region and the states it goes on in. What a case is made from therefore still stands in
the graph at the end, where the checker looks for it.

**Contents**
* `State.Held`, `Guard.Held`, `Retains`: what stays.
* `Retaining`: steps that take nothing back, with an instance for every step of emission.
* `propagateState_wired`: where the error of a region is raised again.
-/

namespace Resumable

open Resumable.Expr Split Build

/-- What the state holds, the other one does. -/
structure State.Held (st st' : State) : Prop where
  stmts : ∀ x ∈ st.stmts, x ∈ st'.stmts
  context : ∀ g ∈ st.context, g ∈ st'.context
  next : ∀ n, st.next = some n → st'.next = some n
  resume : ∀ n, st.resume = some n → st'.resume = some n

/-- What the region holds, the other one does. -/
structure Guard.Held (i i' : Guard) : Prop where
  handlers : ∀ h ∈ i.handlers, h ∈ i'.handlers
  cleanup : ∀ r, i.cleanup = some r → i'.cleanup = some r
  propagate : ∀ r, i.propagate = some r → i'.propagate = some r
  disposeExit : ∀ r, i.disposeExit = some r → i'.disposeExit = some r

/-- Nothing was taken out of the graph. -/
structure Retains (s s' : Splitter) : Prop where
  states : ∀ r, (s.graph.state r).Held (s'.graph.state r)
  guards : ∀ g, (s.graph.guard g).Held (s'.graph.guard g)

theorem State.Held.refl (st : State) : st.Held st := ⟨fun _ h => h, fun _ h => h, fun _ h => h, fun _ h => h⟩

theorem State.Held.trans {a b c : State} (h : a.Held b) (h' : b.Held c) : a.Held c where
  stmts x hx := h'.stmts x (h.stmts x hx)
  context g hg := h'.context g (h.context g hg)
  next n hn := h'.next n (h.next n hn)
  resume n hn := h'.resume n (h.resume n hn)

/-- A place without a state holds nothing. -/
theorem Graph.held_of_size_le {graph : Graph} {r : StateRef} (h : graph.states.size ≤ r) (st : State) :
    (graph.state r).Held st := by
  have hnone : graph.state r = Inhabited.default := by simp [Graph.state, h]
  rw [hnone]
  exact ⟨fun x hx => absurd hx (Array.not_mem_empty x), (fun g hg => by cases hg), (fun n hn => by cases hn),
    fun n hn => by cases hn⟩

theorem Guard.Held.refl (i : Guard) : i.Held i := ⟨fun _ h => h, fun _ h => h, fun _ h => h, fun _ h => h⟩

theorem Guard.Held.trans {a b c : Guard} (h : a.Held b) (h' : b.Held c) : a.Held c where
  handlers k hk := h'.handlers k (h.handlers k hk)
  cleanup r hr := h'.cleanup r (h.cleanup r hr)
  propagate r hr := h'.propagate r (h.propagate r hr)
  disposeExit r hr := h'.disposeExit r (h.disposeExit r hr)

namespace Retains

variable {s s' s'' : Splitter} {r : StateRef} {g : GuardRef}

theorem refl (s : Splitter) : Retains s s := ⟨fun _ => .refl _, fun _ => .refl _⟩

theorem trans (h : Retains s s') (h' : Retains s' s'') : Retains s s'' :=
  ⟨fun r => (h.states r).trans (h'.states r), fun g => (h.guards g).trans (h'.guards g)⟩

/-- What stands beside the graph was changed. -/
theorem beside (h : Retains s s') (hgraph : s''.graph = s'.graph) : Retains s s'' :=
  ⟨fun r => hgraph ▸ h.states r, fun g => hgraph ▸ h.guards g⟩

/-- A state that is new may be changed in any way. -/
theorem modifyState (h : Retains s s') (hr : s.graph.states.size ≤ r) (f : State → State) :
    Retains s { s' with graph := s'.graph.modifyState r f } where
  states q := by
    show (s.graph.state q).Held ((s'.graph.modifyState r f).state q)
    rw [state_modifyState]
    split
    · rename_i hq
      exact Graph.held_of_size_le (hq.1 ▸ hr) _
    · exact h.states q
  guards := h.guards

/-- A region learns something. -/
theorem modifyGuard (h : Retains s s') {f : Guard → Guard}
    (hf : (s.graph.guard g).Held (f (s'.graph.guard g))) : Retains s { s' with graph := s'.graph.modifyGuard g f } where
  states := h.states
  guards q := by
    show (s.graph.guard q).Held ((s'.graph.modifyGuard g f).guard q)
    rw [guard_modifyGuard]
    split
    · rename_i hq
      exact hq.1 ▸ hf
    · exact h.guards q

end Retains

/-- Every run of the step takes nothing out of the graph. -/
class Retaining (x : Split α) : Prop where
  retains : ∀ p s, Ensures p s x fun _ s' => Retains s s'

namespace Retaining

variable {x y : Split α}

instance pure (a : α) : Retaining (pure a : Split α) := ⟨fun _ s => .pure (.refl s)⟩

instance throw (f : Fault) : Retaining (throw f : Split α) := ⟨fun _ _ => .throw f⟩

instance read : Retaining (read : Split Plan) := ⟨fun _ s => .of_run rfl (.refl s)⟩

instance get : Retaining (get : Split Splitter) := ⟨fun _ s => .of_run rfl (.refl s)⟩

instance bind {f : α → Split β} [hx : Retaining x] [hf : ∀ a, Retaining (f a)] : Retaining (x >>= f) where
  retains p s := (hx.retains p s).bind fun a s₁ h1 => ((hf a).retains p s₁).mono fun _ _ h2 => h1.trans h2

instance ite {c : Prop} [Decidable c] [hx : Retaining x] [hy : Retaining y] : Retaining (if c then x else y) := by
  split
  · exact hx
  · exact hy

instance foldrM {f : γ → α → Split α} {xs : List γ} {a : α} [hf : ∀ c a, Retaining (f c a)] :
    Retaining (xs.foldrM f a) := by
  induction xs with
  | nil => exact pure a
  | cons c cs ih =>
    rw [List.foldrM_cons]
    infer_instance

instance mapM {f : γ → Split α} {xs : List γ} [hf : ∀ c, Retaining (f c)] : Retaining (xs.mapM f) := by
  induction xs with
  | nil =>
    rw [List.mapM_nil]
    infer_instance
  | cons x xs ih =>
    rw [List.mapM_cons]
    infer_instance

instance build (x : Build α) : Retaining (liftM x : Split α) where
  retains p s := by
    intro a s' hrun
    change Split.build x p s = _ at hrun
    unfold Split.build at hrun
    split at hrun
    · cases hrun
      exact (Retains.refl s).beside rfl
    · cases hrun

instance state (r : StateRef) : Retaining (state r) := by unfold Split.state; infer_instance

instance guard (g : GuardRef) : Retaining (guard g) := by unfold Split.guard; infer_instance

instance modify {supply : Splitter → Supply} {reporter : Splitter → Reporter}
    {moments : Splitter → Array Moment} {states : Splitter → Array StateRef} {current : Splitter → StateRef}
    {context : Splitter → List GuardRef} {frames : Splitter → List Frame} {cleanups : Splitter → Nat}
    {caught : Splitter → Option Var} {vars : Splitter → Array Var} {rethrow : Splitter → Option StateRef}
    {labels : Splitter → List (Label × StateRef)} :
    Retaining (modify fun s => ⟨supply s, reporter s, moments s, s.graph, states s, current s, context s,
      frames s, cleanups s, caught s, vars s, rethrow s, labels s⟩ : Split Unit) :=
  ⟨fun _ s => .of_run rfl ((Retains.refl s).beside rfl)⟩

end Retaining

namespace Split

/-! ### Steps that make no state -/

instance (name : String) (t : Ty) : Retaining (newLocal name t) := by unfold newLocal; infer_instance

instance (id : Int) : Retaining (setStateId id) := by unfold setStateId; infer_instance

instance (r : StateRef) : Retaining (setState r) := by unfold setState; infer_instance

instance (r : StateRef) : Retaining (setResume r) := by unfold setResume; infer_instance

instance : Retaining continueDispatch := by unfold continueDispatch; infer_instance

instance (value : Expr) : Retaining (leaveDispatch value) := by unfold leaveDispatch; infer_instance

instance (r : StateRef) : Retaining (transition r) := by
  unfold transition
  repeat' first | infer_instance | split | refine @Retaining.bind _ _ _ _ ?_ fun _ => ?_

instance (g : Guard) : Retaining (caughtVar g) := by
  unfold caughtVar
  split <;> infer_instance

instance (err : Expr) : Retaining (failTarget err) := by
  unfold failTarget
  repeat' first | infer_instance | split | refine @Retaining.bind _ _ _ _ ?_ fun _ => ?_

instance (caught ex : Var) (c : Catch) (skip : Option Var) (r : Routing) :
    Retaining (routeHandler caught ex c skip r) := by
  unfold routeHandler
  dsimp only
  repeat' first | infer_instance | split | refine @Retaining.bind _ _ _ _ ?_ fun _ => ?_

instance (caught ex : Var) (cs : List Catch) (skip : Option Var) (r : Routing) :
    Retaining (routeHandlers caught ex cs skip r) := by
  induction cs generalizing skip r with
  | nil => exact Retaining.pure r
  | cons c cs ih =>
    unfold routeHandlers
    infer_instance

instance (e : Expr) : Retaining (isSafe e) := by
  unfold isSafe
  split <;> infer_instance

instance (r : StateRef) {name : State → String} : Retaining (modifyState r fun s =>
    ⟨s.id, s.kind, s.origin, s.detail, name s, s.stmts, s.result, s.context, s.inCleanup, s.next, s.resume, s.stored,
      s.terminal, s.inlined, s.afterYield⟩) where
  retains p s := by
    refine .of_run rfl ⟨fun q => ?_, fun _ => .refl _⟩
    show (s.graph.state q).Held ((s.graph.modifyState r _).state q)
    rw [state_modifyState]
    split
    · rename_i hq
      exact hq.1 ▸ ⟨fun _ h => h, fun _ h => h, fun _ h => h, fun _ h => h⟩
    · exact .refl _

instance (r : StateRef) : Retaining (announce r) := by unfold announce; infer_instance

instance : Retaining unknownState := by
  unfold unknownState
  repeat' first | infer_instance | split | refine @Retaining.bind _ _ _ _ ?_ fun _ => ?_

/-! ### Steps that make states -/

/-- The state is new. -/
theorem newStateIn_retains (context : List GuardRef) (kind : StateKind) (origin : Expr) (t : Ty) (p : Plan)
    (s : Splitter) : Ensures p s (newStateIn context kind origin t) fun r s' =>
      s.graph.states.size ≤ r ∧ Retains s s' := by
  unfold newStateIn
  extract_lets tail
  have htail : ∀ slot s₁, s₁.graph = s.graph → Ensures p s₁ (tail slot) fun r s' =>
      s.graph.states.size ≤ r ∧ Retains s s' := by
    intro slot s₁ h1
    refine Ensures.of_run rfl ⟨h1 ▸ Nat.le_refl _, fun q => ?_, fun g => h1 ▸ .refl _⟩
    show (s.graph.state q).Held (Graph.state { s₁.graph with states := s₁.graph.states.push _ } q)
    rw [state_push, h1]
    split
    · rename_i hq
      exact Graph.held_of_size_le (Nat.le_of_eq hq.symm) _
    · exact .refl _
  split
  · exact htail none s rfl
  · refine Ensures.bind (R := fun _ s₁ => s₁.graph = s.graph) (Ensures.map ?_) htail
    intro v s₁ hrun
    cases hrun
    rfl

instance (context : List GuardRef) (kind : StateKind) (origin : Expr) (t : Ty) :
    Retaining (newStateIn context kind origin t) :=
  ⟨fun p s => (newStateIn_retains context kind origin t p s).mono fun _ _ h => h.2⟩

instance : Retaining rethrowState where
  retains p s := by
    unfold rethrowState
    refine .get ?_
    split
    · exact .pure (.refl s)
    · refine (newStateIn_retains _ _ _ _ p s).bind fun r s₁ ⟨hr, h1⟩ => ?_
      refine (Retaining.retains p s₁).bind fun a s₂ h2 => .read ?_
      refine (Retaining.retains p s₂).bind fun b s₃ h3 => (Retaining.retains p s₃).bind fun c s₄ h4 => ?_
      refine Ensures.of_run rfl ?_
      exact ((h1.trans (h2.trans (h3.trans h4))).modifyState hr _).beside rfl

instance (g : GuardRef) : Retaining (propagateState g) where
  retains p s := by
    unfold propagateState
    refine .guard ?_
    split
    · exact .pure (.refl s)
    · rename_i hnone
      refine (newStateIn_retains _ _ _ _ p s).bind fun r s₁ ⟨hr, h1⟩ => (Retaining.retains p s₁).bind ?_
      refine fun v s₂ h2 => (Retaining.retains p s₂).bind fun a s₃ h3 => (Retaining.retains p s₃).bind fun x s₄ h4 => ?_
      have h := h1.trans (h2.trans (h3.trans h4))
      refine Ensures.of_run rfl ((h.modifyState hr _).modifyGuard ?_)
      exact { h.guards g with propagate := fun q hq => by simp [hnone] at hq }

/-- The region knows where its error is raised again. -/
theorem propagateState_wired (g : GuardRef) (p : Plan) (s : Splitter) : Ensures p s (propagateState g) fun r s' =>
    (s'.graph.guard g).propagate = some r := by
  unfold propagateState
  refine .guard ?_
  split
  · exact .pure ‹_›
  · refine (newStateIn_adds _ _ _ _ p s).bind fun r s₁ h1 => (caughtVar_some _ p s₁).bind ?_
    rintro v _ ⟨hv, rfl⟩
    refine (Idle.alike p _).bind fun a s₂ h2 => (Idle.alike p s₂).bind fun x s₃ h3 => ?_
    refine (Idle.alike p s₃).bind fun _ s₄ h4 => Ensures.of_run rfl ?_
    show ((s₄.graph.modifyGuard g _).guard g).propagate = some r
    have hg : g < s₄.graph.guards.size := by
      rw [(h1.alike (h2.trans (h3.trans h4))).guards]
      exact lt_of_caught hv
    rw [guard_modifyGuard, if_pos ⟨rfl, hg⟩]

instance (ex : Var) (context : List GuardRef) (r : Routing) : Retaining (routeGuards ex context r) := by
  induction context generalizing r with
  | nil => exact Retaining.pure (r, none)
  | cons g outer ih =>
    unfold routeGuards
    repeat' first | infer_instance | split | refine @Retaining.bind _ _ _ _ ?_ fun _ => ?_

instance (context : List GuardRef) (ex : Var) : Retaining (dispatch context ex) := by
  unfold dispatch
  dsimp only
  repeat' first | infer_instance | split | refine @Retaining.bind _ _ _ _ ?_ fun _ => ?_

instance (context : List GuardRef) : Retaining (disposeRoute context) := by
  induction context with
  | nil =>
    unfold disposeRoute
    infer_instance
  | cons g outer ih =>
    refine ⟨fun p s => ?_⟩
    unfold disposeRoute
    refine .guard ?_
    split
    · exact ih.retains p s
    · extract_lets tail
      have htail : ∀ r s₁, Ensures p s₁ (tail r) fun _ s' => Retains s₁ s' := fun r s₁ =>
        (inferInstance : Retaining (tail r)).retains p s₁
      split
      · exact htail _ s
      · rename_i hnone
        refine (newStateIn_retains _ _ _ _ p s).bind fun r s₁ ⟨hr, h1⟩ => ?_
        refine Ensures.bind (R := fun _ s₂ => Retains s s₂) (Ensures.of_run rfl ?_) fun _ s₂ h2 => ?_
        · refine h1.modifyGuard { h1.guards g with disposeExit := fun q hq => by simp [hnone] at hq }
        · refine (ih.retains p s₂).bind fun route s₃ h3 => ?_
          refine Ensures.bind (R := fun _ s₄ => Retains s s₄) (Ensures.of_run rfl ?_) fun _ s₄ h4 => ?_
          · exact (h2.trans h3).modifyState hr _
          · exact (htail r s₄).mono fun _ _ h5 => h4.trans h5

instance (context : List GuardRef) : Retaining (disposeGate context) := by
  unfold disposeGate
  repeat' first | infer_instance | split | refine @Retaining.bind _ _ _ _ ?_ fun _ => ?_

instance (r : StateRef) : Retaining (caseBody r) := by
  unfold caseBody
  dsimp only
  repeat' first | infer_instance | split | refine @Retaining.bind _ _ _ _ ?_ fun _ => ?_

instance (fuel i : Nat) : Retaining (emitCases fuel i) := by
  induction fuel generalizing i with
  | zero => exact Retaining.pure []
  | succ fuel ih =>
    unfold emitCases
    repeat' first | infer_instance | split | refine @Retaining.bind _ _ _ _ ?_ fun _ => ?_

/-! ### What stands around the cases -/

instance (backend : Backend) (cell continuation : Var) (loop : Expr) :
    Retaining (assembleAsync backend cell continuation loop) := by
  unfold assembleAsync
  repeat' first | infer_instance | dsimp only | refine @Retaining.bind _ _ _ _ ?_ fun _ => ?_

instance (shape : Ty) (params : List Var) (dispose current : Var) (loop : Expr) :
    Retaining (assembleIterator shape params dispose current loop) := by
  unfold assembleIterator
  repeat' first | infer_instance | split | dsimp only | refine @Retaining.bind _ _ _ _ ?_ fun _ => ?_

instance (loop : Expr) : Retaining (assemble loop) := by
  unfold assemble
  repeat' first | infer_instance | split | refine @Retaining.bind _ _ _ _ ?_ fun _ => ?_

end Split

end Resumable
