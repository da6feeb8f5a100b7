import Resumable.Lower.Basic
import Resumable.Proofs.Supplies

/-!
# `Proofs.Reports`: reports are never withdrawn

Whatever a tree looks like, lowering it only adds to what was reported: a usage error that was met
anywhere is still known at the end. Splitting reports nothing else, so when none is known at the end it
has left the reporter as it was.

**Contents**
* `Forward`, `Keeps`: computations that only add to what was reported.
* An instance for every way of putting computations together, and for every step of splitting, emission
  and lowering.
* `Calmly`: what holds of a computation when no usage error is known afterwards.
-/

namespace Resumable

/-- States that go forward: what an earlier one has settled, a later one keeps. -/
class Forward (σ : Type) where
  later : σ → σ → Prop
  refl : ∀ s, later s s
  trans : ∀ {s s' s''}, later s s' → later s' s'' → later s s''

/-- Every state of the loop has its number. -/
def Splitter.Numbered (s : Splitter) : Prop :=
  ∀ (i : Nat) (r : StateRef), s.states[i]? = some r → r < s.graph.states.size ∧ (s.graph.state r).id = i

/-- The splitter later on, as far as numbers are concerned: none is given back, states keep theirs, and
regions keep the variables that their cleanup blocks park the resume slot in. -/
structure Split.Before (s s' : Splitter) : Prop where
  supply : s.supply.Below s'.supply
  registered : ∀ r ∈ s.states, r ∈ s'.states
  states : s.graph.states.size ≤ s'.graph.states.size
  state : ∀ r < s.graph.states.size, (s'.graph.state r).id = (s.graph.state r).id ∧
    (s'.graph.state r).kind = (s.graph.state r).kind
  guards : s.graph.guards.size ≤ s'.graph.guards.size
  guard : ∀ g < s.graph.guards.size, (s'.graph.guard g).parked = (s.graph.guard g).parked
  /-- A region that is new has a new variable. -/
  parked : ∀ g, s.graph.guards.size ≤ g → ∀ v, (s'.graph.guard g).parked = some v →
    s.supply.names < v.id
  numbered : s.Numbered → s'.Numbered

namespace Split.Before

variable {s s' s'' : Splitter}

theorem guard_of_size_le {graph : Graph} {g : GuardRef} (h : graph.guards.size ≤ g) :
    graph.guard g = default := by
  simp [Graph.guard, h]

/-- Only the supply, the context and what else stands beside the graph were changed. -/
theorem beside (hgraph : s'.graph = s.graph) (hstates : s'.states = s.states)
    (hsupply : s.supply.Below s'.supply) : Before s s' where
  supply := hsupply
  registered r hr := hstates ▸ hr
  states := by rw [hgraph]
  state r _ := by rw [hgraph]; exact ⟨rfl, rfl⟩
  guards := by rw [hgraph]
  guard g _ := by rw [hgraph]
  parked g hg v hv := by
    rw [hgraph, guard_of_size_le hg] at hv
    cases hv
  numbered h := by
    unfold Splitter.Numbered
    rw [hgraph, hstates]
    exact h

theorem refl (s : Splitter) : Before s s := beside rfl rfl (.refl _)

/-- What was before stays before. -/
theorem trans (h : Before s s') (h' : Before s' s'') : Before s s'' where
  supply := h.supply.trans h'.supply
  registered r hr := h'.registered r (h.registered r hr)
  states := Nat.le_trans h.states h'.states
  state r hr := by
    obtain ⟨hid, hkind⟩ := h'.state r (Nat.lt_of_lt_of_le hr h.states)
    exact ⟨hid.trans (h.state r hr).1, hkind.trans (h.state r hr).2⟩
  guards := Nat.le_trans h.guards h'.guards
  guard g hg := (h'.guard g (Nat.lt_of_lt_of_le hg h.guards)).trans (h.guard g hg)
  parked g hg v hv := by
    by_cases hlt : g < s'.graph.guards.size
    · rw [h'.guard g hlt] at hv
      exact h.parked g hg v hv
    · exact Nat.lt_of_le_of_lt h.supply.names (h'.parked g (Nat.le_of_not_lt hlt) v hv)
  numbered hs := h'.numbered (h.numbered hs)

/-- A state is changed, but for its number and its kind. -/
theorem modifyState (r : StateRef) {f : State → State} (hf : ∀ st, (f st).id = st.id ∧ (f st).kind = st.kind) :
    Before s { s with graph := s.graph.modifyState r f } where
  supply := .refl _
  registered _ hr := hr
  states := by simp [Graph.modifyState]
  state q _ := by
    show ((s.graph.modifyState r f).state q).id = _ ∧ ((s.graph.modifyState r f).state q).kind = _
    rw [state_modifyState]
    split
    · rename_i hq
      rw [hq.1]
      exact hf _
    · exact ⟨rfl, rfl⟩
  guards := Nat.le_refl _
  guard _ _ := rfl
  parked g hg v hv := by
    rw [show ({ s with graph := s.graph.modifyState r f } : Splitter).graph.guard g = s.graph.guard g from rfl,
      guard_of_size_le hg] at hv
    cases hv
  numbered h i q hi := by
    obtain ⟨hlt, hid⟩ := h i q hi
    refine ⟨by simpa [Graph.modifyState] using hlt, ?_⟩
    show ((s.graph.modifyState r f).state q).id = i
    rw [state_modifyState]
    split
    · rename_i hq
      rw [(hf _).1, ← hq.1]
      exact hid
    · exact hid

/-- A region is changed, but for the variable of its cleanup block. -/
theorem modifyGuard (g : GuardRef) {f : Guard → Guard} (hf : ∀ i, (f i).parked = i.parked) :
    Before s { s with graph := s.graph.modifyGuard g f } := by
  have hparked : ∀ q, ((s.graph.modifyGuard g f).guard q).parked = (s.graph.guard q).parked := by
    intro q
    rw [guard_modifyGuard]
    split
    · rename_i hq
      rw [hq.1, hf]
    · rfl
  exact
    { supply := .refl _, registered := fun _ hr => hr, states := Nat.le_refl _,
      state := fun _ _ => ⟨rfl, rfl⟩, guards := by simp [Graph.modifyGuard],
      guard := fun q _ => hparked q
      parked := fun q hq v hv => by
        rw [show ({ s with graph := s.graph.modifyGuard g f } : Splitter).graph =
          s.graph.modifyGuard g f from rfl, hparked, guard_of_size_le hq] at hv
        cases hv
      numbered := id }

/-- A new state at the end of the graph. -/
theorem addState (st : State) :
    Before s { s with graph := { s.graph with states := s.graph.states.push st } } where
  supply := .refl _
  registered _ hr := hr
  states := by simp
  state q hq := by
    show (Graph.state { s.graph with states := s.graph.states.push st } q).id = _ ∧
      (Graph.state { s.graph with states := s.graph.states.push st } q).kind = _
    rw [state_push, if_neg (Nat.ne_of_lt hq)]
    exact ⟨rfl, rfl⟩
  guards := Nat.le_refl _
  guard _ _ := rfl
  parked g hg v hv := by
    have hnone : (s.graph.guard g).parked = some v := hv
    rw [guard_of_size_le hg] at hnone
    cases hnone
  numbered h i q hi := by
    obtain ⟨hlt, hid⟩ := h i q hi
    refine ⟨?_, ?_⟩
    · show q < (s.graph.states.push st).size
      rw [Array.size_push]
      exact Nat.lt_succ_of_lt hlt
    · show (Graph.state { s.graph with states := s.graph.states.push st } q).id = i
      rw [state_push, if_neg (Nat.ne_of_lt hlt)]
      exact hid

/-- A state joins the loop with the next number. -/
theorem register {st : State} (hst : st.id = s.states.size) :
    Before s { s with graph := { s.graph with states := s.graph.states.push st }
                      states := s.states.push s.graph.states.size } :=
  { addState (s := s) st with
    registered := fun _ hq => Array.mem_push.mpr (Or.inl hq)
    numbered := fun h i q hi => by
      change (s.states.push s.graph.states.size)[i]? = some q at hi
      rw [Array.getElem?_push] at hi
      split at hi
      · rename_i heq
        cases hi
        refine ⟨by simp, ?_⟩
        show (Graph.state { s.graph with states := s.graph.states.push st } _).id = _
        rw [state_push, if_pos rfl, hst, heq]
      · exact (addState (s := s) st).numbered h i q hi }

/-- A region is added whose variable is new. -/
theorem addGuard (h : Before s s') {i : Guard} (hi : ∀ v, i.parked = some v → s.supply.names < v.id) :
    Before s { s' with graph := { s'.graph with guards := s'.graph.guards.push i } } where
  supply := h.supply
  registered := h.registered
  states := h.states
  state := h.state
  guards := by
    show _ ≤ (s'.graph.guards.push i).size
    rw [Array.size_push]
    exact Nat.le_succ_of_le h.guards
  guard q hq := by
    show (Graph.guard { s'.graph with guards := s'.graph.guards.push i } q).parked = _
    rw [guard_push, if_neg (Nat.ne_of_lt (Nat.lt_of_lt_of_le hq h.guards))]
    exact h.guard q hq
  parked q hq v hv := by
    change (Graph.guard { s'.graph with guards := s'.graph.guards.push i } q).parked = some v at hv
    rw [guard_push] at hv
    split at hv
    · exact hi v hv
    · exact h.parked q hq v hv
  numbered := h.numbered

end Split.Before

/-- Splitting adds usage errors to what was reported, and hands out numbers in order. -/
instance : Forward Splitter where
  later s s' := (s.reporter.seen ⊆ s'.reporter.seen ∧
    (Quiet s'.reporter.seen → s'.reporter = s.reporter)) ∧ Split.Before s s'
  refl s := ⟨⟨fun _ h => h, fun _ => rfl⟩, .refl s⟩
  trans h h' :=
    ⟨⟨fun _ hf => h'.1.1 (h.1.1 hf), fun hq => (h'.1.2 hq).trans (h.1.2 (hq.mono h'.1.1))⟩,
      h.2.trans h'.2⟩

/-- Lowering adds usage errors and findings to what was reported, and hands out numbers in order. -/
instance : Forward Lowering where
  later s s' := s.reporter.seen ⊆ s'.reporter.seen ∧ s.supply.Below s'.supply
  refl _ := ⟨fun _ h => h, .refl _⟩
  trans h h' := ⟨fun _ hf => h'.1 (h.1 hf), h.2.trans h'.2⟩

/-- The computation goes forward. -/
class Keeps {ρ σ : Type} [Forward σ] (x : ReaderT ρ (EStateM Fault σ) α) : Prop where
  later : ∀ p s, Ensures p s x fun _ s' => Forward.later s s'

namespace Keeps

section
variable {ρ σ : Type} [Forward σ]

/-- A computation that changes nothing. -/
theorem of_same {x : ReaderT ρ (EStateM Fault σ) α} (h : ∀ p s, ∃ a, x p s = .ok a s) : Keeps x where
  later p s := by
    obtain ⟨a, ha⟩ := h p s
    exact Ensures.of_run ha (Forward.refl s)

instance pure (a : α) : Keeps (pure a : ReaderT ρ (EStateM Fault σ) α) :=
  of_same fun _ _ => ⟨a, rfl⟩

instance throw (f : Fault) : Keeps (throw f : ReaderT ρ (EStateM Fault σ) α) :=
  ⟨fun _ _ => Ensures.throw f⟩

instance read : Keeps (read : ReaderT ρ (EStateM Fault σ) ρ) := of_same fun p _ => ⟨p, rfl⟩

instance get : Keeps (get : ReaderT ρ (EStateM Fault σ) σ) := of_same fun _ s => ⟨s, rfl⟩

variable {x y : ReaderT ρ (EStateM Fault σ) α}

instance bind {f : α → ReaderT ρ (EStateM Fault σ) β} [hx : Keeps x] [hf : ∀ a, Keeps (f a)] :
    Keeps (x >>= f) where
  later p s := (hx.later p s).bind fun a s₁ h1 =>
    ((hf a).later p s₁).mono fun _ _ h2 => Forward.trans h1 h2

instance map {f : α → β} [hx : Keeps x] : Keeps (f <$> x) where
  later p s := by
    refine Ensures.map ?_
    exact hx.later p s

instance ite {c : Prop} [Decidable c] [hx : Keeps x] [hy : Keeps y] :
    Keeps (if c then x else y) := by
  split
  · exact hx
  · exact hy

theorem mapM_of_mem {f : γ → ReaderT ρ (EStateM Fault σ) α} {xs : List γ} (hf : ∀ c ∈ xs, Keeps (f c)) :
    Keeps (xs.mapM f) := by
  induction xs with
  | nil =>
    rw [List.mapM_nil]
    infer_instance
  | cons c cs ih =>
    rw [List.mapM_cons]
    have := hf c List.mem_cons_self
    have := ih fun c hc => hf c (List.mem_cons_of_mem _ hc)
    infer_instance

instance mapM {f : γ → ReaderT ρ (EStateM Fault σ) α} {xs : List γ} [hf : ∀ c, Keeps (f c)] : Keeps (xs.mapM f) :=
  mapM_of_mem fun c _ => hf c

instance optionMapM {f : γ → ReaderT ρ (EStateM Fault σ) α} {x : Option γ}
    [hf : ∀ c, Keeps (f c)] : Keeps (x.mapM f) := by
  cases x with
  | none => exact pure none
  | some c => exact map

instance foldrM {f : γ → α → ReaderT ρ (EStateM Fault σ) α} {xs : List γ} {a : α}
    [hf : ∀ c a, Keeps (f c a)] : Keeps (xs.foldrM f a) := by
  induction xs with
  | nil => exact pure a
  | cons c cs ih =>
    rw [List.foldrM_cons]
    infer_instance

instance forIn {f : γ → β → ReaderT ρ (EStateM Fault σ) (ForInStep β)} {xs : List γ} {b : β}
    [hf : ∀ c b, Keeps (f c b)] : Keeps (forIn xs b f) := by
  induction xs generalizing b with
  | nil =>
    rw [List.forIn_nil]
    infer_instance
  | cons c cs ih =>
    rw [List.forIn_cons]
    refine @bind _ _ _ _ _ _ _ _ fun step => ?_
    split <;> infer_instance

/-! The same two rules with their parts as arguments, for steps that a search for instances cannot take
apart. -/

theorem seq {f : α → ReaderT ρ (EStateM Fault σ) β} (hx : Keeps x) (hf : ∀ a, Keeps (f a)) :
    Keeps (x >>= f) := bind

theorem loop {f : γ → β → ReaderT ρ (EStateM Fault σ) (ForInStep β)} {xs : List γ} {b : β}
    (hf : ∀ c b, Keeps (f c b)) : Keeps (ForIn.forIn xs b f) := forIn

end

instance build {x : Build α} [hb : Onward x] : Keeps (liftM x : Split α) where
  later p s := by
    intro a s' hrun
    change Split.build x p s = _ at hrun
    unfold Split.build at hrun
    split at hrun
    · rename_i hx
      cases hrun
      exact ⟨⟨fun _ h => h, fun _ => rfl⟩, .beside rfl rfl (hb.below _ _ _ hx)⟩
    · cases hrun

/-- A change that leaves the reports, the states and the regions alone. -/
instance modify {moments : Splitter → Array Moment} {current : Splitter → StateRef}
    {context : Splitter → List GuardRef} {frames : Splitter → List Frame} {cleanups : Splitter → Nat}
    {caught : Splitter → Option Var} {vars : Splitter → Array Var}
    {rethrow : Splitter → Option StateRef} {labels : Splitter → List (Label × StateRef)} :
    Keeps (modify fun s => ⟨s.supply, s.reporter, moments s, s.graph, s.states, current s, context s,
      frames s, cleanups s, caught s, vars s, rethrow s, labels s⟩ : Split Unit) :=
  ⟨fun _ _ => Ensures.of_run rfl ⟨⟨fun _ h => h, fun _ => rfl⟩, .beside rfl rfl (.refl _)⟩⟩

end Keeps

/-! ### Usage errors -/

/-- The causes of usage errors. -/
class Usage (code : Code) : Prop where
  lt : code.number < 2000

instance : Usage .notAwaitable := ⟨by decide⟩
instance : Usage .awaitInFilter := ⟨by decide⟩
instance : Usage .suspendInPlain := ⟨by decide⟩
instance : Usage .yieldInAsync := ⟨by decide⟩
instance : Usage .awaitInIterator := ⟨by decide⟩
instance : Usage .jumpIntoTry := ⟨by decide⟩
instance : Usage .jumpOutOfFinally := ⟨by decide⟩
instance : Usage .yieldInFinally := ⟨by decide⟩
instance : Usage .undefinedLabel := ⟨by decide⟩
instance : Usage .noBackend := ⟨by decide⟩
instance : Usage .badIteratorShape := ⟨by decide⟩
instance : Usage .notLambda := ⟨by decide⟩

theorem not_quiet_report (r : Reporter) (code : Code) [h : Usage code] (loc : Location) (msg : String)
    (notes : List Note) : ¬ Quiet (r.report ⟨.error, code, loc, msg, notes⟩).seen := by
  intro hq
  have := hq _ (r.mem_seen_report _)
  simp [Fingerprint.isUsageError, Diagnostic.fingerprint, h.lt] at this

namespace Split

/-! ### The steps of splitting -/

instance (code : Code) [Usage code] (e : Expr) (msg : String) : Keeps (report code e msg) where
  later p s := by
    refine Ensures.of_run rfl ⟨⟨Reporter.seen_subset_report _ _, fun hq => ?_⟩, .beside rfl rfl (.refl _)⟩
    exact absurd hq (not_quiet_report _ _ _ _ _)

instance (e : Expr) : Keeps (needs e) := .of_same fun p s => ⟨_, needs_run e p s⟩

instance (xs : List Expr) : Keeps (xs.anyM needs) := .of_same fun p s => ⟨_, anyM_needs_run xs p s⟩

instance (r : StateRef) : Keeps (state r) := by unfold state; infer_instance

instance (g : GuardRef) : Keeps (guard g) := by unfold guard; infer_instance

instance : Keeps current := by unfold current; infer_instance

instance (r : StateRef) {origin : State → Nat} {detail name : State → String}
    {stmts : State → Array Expr} {result : State → Option Var} {context : State → List GuardRef}
    {inCleanup : State → Bool} {next resume : State → Option StateRef}
    {stored terminal inlined afterYield : State → Bool} :
    Keeps (modifyState r fun s => ⟨s.id, s.kind, origin s, detail s, name s, stmts s, result s, context s,
      inCleanup s, next s, resume s, stored s, terminal s, inlined s, afterYield s⟩) :=
  ⟨fun _ _ => Ensures.of_run rfl ⟨⟨fun _ h => h, fun _ => rfl⟩, .modifyState r fun _ => ⟨rfl, rfl⟩⟩⟩

instance (g : GuardRef) {handlers : Guard → List Catch}
    {cleanup propagate exit disposeExit : Guard → Option StateRef} {caught : Guard → Option Var}
    {outer : Guard → List GuardRef} :
    Keeps (modifyGuard g fun i => ⟨handlers i, cleanup i, propagate i, exit i, caught i, i.parked, outer i,
      disposeExit i⟩) :=
  ⟨fun _ _ => Ensures.of_run rfl ⟨⟨fun _ h => h, fun _ => rfl⟩, .modifyGuard g fun _ => rfl⟩⟩

instance (st : State) : Keeps (addState st) :=
  ⟨fun _ _ => Ensures.of_run rfl ⟨⟨fun _ h => h, fun _ => rfl⟩, .addState st⟩⟩

/-- A region without a cleanup block. -/
instance {handlers : List Catch} {cleanup propagate exit disposeExit : Option StateRef}
    {caught : Option Var} {outer : List GuardRef} :
    Keeps (addGuard ⟨handlers, cleanup, propagate, exit, caught, none, outer, disposeExit⟩) :=
  ⟨fun _ _ => Ensures.of_run rfl ⟨⟨fun _ h => h, fun _ => rfl⟩,
    .addGuard (.refl _) fun _ h => by cases h⟩⟩

instance (r : StateRef) : Keeps (goOnIn r) := by unfold goOnIn; infer_instance

instance (name : String) (t : Ty) : Keeps (newLocal name t) := by unfold newLocal; infer_instance

/-- A state that is added joins the loop with the next number. -/
theorem keeps_register {st : Splitter → State} (hst : ∀ s, (st s).id = s.states.size) : Keeps (do
    let s ← get
    let r ← addState (st s)
    modify fun s => { s with states := s.states.push r }
    return r) :=
  ⟨fun _ s => Ensures.of_run rfl ⟨⟨fun _ h => h, fun _ => rfl⟩, .register (hst s)⟩⟩

instance (context : List GuardRef) (kind : StateKind) (origin : Expr) (t : Ty) :
    Keeps (newStateIn context kind origin t) := by
  unfold newStateIn
  have (slot : Option Var) : Keeps (do
      let s ← get
      let r ← addState { id := s.states.size, kind, origin := origin.id, result := slot, context,
                         inCleanup := s.cleanups > 0 }
      modify fun s => { s with states := s.states.push r }
      return r) := keeps_register fun _ => rfl
  infer_instance

instance (kind : StateKind) (origin : Expr) (t : Ty) :
    Keeps (newState kind origin t) := by unfold newState; infer_instance

instance : Keeps (newInlined) := by unfold newInlined; infer_instance

instance : Keeps (newDead) := by unfold newDead; infer_instance

instance (r next : StateRef) : Keeps (setNext r next) where
  later p s := by
    intro _ s' hrun
    obtain ⟨-, rfl⟩ := setNext_run hrun
    exact ⟨⟨fun _ h => h, fun _ => rfl⟩, .modifyState r fun _ => ⟨rfl, rfl⟩⟩

instance (next : StateRef) : Keeps (closeWith next) := by unfold closeWith; infer_instance

instance : Keeps (setTerminal) := by unfold setTerminal; infer_instance

instance : Keeps (endWithJump) := by unfold endWithJump; infer_instance

instance (x : Expr) : Keeps (emit x) := by unfold emit; infer_instance

instance (id : Int) : Keeps (setStateId id) := by unfold setStateId; infer_instance

instance (r : StateRef) : Keeps (setState r) := by unfold setState; infer_instance

instance (r : StateRef) : Keeps (setResume r) := by unfold setResume; infer_instance

instance : Keeps (continueDispatch) := by unfold continueDispatch; infer_instance

instance (value : Expr) : Keeps (leaveDispatch value) := by unfold leaveDispatch; infer_instance

instance (r : StateRef) : Keeps (transition r) := by
  unfold transition
  repeat' first | infer_instance | split | refine .seq ?_ fun _ => ?_

instance (r : StateRef) : Keeps (inlineState r) := by unfold inlineState; infer_instance

instance (r : StateRef) (v : Expr) : Keeps (assignResult r v) := by
  unfold assignResult
  repeat' first | infer_instance | split | refine .seq ?_ fun _ => ?_

instance (r : StateRef) (t : Ty) : Keeps (resultRef r t) := by
  unfold resultRef
  repeat' first | infer_instance | split | refine .seq ?_ fun _ => ?_

instance (x : Expr) : Keeps (spill x) := by unfold spill; infer_instance

instance (stmt : Expr) (next : StateRef) :
    Keeps (splitAt stmt next) := by unfold splitAt; infer_instance

instance (e : Expr) : Keeps (passThrough e) := by
  unfold passThrough
  repeat' first | infer_instance | split | refine .seq ?_ fun _ => ?_

/-! ### Visits -/

section
variable {visit : Expr → Split Expr} [∀ e, Keeps (visit e)]

instance (xs : List Expr) : Keeps (visitOperands visit xs) := by
  induction xs with
  | nil => exact Keeps.pure []
  | cons x xs ih =>
    unfold visitOperands
    infer_instance

instance (e : Expr) (vars : List Var) (xs : List Expr) : Keeps (visitBlock visit e vars xs) := by
  unfold visitBlock
  repeat' first | infer_instance | split

instance (e : Expr) (op : AssignOp) (target value : Expr) :
    Keeps (visitAssign visit e op target value) := by
  unfold visitAssign
  repeat' first | infer_instance | split | refine .seq ?_ fun _ => ?_

instance (e value : Expr) : Keeps (visitThrow visit e value) := by
  unfold visitThrow
  repeat' first | infer_instance | split | refine .seq ?_ fun _ => ?_

instance (x : Expr) (merge : StateRef) :
    Keeps (branch visit x merge) := by unfold branch; infer_instance

instance (kind : StateKind) (x : Expr) (merge : StateRef) :
    Keeps (standalone visit kind x merge) := by unfold standalone; infer_instance

instance (e test a b : Expr) :
    Keeps (visitConditional visit e test a b) := by unfold visitConditional; infer_instance

instance (e : Expr) (op : BinaryOp) (left right : Expr) :
    Keeps (visitLogical visit e op left right) := by
  unfold visitLogical
  repeat' first | infer_instance | split | refine .seq ?_ fun _ => ?_

instance (e : Expr) (op : BinaryOp) (left right : Expr) (method : Option Native) :
    Keeps (visitBinary visit e op left right method) := by
  unfold visitBinary
  repeat' first | infer_instance | split | refine .seq ?_ fun _ => ?_

instance (e value : Expr) (cases : List (List Expr × Expr)) (default : Expr)
    (comparer : Option Native) : Keeps (switchBodies visit e value cases default comparer) := by
  unfold switchBodies
  repeat' first
    | infer_instance | split | dsimp only | refine .seq ?_ fun _ => ?_
    | refine .loop fun _ _ => ?_

instance (r : StateRef) : Keeps (jumpTo r) := by unfold jumpTo; infer_instance

instance (e value : Expr) (cases : List (List Expr × Expr)) (default : Expr)
    (comparer : Option Native) : Keeps (switchTests visit e value cases default comparer) := by
  unfold switchTests
  repeat' first
    | infer_instance | split | dsimp only | refine .seq ?_ fun _ => ?_
    | refine .loop fun _ _ => ?_

instance (e value : Expr) (cases : List (List Expr × Expr)) (default : Expr)
    (comparer : Option Native) : Keeps (visitSwitch visit e value cases default comparer) := by
  unfold visitSwitch
  infer_instance

instance (l : Label) : Keeps (labelDepth? l) := by
  unfold labelDepth?
  repeat' first | infer_instance | split | refine .seq ?_ fun _ => ?_

instance (l : Label) (origin : Expr) : Keeps (labelState l origin) := by
  unfold labelState
  repeat' first | infer_instance | split | refine .seq ?_ fun _ => ?_

instance (e body : Expr) (brk cont : Option Label) : Keeps (visitLoop visit e body brk cont) := by
  unfold visitLoop
  repeat' first | infer_instance | split | refine .seq ?_ fun _ => ?_

instance (e : Expr) (l : Label) (default : Expr) :
    Keeps (visitLabel visit e l default) := by unfold visitLabel; infer_instance

instance (e : Expr) (target : StateRef) (finals : List Guard) :
    Keeps (leaveThrough e target finals) := by
  unfold leaveThrough
  refine @Keeps.foldrM _ _ _ _ _ _ _ _ fun _ _ => ?_
  repeat' first | infer_instance | split

instance (e : Expr) (l : Label) (value : Expr) : Keeps (visitGoto visit e l value) := by
  unfold visitGoto
  dsimp only
  repeat' first | infer_instance | split | refine .seq ?_ fun _ => ?_

instance (f : Frame) (context : List GuardRef) (x : Split α) [Keeps x] :
    Keeps (inFrame f context x) := by unfold inFrame; infer_instance

instance (cleanup : Option StateRef) (exit : StateRef) : Keeps (leavePart cleanup exit) := by
  unfold leavePart
  repeat' first | infer_instance | split

instance (r : StateRef) (parked : Var) (block : Expr) :
    Keeps (visitCleanup visit r parked block) := by
  unfold visitCleanup
  repeat' first | infer_instance | split | refine .seq ?_ fun _ => ?_

instance (P : Protection) : Keeps (P.leave) := by unfold Protection.leave; infer_instance

/-- The variable of a cleanup block is new. -/
instance (r exit : StateRef) (caught : Var) (outer : List GuardRef) : Keeps (do
    let parked ← newLocal "finallyResume" .int
    let g ← addGuard { cleanup := some r, exit := some exit, caught := some caught,
                       parked := some parked, outer }
    return some ⟨g, r, parked⟩ : Split (Option CleanupPart)) where
  later p s := by
    have hparked : Ensures p s (newLocal "finallyResume" .int) fun v s' =>
        Forward.later s s' ∧ s.supply.names < v.id :=
      ((inferInstance : Keeps (newLocal "finallyResume" .int)).later p s).and
        (Ensures.of_run rfl (Nat.lt_succ_self _))
    refine hparked.bind fun parked s' ⟨h, hnew⟩ => ?_
    refine Ensures.of_run rfl ⟨h.1, h.2.addGuard fun v hv => ?_⟩
    cases hv
    exact hnew

instance (exit : StateRef) (fin : Expr) : Keeps (openCleanup exit fin) := by
  unfold openCleanup
  infer_instance

instance (P : Protection) : Keeps (openHandlers P) := by unfold openHandlers; infer_instance

instance (P : Protection) (body : Expr) :
    Keeps (visitProtected visit P body) := by unfold visitProtected; infer_instance

instance (P : Protection) (g : GuardRef) (caught : Var) (h : Handler Expr) :
    Keeps (visitHandler visit P g caught h) := by
  unfold visitHandler
  repeat' first | infer_instance | split | refine .seq ?_ fun _ => ?_

instance (g : GuardRef) (caught : Var) (fault : Expr) :
    Keeps (visitFault visit g caught fault) := by
  unfold visitFault
  repeat' first | infer_instance | split | refine .seq ?_ fun _ => ?_

instance (P : Protection) (body : Expr) (handlers : List (Handler Expr)) (fault : Expr) :
    Keeps (visitHandled visit P body handlers fault) := by unfold visitHandled; infer_instance

instance (e body : Expr) (handlers : List (Handler Expr)) (fin fault : Expr) :
    Keeps (visitTry visit e body handlers fin fault) := by
  unfold visitTry
  repeat' first | infer_instance | split | refine .seq ?_ fun _ => ?_

instance (source : Expr) (configured : Option Bool) : Keeps (awaitSource? source configured) := by
  unfold awaitSource?
  repeat' first | infer_instance | split | refine .seq ?_ fun _ => ?_

instance (e operand : Expr) (configured : Option Bool) :
    Keeps (visitAwait visit e operand configured) := by
  unfold visitAwait
  repeat' first | infer_instance | split | refine .seq ?_ fun _ => ?_

instance (e value : Expr) : Keeps (visitYield visit e value) := by
  unfold visitYield
  repeat' first | infer_instance | split | refine .seq ?_ fun _ => ?_

instance (e : Expr) : Keeps (visitNode visit e) := by
  unfold visitNode
  repeat' first | infer_instance | split | refine .seq ?_ fun _ => ?_

end

instance (fuel : Nat) (e : Expr) : Keeps (visitAt fuel e) := by
  induction fuel generalizing e with
  | zero =>
    unfold visitAt
    infer_instance
  | succ fuel ih =>
    unfold visitAt
    infer_instance

instance (e : Expr) : Keeps (visit e) := by unfold visit; infer_instance

/-! ### Emission -/

instance (i : Guard) : Keeps (caughtVar i) := by
  unfold caughtVar
  repeat' first | infer_instance | split

instance (err : Expr) : Keeps (failTarget err) := by
  unfold failTarget
  repeat' first | infer_instance | split | refine .seq ?_ fun _ => ?_

instance : Keeps (rethrowState) := by
  unfold rethrowState
  repeat' first | infer_instance | split | refine .seq ?_ fun _ => ?_

instance (g : GuardRef) : Keeps (propagateState g) := by
  unfold propagateState
  repeat' first | infer_instance | split | refine .seq ?_ fun _ => ?_

instance (caught ex : Var) (c : Catch) (skip : Option Var) (r : Routing) :
    Keeps (routeHandler caught ex c skip r) := by
  unfold routeHandler
  dsimp only
  repeat' first | infer_instance | split | refine .seq ?_ fun _ => ?_

instance (caught ex : Var) (cs : List Catch) (skip : Option Var) (r : Routing) :
    Keeps (routeHandlers caught ex cs skip r) := by
  induction cs generalizing skip r with
  | nil => exact Keeps.pure r
  | cons c cs ih =>
    unfold routeHandlers
    infer_instance

instance (ex : Var) (context : List GuardRef) (r : Routing) : Keeps (routeGuards ex context r) := by
  induction context generalizing r with
  | nil => exact Keeps.pure (r, none)
  | cons g outer ih =>
    unfold routeGuards
    repeat' first | infer_instance | split | refine .seq ?_ fun _ => ?_

instance (context : List GuardRef) (ex : Var) : Keeps (dispatch context ex) := by
  unfold dispatch
  dsimp only
  repeat' first | infer_instance | split | refine .seq ?_ fun _ => ?_

instance (context : List GuardRef) : Keeps (disposeRoute context) := by
  induction context with
  | nil =>
    unfold disposeRoute
    infer_instance
  | cons g outer ih =>
    unfold disposeRoute
    repeat' first | infer_instance | split | refine .seq ?_ fun _ => ?_

instance (context : List GuardRef) : Keeps (disposeGate context) := by
  unfold disposeGate
  repeat' first | infer_instance | split | refine .seq ?_ fun _ => ?_

instance (e : Expr) : Keeps (isSafe e) := by
  unfold isSafe
  split <;> infer_instance

instance (r : StateRef) : Keeps (caseBody r) := by
  unfold caseBody
  dsimp only
  repeat' first | infer_instance | split | refine .seq ?_ fun _ => ?_

instance (r : StateRef) : Keeps (announce r) := by unfold announce; infer_instance

instance (fuel i : Nat) : Keeps (emitCases fuel i) := by
  induction fuel generalizing i with
  | zero => exact Keeps.pure []
  | succ fuel ih =>
    unfold emitCases
    repeat' first | infer_instance | split | refine .seq ?_ fun _ => ?_

instance : Keeps unknownState := by
  unfold unknownState
  repeat' first | infer_instance | split | refine .seq ?_ fun _ => ?_

instance : Keeps emitDispatch := by unfold emitDispatch; infer_instance

instance (value : Expr) : Keeps (finish value) := by
  unfold finish
  repeat' first | infer_instance | split | refine .seq ?_ fun _ => ?_

instance (backend : Backend) (cell continuation : Var) (loop : Expr) :
    Keeps (assembleAsync backend cell continuation loop) := by
  unfold assembleAsync
  repeat' first | infer_instance | split | refine .seq ?_ fun _ => ?_

instance (shape : Ty) (params : List Var) (dispose currentVar : Var) (loop : Expr) :
    Keeps (assembleIterator shape params dispose currentVar loop) := by
  unfold assembleIterator
  repeat' first | infer_instance | split | refine .seq ?_ fun _ => ?_

instance (loop : Expr) : Keeps (assemble loop) := by
  unfold assemble
  repeat' first | infer_instance | split | refine .seq ?_ fun _ => ?_

end Split

/-! ### Lowering -/

/-- A finding or an error is added to what was reported. -/
theorem Reporter.seen_subset_foldl (ds : List Diagnostic) (r : Reporter) :
    r.seen ⊆ (ds.foldl Reporter.report r).seen := by
  induction ds generalizing r with
  | nil => exact fun _ h => h
  | cons d ds ih => exact fun _ h => ih _ (r.seen_subset_report d h)

namespace Lower

instance (x : Build α) [hx : Onward x] : Keeps (liftM x : Lower α) where
  later p s := by
    intro a s' hrun
    change Lower.build x p s = _ at hrun
    unfold Lower.build at hrun
    split at hrun
    · rename_i hq
      cases hrun
      exact ⟨fun _ h => h, hx.below _ _ _ hq⟩
    · cases hrun

instance (code : Code) (loc : Location) (msg : String) : Keeps (report code loc msg) :=
  ⟨fun _ _ => Ensures.of_run rfl ⟨Reporter.seen_subset_report _ _, .refl _⟩⟩

instance : Keeps hasErrors := .of_same fun _ _ => ⟨_, rfl⟩

/-- A change that leaves the reports and the numbers alone. -/
instance {machines : Lowering → Array Machine} {phases : Lowering → Array (String × String)}
    {moments : Lowering → Array Moment} :
    Keeps (modify fun s => ⟨s.supply, s.reporter, machines s, phases s, moments s⟩ : Lower Unit) :=
  ⟨fun _ _ => Ensures.of_run rfl ⟨fun _ h => h, .refl _⟩⟩

instance (m : Machine) :
    Keeps (modify fun s => { s with reporter := m.check s.reporter } : Lower Unit) :=
  ⟨fun _ _ => Ensures.of_run rfl ⟨Reporter.seen_subset_foldl _ _, .refl _⟩⟩

instance (name note : String) : Keeps (phase name note) := by unfold phase; infer_instance

instance (plan : Plan) (b : Splitter) (x : Split α) [hx : Keeps x] : Keeps (split plan b x) where
  later p s := by
    rintro ⟨a, b'⟩ s' hrun
    unfold split at hrun
    dsimp only at hrun
    split at hrun
    · rename_i hx'
      cases hrun
      have h := hx.later _ _ _ _ hx'
      exact ⟨h.1.1, h.2.supply⟩
    · cases hrun

instance (name : String) (body : Expr) (isIterator : Bool) (target : Build Target) [Onward target] :
    Keeps (plan name body isIterator target) := by unfold plan; infer_instance

instance (body : Expr) : Keeps (splitBody body) := by unfold splitBody; infer_instance

instance (name : String) (ignore : List Var) (lowered : Expr) : Keeps (polish name ignore lowered) := by
  unfold polish
  infer_instance

instance (m : Machine) : Keeps (record m) := by unfold record; infer_instance

instance (e : Expr) (name : String) (kind : LambdaKind) (params : List Var) (body : Expr)
    (target : Build Target) [Onward target] : Keeps (machine e name kind params body target) := by
  unfold machine
  repeat' first | infer_instance | split | refine .seq ?_ fun _ => ?_

instance (e : Expr) (kind : LambdaKind) (params : List Var) (body : Expr) :
    Keeps (lambda e kind params body) := by
  unfold lambda
  repeat' first | infer_instance | split | refine .seq ?_ fun _ => ?_

theorem keeps_mapChildren (e : Expr) (f : Expr → Lower Expr) (hf : ∀ c ∈ e.children, Keeps (f c)) :
    Keeps (e.mapChildren fun c _ => f c) := by
  rw [Expr.mapChildren_eq]
  have := Keeps.mapM_of_mem hf
  repeat' first | infer_instance | split

theorem keeps_rewrite (e : Expr) (f : Expr → Lower Expr) (hf : ∀ n, Keeps (f n)) :
    Keeps (e.rewrite f) := by
  rw [Expr.rewrite]
  split
  · infer_instance
  · have : Keeps (e.mapChildren fun c _ => c.rewrite f) :=
      keeps_mapChildren e _ fun c hc => keeps_rewrite c f hf
    infer_instance
  termination_by sizeOf e
  decreasing_by exact Expr.sizeOf_lt_of_mem_children hc

instance (n : Expr) : Keeps (step n) := by
  unfold step
  split <;> infer_instance

instance (e : Expr) : Keeps (nested e) := keeps_rewrite e step inferInstance

end Lower

/-! ### Without usage errors -/

/-- What holds after every successful run of `x` from `s` when no usage error is known then. -/
def Calmly (p : LowerConfig) (s : Lowering) (x : Lower α) (Q : α → Lowering → Prop) : Prop :=
  Ensures p s x fun a s' => Quiet s'.reporter.seen → Q a s'

namespace Calmly

variable {p : LowerConfig} {s : Lowering} {x : Lower α} {Q R : α → Lowering → Prop}
  {T : β → Lowering → Prop}

theorem of_ensures (h : Ensures p s x Q) : Calmly p s x Q := h.mono fun _ _ h _ => h

theorem pure {a : α} (h : Q a s) : Calmly p s (pure a) Q := Ensures.pure fun _ => h

theorem mono (hx : Calmly p s x R) (h : ∀ a s', R a s' → Q a s') : Calmly p s x Q :=
  Ensures.mono hx fun a s' hr hq => h a s' (hr hq)

theorem read {f : LowerConfig → Lower β} (h : Calmly p s (f p) T) :
    Calmly p s (read >>= f) T := h

theorem get {f : Lowering → Lower β} (h : Calmly p s (f s) T) : Calmly p s (get >>= f) T := h

theorem modify {f : Lowering → Lowering} {k : PUnit → Lower β} (h : Calmly p (f s) (k ⟨⟩) T) :
    Calmly p s (MonadStateOf.modifyGet (fun s => (⟨⟩, f s)) >>= k) T := h

/-- A later step would not have withdrawn a usage error of an earlier one. -/
theorem bind {f : α → Lower β} (hx : Calmly p s x R) (hf : ∀ a s', R a s' → Calmly p s' (f a) T)
    [k : ∀ a, Keeps (f a)] : Calmly p s (x >>= f) T := by
  refine Ensures.bind hx fun a s₁ h1 b s₂ hrun hquiet => ?_
  have hquiet₁ : Quiet s₁.reporter.seen := hquiet.mono ((k a).later p s₁ b s₂ hrun).1
  exact hf a s₁ (h1 hquiet₁) b s₂ hrun hquiet

/-- A step that says in any case what it does. -/
theorem after {f : α → Lower β} (hx : Ensures p s x R) (hf : ∀ a s', R a s' → Calmly p s' (f a) T) :
    Calmly p s (x >>= f) T :=
  Ensures.bind hx hf

/-- After a usage error there is nothing to show. -/
theorem report (code : Code) [Usage code] (loc : Location) (msg : String) {f : Unit → Lower β}
    [k : ∀ u, Keeps (f u)] : Calmly p s (Lower.report code loc msg >>= f) T := by
  refine Ensures.bind (R := fun _ s' => ¬ Quiet s'.reporter.seen)
    (Ensures.of_run rfl (not_quiet_report _ _ _ _ _)) fun u s₁ h1 b s₂ hrun hquiet => ?_
  exact absurd (hquiet.mono ((k u).later p s₁ b s₂ hrun).1) h1

end Calmly

end Resumable
