import Resumable.Proofs.Splitting
import Resumable.Proofs.SteeringSteps

/-!
# `Proofs.SteeringCases`: splitting heeds a helm

Every case of splitting turns a tree that has nothing to do with the variables that steer into statements
that do to them what they may: the numbers of states are stored into the slots of the machine, and a cleanup
block parks one and goes on with it later. Visiting the operands is given for each case; the whole visit
follows by induction on the height.

**Contents**
* An instance for every step that the cases are put together from.
* An instance for each case, and `visit_heedful` for all of them.
-/

namespace Resumable

open Resumable.Expr Split Build

section
variable {c : Voyage} {e : Expr} {t : Ty} {v : Var} {r : StateRef} {name : String}

/-! ### States -/

instance : Heedful c (Split.state r) := by
  unfold Split.state
  exact Heedful.bind inferInstance fun _ _ => inferInstance

instance {g : GuardRef} : Heedful c (Split.guard g) := by
  unfold Split.guard
  exact Heedful.bind inferInstance fun _ _ => inferInstance

instance : Heedful c Split.current := by
  unfold Split.current
  exact Heedful.bind inferInstance fun _ _ => inferInstance

instance : Heedful c (needs e) :=
  ⟨fun s hs => .of_ensures (Ensures.of_run (needs_run e c.plan s) ⟨inferInstance, hs⟩)⟩

instance {xs : List Expr} : Heedful c (xs.anyM needs) :=
  ⟨fun s hs => .of_ensures (Ensures.of_run (anyM_needs_run xs c.plan s) ⟨inferInstance, hs⟩)⟩

instance {code : Code} {msg : String} : Heedful c (report code e msg) :=
  ⟨fun _ hs => .of_ensures (Ensures.of_run rfl ⟨inferInstance, hs.beside rfl rfl (.refl _) hs.caught hs.vars⟩)⟩

/-- A state that is changed. -/
theorem modifyState_heedful {f : State → State} (hf : ∀ st, Shaped c st → Shaped c (f st)) :
    Heedful c (modifyState r f) :=
  ⟨fun _ hs => .of_ensures (Ensures.of_run rfl ⟨inferInstance, hs.modifyState fun _ => hf _⟩)⟩

/-- A state of which nothing is changed that matters here. -/
instance {detail name : State → String} {resume : State → Option StateRef}
    {stored terminal inlined afterYield : State → Bool} :
    Heedful c (modifyState r fun s => ⟨s.id, s.kind, s.origin, detail s, name s, s.stmts, s.result, s.context,
      s.inCleanup, s.next, resume s, stored s, terminal s, inlined s, afterYield s⟩) :=
  modifyState_heedful fun _ h => { h with }

theorem modifyGuard_heedful {g : GuardRef} {f : Guard → Guard} (hf : ∀ i, Ruled c i → Ruled c (f i))
    (hp : ∀ i, (f i).parked = i.parked) : Heedful c (modifyGuard g f) :=
  ⟨fun _ hs => .of_ensures (Ensures.of_run rfl ⟨inferInstance, hs.modifyGuard (hf _) hp⟩)⟩

/-- A state without statements. -/
theorem shaped_new {st : State} (hs : st.stmts = #[]) (hn : st.next = none) (hi : c.view.Numbers st.id)
    (hk : st.kind = .rethrow → c.ending ∧ st.context = []) (hr : ∀ v, st.result = some v → ¬ c.helm.steers v.id) :
    Shaped c st where
  stmts x hx := absurd (hs ▸ hx) (Array.not_mem_empty x)
  result := hr
  number := hi
  ended h := ⟨(hk h).1, (hk h).2, hn, fun x hx => absurd (hs ▸ hx) (Array.not_mem_empty x)⟩

instance : Heedful c newInlined :=
  ⟨fun s hs => .of_ensures (Ensures.of_run rfl ⟨inferInstance, hs.addState
    (shaped_new rfl rfl (hs.states s.current).number (fun h => by cases h) fun v h => by cases h)⟩)⟩

instance : Heedful c newDead :=
  ⟨fun s hs => .of_ensures (Ensures.of_run rfl ⟨inferInstance, hs.addState
    (shaped_new rfl rfl (.inl rfl) (fun h => by cases h) fun v h => by cases h)⟩)⟩

instance : Heedful c (goOnIn r) := by unfold goOnIn; infer_instance

instance : Heedful c setTerminal := by
  unfold setTerminal
  exact Heedful.bind inferInstance fun _ _ => inferInstance

instance : Heedful c endWithJump := by
  unfold endWithJump
  repeat' first | infer_instance | refine Heedful.next ?_ (fun _ _ => ?_) fun _ => ?_

/-- The tree reads the variable. -/
def Expr.Names (v : Var) (e : Expr) : Prop := ∃ i r t, e = .node i r t (.var v)

theorem ref_erects (v : Var) : Erects c (ref v) fun a => a.Names v ∧ a.type = v.type := by
  intro q a q' heq _
  cases heq
  exact ⟨⟨_, _, _, rfl⟩, rfl⟩

theorem constInt_erects (n : Int) : Erects c (constInt n) (Watch.Number (· = n)) := by
  intro q a q' heq _
  cases heq
  exact ⟨rfl, rfl, rfl⟩

/-- Storing into a slot of the machine what may be stored there, when the helm belongs to it. -/
theorem assign_erects {target value : Expr} (hv : c.Slot v) (ht : target.Names v)
    (hown : c.view.own = true → c.helm.Sets c.licence v value) (hx : Heeds c.helm c.licence value) :
    Erects c (assign target value) (Loyal c) := by
  obtain ⟨i, r, t, rfl⟩ := ht
  intro q a q' heq _
  cases heq
  refine Loyal.of_heeds ?_ fun w hw => by cases hw
  by_cases ho : c.view.own = true
  · exact .store (hv.steers.mpr ho) hv.type (hown ho)
  · refine .node (fun w hw hs => ?_) (by simp [Data.kind]) fun k hk => ?_
    · cases hw
      exact ho (hv.steers.mp hs)
    · obtain ⟨hf, -⟩ | rfl := mem_operands_assign.mp hk
      · cases hf
      · exact hx

variable [hc : c.Sees]

/-- What is loyal may stand in a state. -/
theorem Loyal.based {x : Expr} (h : Loyal c x) (ht : ¬ c.turning) : Heeds c.helm c.base x ∧ c.Aside x :=
  ⟨h.heeds.mono ⟨fun hz => ht hz.1, fun _ _ hn => ⟨hn.1, hn.2.1, hc.numbers _ hn.2.2⟩, id⟩, h.good.2⟩

instance : Heedful c (newLocal name t) := by
  unfold newLocal
  refine Heedful.bind inferInstance fun v hv => Heedful.bind (.modifies fun s hs => ?_) fun _ _ => inferInstance
  refine hs.beside rfl rfl (.refl _) hs.caught fun w hw => ?_
  obtain hw | rfl := Array.mem_push.mp hw
  · exact hs.vars w hw
  · exact fun h => absurd h hv.free

/-- The state joins the loop: its number is one of the numbers at the end. -/
theorem newStateIn_heedful {context : List GuardRef} {kind : StateKind} {origin : Expr}
    (hk : kind = .rethrow → c.ending ∧ context = []) : Heedful c (newStateIn context kind origin t) := by
  unfold newStateIn
  extract_lets tail
  have htail : ∀ slot, Loyal c slot → Heedful c (tail slot) := by
    refine fun slot hslot => ⟨fun s hs r s' hrun hb => ?_⟩
    cases hrun
    have hnew : c.view.Numbers s.states.size → Shaped c ⟨s.states.size, kind, origin.id, "", "", #[], slot, context,
        s.cleanups > 0, none, none, false, false, false, false⟩ := fun hi => shaped_new rfl rfl hi hk hslot.good
    refine ⟨inferInstance, (hs.addState (hnew ?_)).beside rfl rfl (.refl _) hs.caught hs.vars⟩
    refine .inr (.inr ⟨_, hb.registered _ (Array.mem_push.mpr (.inr rfl)), ?_⟩)
    have hid := (hb.state s.graph.states.size ?_).1
    · exact (hid.trans (congrArg State.id (state_push_self s.graph _))).symm
    · exact Nat.lt_of_lt_of_eq (Nat.lt_succ_self _) (Array.size_push _).symm
  split
  · exact htail none inferInstance
  · refine Heedful.next (Heedful.map inferInstance fun a ha => inferInstance) htail fun _ => ?_
    exact keeps_register fun _ => rfl

/-- Kinds of states other than that where errors end. -/
class StateKind.Inner (kind : StateKind) : Prop where
  ne : kind ≠ .rethrow

instance : StateKind.Inner .entry := ⟨by decide⟩
instance : StateKind.Inner .merge := ⟨by decide⟩
instance : StateKind.Inner .arm := ⟨by decide⟩
instance : StateKind.Inner .fallback := ⟨by decide⟩
instance : StateKind.Inner .label := ⟨by decide⟩
instance : StateKind.Inner .leave := ⟨by decide⟩
instance : StateKind.Inner .tryExit := ⟨by decide⟩
instance : StateKind.Inner .cleanup := ⟨by decide⟩
instance : StateKind.Inner .body := ⟨by decide⟩
instance : StateKind.Inner .handler := ⟨by decide⟩
instance : StateKind.Inner .fault := ⟨by decide⟩
instance : StateKind.Inner .await := ⟨by decide⟩
instance : StateKind.Inner .yield := ⟨by decide⟩
instance : StateKind.Inner .propagate := ⟨by decide⟩
instance : StateKind.Inner .disposeExit := ⟨by decide⟩

instance {context : List GuardRef} {kind : StateKind} [hk : kind.Inner] {origin : Expr} :
    Heedful c (newStateIn context kind origin t) := newStateIn_heedful fun h => absurd h hk.ne

instance {kind : StateKind} [kind.Inner] {origin : Expr} : Heedful c (newState kind origin t) := by
  unfold newState
  exact Heedful.bind inferInstance fun _ _ => inferInstance

/-! ### Transitions and stores -/

/-- A number is stored into a slot of the machine. -/
theorem store_heedful {target value : Expr} {n : Int} (hv : v = c.plan.stateVar ∨ v = c.plan.resumeVar)
    (ht : target.Names v) (hx : Watch.Number (· = n) value) (hn : c.numbers n) :
    Heedful c (liftM (assign target value) : Split Expr) := by
  refine ⟨.build (assign_erects (v := v) ?_ ht (fun hown => .inl (hx.mono ?_)) hx.heeds)⟩
  · obtain rfl | rfl := hv
    · exact hc.state
    · exact hc.resume
  · rintro _ rfl
    exact ⟨hown, hv, hn⟩

theorem setStateId_heedful {n : Int} (hn : c.numbers n) : Heedful c (setStateId n) := by
  unfold setStateId
  refine .read ⟨(Heeding.build (ref_erects _)).bind fun a ha => ?_⟩
  exact (Heeding.build (constInt_erects n)).bind fun b hb => (store_heedful (.inl rfl) ha.1 hb hn).heeding

omit hc in
/-- What is known of a state that is looked up. -/
theorem Heeding.state {f : State → Split α} {P : α → Prop}
    (h : ∀ st, Loyal c st → c.view.Shows r st → Heeding c (f st) P)
    (hk : ∀ st, Keeps (f st) := by
      intros
      repeat' first
        | infer_instance | split | dsimp +zetaDelta only | refine .seq ?_ fun _ => ?_) :
    Heeding c (Split.state r >>= f) P :=
  fun s hs a s' hrun hb =>
    h _ ⟨hs.states r⟩ ((((hk _).later c.plan s a s' hrun).2.trans hb).shows r) s hs a s' hrun hb

theorem setState_heedful (hn : ∀ st, Loyal c st → c.view.Shows r st → c.numbers st.id) : Heedful c (setState r) := by
  unfold setState
  exact ⟨.state fun st hst hshow => (setStateId_heedful (hn st hst hshow)).heeding⟩

theorem setResume_heedful (hn : ∀ st, Loyal c st → c.view.Shows r st → c.numbers st.id) :
    Heedful c (setResume r) := by
  unfold setResume
  refine .read ⟨(Heeding.build (ref_erects _)).bind fun a ha => .state fun st hst hshow => ?_⟩
  refine (Heeding.build (constInt_erects st.id)).bind fun b hb => ?_
  exact (store_heedful (.inr rfl) ha.1 hb (hn st hst hshow)).heeding

instance : Heedful c continueDispatch := by
  unfold continueDispatch
  exact .read inferInstance

instance {value : Expr} [Loyal c value] : Heedful c (leaveDispatch value) := by
  unfold leaveDispatch
  exact .read inferInstance

end

/-! ### Steps of splitting -/

section
variable {c : Voyage} [hc : c.Sees] [hs : c.Splits] {e x y z : Expr} {t : Ty} {v : Var} {r next : StateRef}
  {name : String}

instance {context : State → List GuardRef} {next resume : State → Option StateRef}
    {stored terminal inlined afterYield : State → Bool} :
    Heedful c (modifyState r fun s => ⟨s.id, s.kind, s.origin, s.detail, s.name, s.stmts, s.result, context s,
      s.inCleanup, next s, resume s, stored s, terminal s, inlined s, afterYield s⟩) :=
  modifyState_heedful fun _ h => { h with ended := fun hk => absurd (h.ended hk).1 hs.begun }

instance : Heedful c (setNext r next) := by
  refine ⟨fun s h _ s' hrun _ => ?_⟩
  obtain ⟨-, rfl⟩ := setNext_run hrun
  exact ⟨inferInstance, h.modifyState fun _ h => { h with ended := fun hk => absurd (h.ended hk).1 hs.begun }⟩

instance : Heedful c (closeWith next) := by
  unfold closeWith
  repeat' first | infer_instance | split | refine Heedful.next ?_ (fun _ _ => ?_) fun _ => ?_

instance [hx : Loyal c x] : Heedful c (emit x) := by
  unfold emit
  repeat' first
    | infer_instance | split | refine .seq ?_ fun _ => ?_ | refine Heedful.next ?_ (fun _ _ => ?_) fun _ => ?_
  refine modifyState_heedful fun st h =>
    { h with
      stmts := fun y hy => ?_
      ended := fun hk => absurd (h.ended hk).1 hs.begun }
  obtain hy | rfl := Array.mem_push.mp hy
  · exact h.stmts y hy
  · exact hx.based hs.still

omit hc in
/-- Every state has one of the numbers that may be stored. -/
theorem Loyal.number {st : State} (h : Loyal c st) : c.numbers st.id := by
  rw [hs.numbers]
  exact h.good.number

instance : Heedful c (setState r) := setState_heedful fun _ h _ => h.number

instance : Heedful c (setResume r) := setResume_heedful fun _ h _ => h.number

instance {st : State} [h : Loyal c st] : Loyal c st.stmts.toList := by
  refine ⟨fun x hx => ?_⟩
  obtain ⟨hheeds, haside⟩ := h.good.stmts x (Array.mem_toList_iff.mp hx)
  rw [Voyage.base, ← hs.numbers] at hheeds
  exact ⟨hheeds.mono ⟨False.elim, fun _ _ => id, id⟩, haside⟩

instance : Heedful c (transition r) := by
  unfold transition
  repeat' first | infer_instance | split | refine Heedful.next ?_ (fun _ _ => ?_) fun _ => ?_

instance : Heedful c (inlineState r) := by
  unfold inlineState
  repeat' first | infer_instance | split | refine Heedful.next ?_ (fun _ _ => ?_) fun _ => ?_

instance [Loyal c x] : Heedful c (assignResult r x) := by
  unfold assignResult
  refine Heedful.next inferInstance (fun st hst => ?_) fun _ => by split <;> infer_instance
  split
  · rename_i slot hslot
    have : Loyal c slot := ⟨hst.good.result slot hslot⟩
    repeat' first
      | infer_instance | split | refine .seq ?_ fun _ => ?_ | refine Heedful.next ?_ (fun _ _ => ?_) fun _ => ?_
  · infer_instance

instance : Heedful c (resultRef r t) := by
  unfold resultRef
  refine Heedful.next inferInstance (fun st hst => ?_) fun _ => by split <;> infer_instance
  split
  · rename_i slot hslot
    have : Loyal c slot := ⟨hst.good.result slot hslot⟩
    infer_instance
  · infer_instance

instance [Loyal c x] : Heedful c (spill x) := by
  unfold spill
  repeat' first | infer_instance | split | refine Heedful.next ?_ (fun _ _ => ?_) fun _ => ?_

instance [Loyal c x] : Heedful c (splitAt x next) := by
  unfold splitAt
  repeat' first | infer_instance | refine Heedful.next ?_ (fun _ _ => ?_) fun _ => ?_

instance [ho : Outer c e] : Heedful c (passThrough e) := by
  unfold passThrough
  refine Heedful.next inferInstance (fun s h => ?_) fun _ => by split <;> infer_instance
  split
  · infer_instance
  · rename_i v hv
    have : Loyal c v := ⟨h.good.caught v hv⟩
    have := bindRethrow_built (v := v) ho
    infer_instance

end

/-! ### Operators and blocks -/

theorem Outer.operand {c : Voyage} {i r : Nat} {t : Ty} {d : Data Expr} (h : Outer c (.node i r t d))
    (hd : d.kind ≠ .lambda) {x : Expr} (hx : x ∈ operands d) : Outer c x := ⟨(h.heeds.parts hd).2 x hx⟩

/-- Visiting a tree that has nothing to do with the variables gives what is loyal. -/
class VisitsLoyally (c : Voyage) (visit : Expr → Split Expr) : Prop where
  heedful : ∀ e, Outer c e → Heedful c (visit e)

instance {c : Voyage} {visit : Expr → Split Expr} [h : VisitsLoyally c visit] {e : Expr} [he : Outer c e] :
    Heedful c (visit e) := h.heedful e he

section
variable {c : Voyage} [hc : c.Sees] [hs : c.Splits] {visit : Expr → Split Expr} [hk : ∀ e, Keeps (visit e)]
  [hv : VisitsLoyally c visit] {e x y : Expr} {i r : Nat} {t : Ty} {v : Var} {merge : StateRef}

theorem visitOperands_heedful {xs : List Expr} (hxs : ∀ x ∈ xs, Outer c x) : Heedful c (visitOperands visit xs) := by
  induction xs with
  | nil => exact .pure
  | cons x xs ih =>
    have := hxs x List.mem_cons_self
    have := ih fun y hy => hxs y (List.mem_cons_of_mem _ hy)
    unfold visitOperands
    repeat' first | infer_instance | split | dsimp only | refine Heedful.next ?_ (fun _ _ => ?_) fun _ => ?_

/-- A case after visiting the operands of its node. -/
theorem visitBlock_heedful {vars : List Var} {xs : List Expr} (h : Outer c (.node i r t (.block vars xs))) :
    Heedful c (visitBlock visit (.node i r t (.block vars xs)) vars xs) := by
  have hops := fun x hx => h.operand (x := x) (by simp [Data.kind]) hx
  unfold visitBlock
  refine Heedful.next (.modifies fun s hs => ?_) (fun _ _ => ?_) fun _ => by split <;> infer_instance
  · refine hs.beside rfl rfl (.refl _) hs.caught fun w hw => ?_
    obtain hw | hw := Array.mem_append.mp hw
    · exact hs.vars w hw
    · exact (h.heeds.parts (by simp [Data.kind])).1 w (List.mem_toArray.mp hw)
  · cases hlast : xs.getLast? with
    | none => infer_instance
    | some last =>
      have := hops last (List.mem_of_getLast? hlast)
      refine Heedful.bind (.forIn inferInstance (fun x hx b _ => ?_) inferInstance) fun _ _ => ?_
      · have := hops x (List.dropLast_subset _ hx)
        repeat' first
          | infer_instance | split | refine .seq ?_ fun _ => ?_ | refine Heedful.next ?_ (fun _ _ => ?_) fun _ => ?_
      · repeat' first
          | infer_instance | split | refine .seq ?_ fun _ => ?_ | refine Heedful.next ?_ (fun _ _ => ?_) fun _ => ?_

omit hc hs in
/-- Only variables and fields are stored into. -/
theorem Outer.target {op : AssignOp} {target value : Expr} (h : Outer c (.node i r t (.assign op target value)))
    (ht : target.hasKind .variable = true ∨ target.hasKind .field = true) : Outer c target := by
  obtain ⟨hvar, hops⟩ := h.heeds.parts (by simp [Data.kind])
  obtain hk | hk := ht
  · cases target with
    | absent => cases hk
    | node ti tr tt td =>
      cases td with
      | var w => exact ⟨.node (fun hs => absurd hs (hvar w rfl)) (by simp [Data.kind]) (by simp [operands])⟩
      | _ => cases hk
  · exact ⟨hops target (mem_operands_assign.mpr (.inl ⟨hk, rfl⟩))⟩

/-- Stores. -/
theorem visitAssign_heedful {op : AssignOp} {target value : Expr}
    (h : Outer c (.node i r t (.assign op target value))) :
    Heedful c (visitAssign visit (.node i r t (.assign op target value)) op target value) := by
  obtain ⟨hvar, hops⟩ := h.heeds.parts (by simp [Data.kind])
  have : Outer c value := ⟨hops value (mem_operands_assign.mpr (.inr rfl))⟩
  unfold visitAssign
  refine Heedful.next inferInstance (fun splits _ => ?_) fun _ => ?_
  split
  · rename_i ti tr tt object name
    have : Outer c object := (h.target (.inr rfl)).operand (by simp [Data.kind]) (by simp [operands])
    repeat' first
      | infer_instance | split | dsimp only | refine .seq ?_ fun _ => ?_
      | refine Heedful.next ?_ (fun _ _ => ?_) fun _ => ?_
  · split
    · -- nothing is left to show when the store is refused in the end
      by_cases ht : target.hasKind .variable = true ∨ target.hasKind .field = true
      · have := h.target ht
        repeat' first
          | infer_instance | split | dsimp only | refine .seq ?_ fun _ => ?_
          | refine Heedful.next ?_ (fun _ _ => ?_) fun _ => ?_
      · have hany : ∀ {β : Type} {s : Splitter} {x : Split β}, Ensures c.plan s x fun _ _ => True :=
          fun _ _ _ => trivial
        refine ⟨fun s _ => Toward.after hany fun old s₁ _ => Toward.after hany fun w s₂ _ => ?_⟩
        refine Toward.after hany fun b s₃ _ => ?_
        exact .of_ensures (assign_target.mono fun _ _ hk => absurd hk ht)
    · refine Heedful.bind inferInstance fun w hw => ?_
      have : Loyal c (Data.assign op target w) := by
        refine .data hvar (by simp [Data.kind]) (by simp) fun k hk => ?_
        obtain ⟨hf, rfl⟩ | rfl := mem_operands_assign.mp hk
        · have := h.target (.inr hf)
          infer_instance
        · exact hw
      infer_instance
  all_goals
    repeat' first
      | infer_instance | split

omit hs hk in
/-- Throws. -/
theorem visitThrow_heedful {value : Expr} (h : Outer c (.node i r t (.throw value))) :
    Heedful c (visitThrow visit (.node i r t (.throw value)) value) := by
  have : Outer c value := h.operand (by simp [Data.kind]) (by simp [operands])
  unfold visitThrow
  split
  · repeat' first | infer_instance | refine .seq ?_ fun _ => ?_ | refine Heedful.next ?_ (fun _ _ => ?_) fun _ => ?_
  · refine Heedful.next inferInstance (fun s hs => ?_) fun _ => by split <;> infer_instance
    split
    · infer_instance
    · rename_i v hv
      have : Loyal c v := ⟨hs.good.caught v hv⟩
      repeat' first | infer_instance | refine .seq ?_ fun _ => ?_ | refine Heedful.next ?_ (fun _ _ => ?_) fun _ => ?_

/-! ### Arms that meet -/

instance [Outer c x] : Heedful c (branch visit x merge) := by
  unfold branch
  repeat' first | infer_instance | refine Heedful.next ?_ (fun _ _ => ?_) fun _ => ?_

instance {kind : StateKind} [kind.Inner] [Outer c x] : Heedful c (standalone visit kind x merge) := by
  unfold standalone
  repeat' first | infer_instance | refine Heedful.next ?_ (fun _ _ => ?_) fun _ => ?_

theorem visitConditional_heedful {test a b : Expr} (h : Outer c (.node i r t (.conditional test a b))) :
    Heedful c (visitConditional visit (.node i r t (.conditional test a b)) test a b) := by
  have : Outer c test := h.operand (by simp [Data.kind]) (by simp [operands])
  have : Outer c a := h.operand (by simp [Data.kind]) (by simp [operands])
  have : Outer c b := h.operand (by simp [Data.kind]) (by simp [operands])
  unfold visitConditional
  repeat' first | infer_instance | split | dsimp only | refine Heedful.next ?_ (fun _ _ => ?_) fun _ => ?_

theorem visitLogical_heedful {op : BinaryOp} {left right : Expr} [Outer c left] [Outer c right] :
    Heedful c (visitLogical visit e op left right) := by
  unfold visitLogical
  repeat' first
    | infer_instance | split | dsimp only | refine .seq ?_ fun _ => ?_
    | refine Heedful.next ?_ (fun _ _ => ?_) fun _ => ?_

/-- Operators. -/
theorem visitBinary_heedful {op : BinaryOp} {left right : Expr} {method : Option Native}
    (h : Outer c (.node i r t (.binary op left right method))) :
    Heedful c (visitBinary visit (.node i r t (.binary op left right method)) op left right method) := by
  have : Outer c left := h.operand (by simp [Data.kind]) (by simp [operands])
  have : Outer c right := h.operand (by simp [Data.kind]) (by simp [operands])
  unfold visitBinary
  split
  · exact visitLogical_heedful
  · refine Heedful.next (visitOperands_heedful (by simp [*])) (fun xs hxs => ?_) fun _ => by split <;> infer_instance
    split
    · have := hxs.head
      have := hxs.tail.head
      infer_instance
    · infer_instance

/-! ### Switches -/

omit hc hs in
theorem Outer.cases {value other : Expr} {cases : List (List Expr × Expr)} {comparer : Option Native}
    (h : Outer c (.node i r t (.switch value cases other comparer))) :
    Outer c value ∧ (∀ arm ∈ cases, (∀ x ∈ arm.1, Outer c x) ∧ Outer c arm.2) ∧ Outer c other := by
  have hops := fun x hx => h.operand (x := x) (by simp [Data.kind]) (mem_operands_switch.mpr hx)
  refine ⟨hops value (.inl rfl), fun arm ha => ⟨fun x hx => ?_, ?_⟩, hops other (.inr (.inr rfl))⟩
  · exact hops x (.inr (.inl ⟨arm, ha, .inl hx⟩))
  · exact hops arm.2 (.inr (.inl ⟨arm, ha, .inr rfl⟩))

omit hc hs in
theorem Loyal.of_lookupSame [Judged α] {made : List (Expr × α)} {a : α} (h : Loyal c made)
    (ha : lookupSame x made = some a) : Loyal c a := by
  obtain ⟨q, hq, -, rfl⟩ := exists_mem_of_lookupSame ha
  exact (h.of_mem (a := (q.1, q.2)) hq).snd

omit hc hs in
theorem default_erects (t : Ty) : Erects c (Build.default t) (Outer c) := by
  intro q a q' heq _
  cases heq
  exact ⟨.node trivial (by simp [Data.kind]) (by simp [operands])⟩

/-- A switch whose tests stay in one switch. -/
theorem switchBodies_heedful {value value' other : Expr} {cases : List (List Expr × Expr)}
    {comparer : Option Native} [Loyal c value'] (h : Outer c (.node i r t (.switch value cases other comparer))) :
    Heedful c (switchBodies visit (.node i r t (.switch value cases other comparer)) value' cases other comparer) := by
  obtain ⟨-, hcases, hother⟩ := h.cases
  unfold switchBodies
  refine Heedful.next inferInstance (fun merge _ => ?_) fun _ => ?_
  extract_lets arms out
  have : Loyal c (arms, out) := inferInstance
  refine Heedful.next (.forIn this (fun arm harm made hmade => ?_) fun _ _ => ?_) (fun made hmade => ?_) fun _ => ?_
  · obtain ⟨arms, out⟩ := made
    obtain ⟨tests, body⟩ := arm
    have := (hcases _ harm).2
    have : Loyal c tests := ⟨fun x hx => (Loyal.of_outer (h := (hcases _ harm).1 x hx)).good⟩
    have := hmade.fst
    have := hmade.snd
    dsimp only
    split
    · -- an arm of the same body as one before shares its state
      rename_i arm hlook
      have := hmade.fst.of_lookupSame hlook
      infer_instance
    · repeat' first
        | infer_instance | split | dsimp only | refine .seq ?_ fun _ => ?_
        | refine Heedful.next ?_ (fun _ _ => ?_) fun _ => ?_
  · repeat' first | infer_instance | split | dsimp only
  · obtain ⟨arms, out⟩ := made
    have := hmade.snd
    extract_lets out' tail
    have htail : ∀ x, Outer c x → Heedful c (tail x) := by
      intro x hx
      unfold tail
      repeat' first | infer_instance | refine .seq ?_ fun _ => ?_ | refine Heedful.next ?_ (fun _ _ => ?_) fun _ => ?_
    split
    · exact ⟨(Heeding.build (default_erects _)).bind fun x hx => (htail x hx).heeding⟩
    · exact htail other hother
  all_goals
    repeat' first
      | infer_instance | split | dsimp only | refine .seq ?_ fun _ => ?_ | refine .loop fun _ _ => ?_

instance : Heedful c (jumpTo r) := by
  unfold jumpTo
  repeat' first | infer_instance | refine Heedful.next ?_ (fun _ _ => ?_) fun _ => ?_

instance {comparer : Option Native} [Loyal c x] [Loyal c y] : Built c (matchTest comparer x y) := by
  unfold matchTest
  split <;> infer_instance

instance : Judged SwitchTest := ⟨fun c q => Heeds c.helm .none q.test⟩

/-- A switch whose tests are walked in order. -/
theorem switchTests_heedful {value value' other : Expr} {cases : List (List Expr × Expr)}
    {comparer : Option Native} [Loyal c value'] (h : Outer c (.node i r t (.switch value cases other comparer))) :
    Heedful c (switchTests visit (.node i r t (.switch value cases other comparer)) value' cases other comparer) := by
  obtain ⟨-, hcases, hother⟩ := h.cases
  unfold switchTests
  refine Heedful.next inferInstance (fun merge _ => ?_) fun _ => ?_
  refine Heedful.next inferInstance (fun d _ => ?_) fun _ => ?_
  extract_lets kind entries tests tail
  have hkeeps : ∀ x, Keeps (tail x) := by
    intro x
    repeat' first
      | infer_instance | split | dsimp +zetaDelta only | refine .seq ?_ fun _ => ?_ | refine .loop fun _ _ => ?_
  have htail : ∀ x, Loyal c x → Heedful c (tail x) := by
    intro x hx
    have : Loyal c (entries, tests) := inferInstance
    refine Heedful.next (.forIn this (fun arm harm made hmade => ?_) fun _ _ => ?_) (fun made hmade => ?_) fun _ => ?_
    · obtain ⟨entries, tests⟩ := made
      obtain ⟨ts, body⟩ := arm
      have := (hcases _ harm).2
      have := hmade.fst
      have := hmade.snd
      -- collecting the tests of a case visits nothing
      have hcollect : ∀ entry, Heedful c (forIn ts tests fun t tests => do
          let b ← needs t
          pure (ForInStep.yield (tests ++ [(⟨t, entry, b⟩ : SwitchTest)]))) := by
        intro entry
        refine .forIn inferInstance (fun k hk made hmade => Heedful.bind inferInstance fun b _ => ?_) inferInstance
        have : Loyal c (⟨k, entry, b⟩ : SwitchTest) := ⟨((hcases _ harm).1 k hk).heeds⟩
        infer_instance
      dsimp only
      repeat' first
        | exact hcollect _ | infer_instance | split | dsimp only | refine .seq ?_ fun _ => ?_
        | refine Heedful.next ?_ (fun _ _ => ?_) fun _ => ?_
    · repeat' first | infer_instance | split | dsimp only
    · obtain ⟨entries, tests⟩ := made
      extract_lets entries' tests' last
      have hkeeps : ∀ x, Keeps (last x) := by
        intro x
        repeat' first
          | infer_instance | split | dsimp +zetaDelta only | refine .seq ?_ fun _ => ?_ | refine .loop fun _ _ => ?_
      have hlast : ∀ fallback, Heedful c (last fallback) := by
        intro fallback
        refine Heedful.bind (.forIn inferInstance (fun run hrun _ _ => ?_) fun _ _ => ?_) fun _ _ => ?_
        · -- the runs are made of the collected tests
          have : Loyal c run := by
            refine ⟨fun q hq => hmade.snd.good q ?_⟩
            rw [← List.flatten_splitBy (fun a b : SwitchTest => a.splits == b.splits) tests]
            exact List.mem_flatten.mpr ⟨run, hrun, hq⟩
          split
          · refine Heedful.bind (.forIn inferInstance (fun q hq _ _ => ?_) inferInstance) fun _ _ => inferInstance
            have : Outer c q.test := ⟨this.good q hq⟩
            repeat' first
              | infer_instance | refine .seq ?_ fun _ => ?_ | refine Heedful.next ?_ (fun _ _ => ?_) fun _ => ?_
          · refine Heedful.bind (.mapM fun q hq => ?_) fun _ _ => ?_
            · have : Outer c q.test := ⟨hq.good⟩
              repeat' first
                | infer_instance | refine .seq ?_ fun _ => ?_ | refine Heedful.next ?_ (fun _ _ => ?_) fun _ => ?_
            · repeat' first
                | infer_instance | refine .seq ?_ fun _ => ?_ | refine Heedful.next ?_ (fun _ _ => ?_) fun _ => ?_
        · repeat' first | infer_instance | split
        · repeat' first
            | infer_instance | refine .seq ?_ fun _ => ?_ | refine Heedful.next ?_ (fun _ _ => ?_) fun _ => ?_
      split
      · exact Heedful.bind inferInstance fun _ _ => hlast _
      · refine Heedful.next inferInstance (fun st hst => ?_) fun _ => ?_
        split
        · rename_i slot hslot
          have : Loyal c slot := ⟨hst.good.result slot hslot⟩
          repeat' first
            | exact hlast _ | infer_instance | refine .seq ?_ fun _ => ?_
            | refine Heedful.next ?_ (fun _ _ => ?_) fun _ => ?_
        · exact hlast _
        · split <;> infer_instance
    all_goals
      repeat' first
        | infer_instance | split | dsimp only | refine .seq ?_ fun _ => ?_ | refine .loop fun _ _ => ?_
  split
  · exact htail value' inferInstance
  · repeat' first
      | exact htail _ inferInstance | infer_instance | refine .seq ?_ fun _ => ?_
      | refine Heedful.next ?_ (fun _ _ => ?_) fun _ => ?_
  all_goals
    repeat' first
      | infer_instance | split | dsimp only | refine .seq ?_ fun _ => ?_ | refine .loop fun _ _ => ?_

/-- Switches. -/
theorem visitSwitch_heedful {value other : Expr} {cases : List (List Expr × Expr)} {comparer : Option Native}
    (h : Outer c (.node i r t (.switch value cases other comparer))) :
    Heedful c (visitSwitch visit (.node i r t (.switch value cases other comparer)) value cases other comparer) := by
  obtain ⟨hvalue, hcases, hother⟩ := h.cases
  have : Loyal c cases := ⟨fun arm ha => ⟨fun x hx => (Loyal.of_outer (h := (hcases arm ha).1 x hx)).good,
    (Loyal.of_outer (h := (hcases arm ha).2)).good⟩⟩
  unfold visitSwitch
  refine Heedful.bind inferInstance fun _ _ => Heedful.bind inferInstance fun _ _ => ?_
  refine Heedful.bind inferInstance fun w hw => ?_
  split
  · exact switchTests_heedful h
  · split
    · exact switchBodies_heedful h
    · infer_instance

/-! ### Loops, labels and jumps -/

instance {l : Label} : Heedful c (labelDepth? l) := by
  unfold labelDepth?
  refine Heedful.next inferInstance (fun s _ => .read ?_) fun _ => .seq inferInstance fun _ => by split <;> infer_instance
  split <;> infer_instance

instance {l : Label} {origin : Expr} : Heedful c (labelState l origin) := by
  unfold labelState
  repeat' first | infer_instance | split | dsimp only | refine Heedful.next ?_ (fun _ _ => ?_) fun _ => ?_

/-- Loops. -/
theorem visitLoop_heedful {body : Expr} {brk cont : Option Label} (h : Outer c (.node i r t (.loop body brk cont))) :
    Heedful c (visitLoop visit (.node i r t (.loop body brk cont)) body brk cont) := by
  have : Outer c body := h.operand (by simp [Data.kind]) (by simp [operands])
  have (l : Label) : Heedful c (labelState l (.node i r t (.loop body brk cont))) := inferInstance
  have : Heedful c (brk.mapM fun l => labelState l (.node i r t (.loop body brk cont))) := by
    cases brk with
    | none => exact .pure
    | some l => exact .map inferInstance fun _ _ => inferInstance
  unfold visitLoop
  repeat' first
    | infer_instance | split | dsimp only | refine .seq ?_ fun _ => ?_
    | refine Heedful.next ?_ (fun _ _ => ?_) fun _ => ?_

theorem visitLabel_heedful {l : Label} {value : Expr} (h : Outer c (.node i r t (.label l value))) :
    Heedful c (visitLabel visit (.node i r t (.label l value)) l value) := by
  have : Outer c value := h.operand (by simp [Data.kind]) (by simp [operands])
  unfold visitLabel
  repeat' first | infer_instance | split | dsimp only | refine Heedful.next ?_ (fun _ _ => ?_) fun _ => ?_

instance {target : StateRef} {finals : List Guard} : Heedful c (leaveThrough e target finals) := by
  unfold leaveThrough
  generalize finals.zip (finals.drop 1) = pairs
  induction pairs with
  | nil => exact .pure
  | cons q pairs ih =>
    rw [List.foldrM_cons]
    repeat' first | infer_instance | split | dsimp only | refine Heedful.next ?_ (fun _ _ => ?_) fun _ => ?_

/-- Jumps. -/
theorem visitGoto_heedful {k : GotoKind} {l : Label} {value : Expr} (h : Outer c (.node i r t (.goto k l value))) :
    Heedful c (visitGoto visit (.node i r t (.goto k l value)) l value) := by
  have : Outer c value := h.operand (by simp [Data.kind]) (by simp [operands])
  have (gs : List GuardRef) : Heedful c (gs.mapM Split.guard) := .mapM fun _ _ => inferInstance
  unfold visitGoto
  dsimp only
  repeat' first
    | infer_instance | split | dsimp only | refine .seq ?_ fun _ => ?_
    | refine Heedful.next ?_ (fun _ _ => ?_) fun _ => ?_

/-! ### Protected bodies -/

omit hc hs in
theorem inFrame_heedful {f : Frame} {context : List GuardRef} {x : Split α} [Judged α] [Keeps x] (hx : Heedful c x) :
    Heedful c (inFrame f context x) := by
  unfold inFrame
  repeat' first | infer_instance | exact hx | refine Heedful.next ?_ (fun _ _ => ?_) fun _ => ?_

instance {cleanup : Option StateRef} {exit : StateRef} : Heedful c (leavePart cleanup exit) := by
  unfold leavePart
  repeat' first | infer_instance | split | refine Heedful.next ?_ (fun _ _ => ?_) fun _ => ?_

/-- The block parks the resume slot and goes on with what it has parked. -/
theorem visitCleanup_heedful {parked : Var} {block : Expr} [Outer c block] (hp : c.Slot parked) :
    Heedful c (visitCleanup visit r parked block) := by
  have hcopy : ∀ {v u : Var}, c.Slot v → c.Slot u → ∀ {a b : Expr}, a.Names v → b.Names u → b.type = u.type →
      Heedful c (liftM (Build.assign a b) : Split Expr) := by
    rintro v u hv hu a b ha ⟨i, r, t, rfl⟩ ht
    refine ⟨.build (assign_erects hv ha (fun hown => .inr ⟨hown, u, hu.steers.mpr hown, hu.type, rfl, ?_⟩) ?_)⟩
    · exact ht.trans hu.type
    · exact .node hu.admits (by simp [Data.kind]) (by simp [operands])
  unfold visitCleanup
  refine Heedful.next inferInstance (fun _ _ => ?_) fun _ => ?_
  refine Heedful.next inferInstance (fun _ _ => ?_) fun _ => ?_
  refine ⟨(Heeding.build (ref_erects _)).andThen (fun a ha => (Heedful.read ?_).heeding) fun _ => ?_⟩
  refine ⟨(Heeding.build (ref_erects _)).andThen (fun b hb => (Heedful.next ?_ (fun x hx => ?_) fun _ => ?_).heeding)
    fun _ => ?_⟩
  · exact hcopy hp hc.resume ha.1 hb.1 hb.2
  refine Heedful.next inferInstance (fun _ _ => ?_) fun _ => ?_
  refine Heedful.next inferInstance (fun w hw => ?_) fun _ => ?_
  refine Heedful.next inferInstance (fun _ _ => .read ⟨(Heeding.build (ref_erects _)).andThen (fun a ha => ?_) fun _ => ?_⟩)
    fun _ => ?_
  refine (Heeding.build (ref_erects _)).andThen (fun b hb => (Heedful.next ?_ (fun y hy => ?_) fun _ => ?_).heeding)
    fun _ => ?_
  · exact hcopy hc.state hp ha.1 hb.1 hb.2
  repeat' first | infer_instance | refine .seq ?_ fun _ => ?_ | refine Heedful.next ?_ (fun _ _ => ?_) fun _ => ?_

instance : Judged CleanupPart := ⟨fun c q => c.Slot q.parked⟩

/-- The variable of a new cleanup block is a slot of the machine. -/
instance {exit : StateRef} {fin : Expr} : Heedful c (openCleanup exit fin) := by
  unfold openCleanup
  split
  · infer_instance
  · refine Heedful.bind inferInstance fun s _ => Heedful.bind inferInstance fun _ _ => ?_
    refine Heedful.bind inferInstance fun r _ => Heedful.bind inferInstance fun _ _ => ?_
    refine Heedful.bind inferInstance fun caught hcaught => ⟨?_⟩
    -- the variable is the machine's from the moment on at which its region joins the graph
    intro s hs q? s' hrun hb
    cases hrun
    have hbase : c.view.base.names < s.supply.names + 1 := Nat.lt_succ_of_le hs.base.names
    have hlast : s.supply.names + 1 ≤ c.view.last.supply.names := hb.supply.names
    have hslot : c.Slot ⟨s.supply.names + 1, "finallyResume", .int⟩ := by
      refine ⟨rfl, fun h => (hc.parked _ hbase hlast h).1, fun hown => ?_⟩
      refine hc.parks hown s.graph.guards.size _ ?_
      refine (hb.guard s.graph.guards.size ?_).trans (congrArg Guard.parked (guard_push_self s.graph _))
      exact Nat.lt_of_lt_of_eq (Nat.lt_succ_self _) (Array.size_push _).symm
    refine ⟨⟨fun q hq => ?_⟩, ?_⟩
    · cases hq
      exact hslot
    · have h1 : Tidy c { s with
          supply := { s.supply with names := s.supply.names + 1 }
          vars := s.vars.push ⟨s.supply.names + 1, "finallyResume", .int⟩ } := by
        refine hs.beside rfl rfl ⟨Nat.le_succ _, Nat.le_refl _⟩ hs.caught fun w hw => ?_
        obtain hw | rfl := Array.mem_push.mp hw
        · exact hs.vars w hw
        · exact fun _ => rfl
      refine h1.addGuard ⟨(by simp), fun v hv => ?_⟩ fun v hv => ?_
      · cases hv
        exact hcaught.free
      · cases hv
        exact Nat.le_refl _

instance {P : Protection} : Heedful c (openHandlers P) := by
  unfold openHandlers
  refine Heedful.bind inferInstance fun caught hcaught => Heedful.bind ?_ fun g _ => inferInstance
  refine ⟨fun s hs => .of_ensures (Ensures.of_run rfl ⟨inferInstance, hs.addGuard ⟨(by simp), fun v hv => ?_⟩ ?_⟩)⟩
  · cases hv
    exact hcaught.free
  · exact fun _ h => by cases h

instance {P : Protection} : Heedful c P.leave := by unfold Protection.leave; infer_instance

theorem visitProtected_heedful {P : Protection} {body : Expr} [Outer c body] :
    Heedful c (visitProtected visit P body) := by
  unfold visitProtected
  repeat' first | infer_instance | split | refine Heedful.next ?_ (fun _ _ => ?_) fun _ => ?_

/-- The parts of a handler have nothing to do with the variables. -/
structure OuterHandler (c : Voyage) (h : Handler Expr) : Prop where
  filter : Outer c h.filter
  body : Outer c h.body
  var : ∀ v, h.var = some v → ¬ c.helm.steers v.id

omit hc hs in
/-- A region gets a handler. -/
theorem addHandler_heedful {g : GuardRef} {k : Catch} (hf : Heeds c.helm .none k.filter)
    (hv : ∀ v, k.var = some v → ¬ c.helm.steers v.id) :
    Heedful c (modifyGuard g fun info => { info with handlers := info.handlers ++ [k] }) := by
  refine modifyGuard_heedful (fun i h => { h with handlers := fun q hq => ?_ }) fun _ => rfl
  obtain hq | hq := List.mem_append.mp hq
  · exact h.handlers q hq
  · cases List.mem_singleton.mp hq
    exact ⟨hf, hv⟩

omit hc hs in
/-- What a bare rethrow raises. -/
theorem setCaught_heedful [hl : Loyal c v] : Heedful c (modify fun s => { s with caught := some v } : Split Unit) := by
  refine .modifies fun s hs => hs.beside rfl rfl (.refl _) (fun w hw => ?_) hs.vars
  cases hw
  exact hl.free

/-- Handlers. -/
theorem visitHandler_heedful {P : Protection} {g : GuardRef} {caught : Var} {h : Handler Expr} [Loyal c caught]
    (hh : OuterHandler c h) : Heedful c (visitHandler visit P g caught h) := by
  have := hh.filter
  have := hh.body
  have := setCaught_heedful (c := c) (v := caught)
  have (r : StateRef) : Heedful c (modifyGuard g fun info =>
      { info with handlers := info.handlers ++ [⟨r, h.var, h.test, h.filter⟩] }) :=
    addHandler_heedful hh.filter.heeds hh.var
  have : Heedful c (modify fun s => { s with vars := s.vars ++ h.var.toArray } : Split Unit) := by
    refine .modifies fun s hs => hs.beside rfl rfl (.refl _) hs.caught fun w hw => ?_
    obtain hw | hw := Array.mem_append.mp hw
    · exact hs.vars w hw
    · exact fun hsteers => absurd hsteers (hh.var w (by simpa using hw))
  unfold visitHandler
  repeat' first
    | infer_instance | split | refine .seq ?_ fun _ => ?_ | refine Heedful.next ?_ (fun _ _ => ?_) fun _ => ?_

theorem visitFault_heedful {g : GuardRef} {caught : Var} {fault : Expr} [Loyal c caught] [Outer c fault] :
    Heedful c (visitFault visit g caught fault) := by
  have := setCaught_heedful (c := c) (v := caught)
  have (r : StateRef) : Heedful c (modifyGuard g fun info =>
      { info with handlers := info.handlers ++ [{ state := r }] }) := addHandler_heedful .absent fun _ h => by cases h
  unfold visitFault
  repeat' first | infer_instance | refine .seq ?_ fun _ => ?_ | refine Heedful.next ?_ (fun _ _ => ?_) fun _ => ?_

/-- The body of a region and its handlers. -/
theorem visitHandled_heedful {P : Protection} {body fault : Expr} {handlers : List (Handler Expr)} [Outer c body]
    [Outer c fault] (hh : ∀ h ∈ handlers, OuterHandler c h) : Heedful c (visitHandled visit P body handlers fault) := by
  have hbody : Heedful c (visitProtected visit P body) := visitProtected_heedful
  unfold visitHandled
  split
  · exact inFrame_heedful hbody
  · refine Heedful.bind inferInstance fun q hq => ?_
    obtain ⟨g, caught⟩ := q
    have := hq.snd
    refine Heedful.next (inFrame_heedful hbody) (fun _ _ => ?_) fun _ => ?_
    refine Heedful.next inferInstance (fun s hs => ?_) fun _ => ?_
    have hreset : Heedful c (modify fun s' => { s' with caught := s.caught } : Split Unit) :=
      .modifies fun s' hs' => hs'.beside rfl rfl (.refl _) hs.good.caught hs'.vars
    refine Heedful.next (.forIn inferInstance (fun q hq _ _ => ?_) inferInstance) (fun _ _ => ?_) fun _ => ?_
    · have hrun : Heedful c (visitHandler visit P g caught q.1) :=
        visitHandler_heedful (hh q.1 (List.fst_mem_of_mem_zipIdx hq))
      have : Heedful c (inFrame (P.frame (.handler q.2)) P.inner (visitHandler visit P g caught q.1)) :=
        inFrame_heedful hrun
      repeat' first | infer_instance | refine .seq ?_ fun _ => ?_ | refine Heedful.next ?_ (fun _ _ => ?_) fun _ => ?_
    · have hfault : Heedful c (visitFault visit g caught fault) := visitFault_heedful
      have : Heedful c (inFrame (P.frame .fault) P.inner (visitFault visit g caught fault)) := inFrame_heedful hfault
      repeat' first
        | infer_instance | split | dsimp only | refine .seq ?_ fun _ => ?_
        | refine Heedful.next ?_ (fun _ _ => ?_) fun _ => ?_
    all_goals
      repeat' first
        | infer_instance

/-- Protected bodies. -/
theorem visitTry_heedful {body fin fault : Expr} {handlers : List (Handler Expr)}
    (h : Outer c (.node i r t (.protect body handlers fin fault))) :
    Heedful c (visitTry visit (.node i r t (.protect body handlers fin fault)) body handlers fin fault) := by
  obtain ⟨hvars, -⟩ := h.heeds.parts (by simp [Data.kind])
  have hops := fun x hx => h.operand (x := x) (by simp [Data.kind]) (mem_operands_protect.mpr hx)
  have := hops body (.inl rfl)
  have := hops fin (by simp)
  have := hops fault (by simp)
  have hh : ∀ k ∈ handlers, OuterHandler c k := fun k hk =>
    ⟨hops _ (.inr (.inl ⟨k, hk, .inl rfl⟩)), hops _ (.inr (.inl ⟨k, hk, .inr rfl⟩)), hvars k hk⟩
  unfold visitTry
  refine Heedful.next inferInstance (fun s _ => ?_) fun _ => ?_
  refine Heedful.next inferInstance (fun exit _ => ?_) fun _ => ?_
  refine Heedful.next inferInstance (fun cleanup hcleanup => ?_) fun _ => ?_
  refine Heedful.next (visitHandled_heedful hh) (fun _ _ => ?_) fun _ => ?_
  split
  · repeat' first
      | infer_instance | dsimp only | refine .seq ?_ fun _ => ?_ | refine Heedful.next ?_ (fun _ _ => ?_) fun _ => ?_
  · rename_i q
    have hrun : Heedful c (visitCleanup visit q.state q.parked fin) := visitCleanup_heedful (hcleanup.good q rfl)
    repeat' first
      | infer_instance | exact inFrame_heedful hrun | refine .seq ?_ fun _ => ?_
      | refine Heedful.next ?_ (fun _ _ => ?_) fun _ => ?_
  all_goals
    repeat' first
      | infer_instance | split | dsimp only | refine .seq ?_ fun _ => ?_

/-! ### Suspensions -/

instance {configured : Option Bool} [Loyal c x] : Heedful c (awaitSource? x configured) := by
  unfold awaitSource?
  repeat' first | infer_instance | split | dsimp only | refine Heedful.next ?_ (fun _ _ => ?_) fun _ => ?_

omit hk in
/-- Awaits. -/
theorem visitAwait_heedful {operand : Expr} {configured : Option Bool} (h : Outer c (.node i r t (.await operand configured))) :
    Heedful c (visitAwait visit (.node i r t (.await operand configured)) operand configured) := by
  have : Outer c operand := h.operand (by simp [Data.kind]) (by simp [operands])
  have htarget := hc.target
  unfold visitAwait
  refine .read ?_
  split
  · refine .read ?_
    repeat' first | infer_instance | refine .seq ?_ fun _ => ?_ | refine Heedful.next ?_ (fun _ _ => ?_) fun _ => ?_
  · rename_i backend cell continuation heq
    rw [heq] at htarget
    have : Loyal c continuation := ⟨htarget.2⟩
    refine Heedful.next inferInstance (fun _ _ => ?_) fun _ => ?_
    refine Heedful.next inferInstance (fun q hq => ?_) fun _ => ?_
    obtain ⟨source, awaiter?⟩ := q
    have := hq.fst
    dsimp only
    repeat' first
      | infer_instance | split | dsimp only | refine .seq ?_ fun _ => ?_
      | refine Heedful.next ?_ (fun _ _ => ?_) fun _ => ?_

/-- Yields. -/
theorem visitYield_heedful {value : Expr} [Outer c value] : Heedful c (visitYield visit e value) := by
  have htarget := hc.target
  unfold visitYield
  refine .read ?_
  split
  · repeat' first | infer_instance | refine Heedful.read ?_ | refine Heedful.next ?_ (fun _ _ => ?_) fun _ => ?_
  · rename_i shape params dispose current heq
    rw [heq] at htarget
    have : Loyal c current := ⟨htarget.2.2⟩
    repeat' first
      | infer_instance | split | dsimp only | refine .seq ?_ fun _ => ?_
      | refine Heedful.next ?_ (fun _ _ => ?_) fun _ => ?_

/-! ### All cases -/

/-- A call whose parts are visited. -/
theorem visitCall_heedful [Outer c e] {f : Expr → List Expr → Data Expr} {x : Expr} {xs : List Expr}
    (hxs : ∀ k ∈ x :: xs, Outer c k) (hf : ∀ a as, Loyal c a → Loyal c as → Loyal c (f a as)) :
    Heedful c (do
      match ← visitOperands visit (x :: xs) with
      | a :: as => Build.withData e (f a as)
      | [] => return e : Split Expr) := by
  refine Heedful.next (visitOperands_heedful hxs) (fun as has => ?_) fun _ => by split <;> infer_instance
  split
  · have := hf _ _ has.head has.tail
    infer_instance
  · infer_instance

/-- **Splitting one node** of code from outside gives what is heeded. -/
theorem visitNode_heedful (h : Outer c e) : Heedful c (visitNode visit e) := by
  cases e with
  | absent =>
    unfold visitNode
    exact ⟨fun s _ => Toward.after (R := fun _ _ => False) (fun _ _ hrun => by cases hrun) fun _ _ h => h.elim⟩
  | node i r t d =>
    have hops := fun x hd => h.operand (x := x) hd
    unfold visitNode
    refine ⟨fun s hs => Toward.after (R := fun d' s' => d = d' ∧ s = s') (Ensures.of_run rfl ⟨rfl, rfl⟩) ?_⟩
    rintro _ _ ⟨rfl, rfl⟩
    -- the payload is that of the node, so the case of the visit is known
    revert s hs
    refine (?_ : Heedful c _).heeding
    cases d with
    | block vars xs => exact visitBlock_heedful h
    | assign op target value => exact visitAssign_heedful h
    | binary op left right method => exact visitBinary_heedful h
    | unary op x method =>
      have := hops x (by simp [Data.kind]) (by simp [operands])
      exact Heedful.bind inferInstance fun _ _ => inferInstance
    | typeIs x u =>
      have := hops x (by simp [Data.kind]) (by simp [operands])
      exact Heedful.bind inferInstance fun _ _ => inferInstance
    | field object name =>
      have := hops object (by simp [Data.kind]) (by simp [operands])
      exact Heedful.bind inferInstance fun _ _ => inferInstance
    | throw value => exact visitThrow_heedful h
    | call fn args =>
      exact visitCall_heedful (fun k hk => hops k (by simp [Data.kind]) hk) fun a as _ _ => inferInstance
    | methodCall receiver name args =>
      exact visitCall_heedful (fun k hk => hops k (by simp [Data.kind]) hk) fun a as _ _ => inferInstance
    | conditional test a b => exact visitConditional_heedful h
    | switch value cases default comparer => exact visitSwitch_heedful h
    | loop body brk cont => exact visitLoop_heedful h
    | protect body handlers fin fault => exact visitTry_heedful h
    | goto k l value => exact visitGoto_heedful h
    | label l value => exact visitLabel_heedful h
    | await operand configured => exact visitAwait_heedful h
    | yield value =>
      have := hops value (by simp [Data.kind]) (by simp [operands])
      exact visitYield_heedful
    | constant value => exact .throw
    | default => exact .throw
    | var v => exact .throw
    | lambda name params body kind fallible => exact .throw

/-- Visiting gives what is loyal, by induction on the height that is still allowed for. -/
instance visitAt_loyally {fuel : Nat} : VisitsLoyally c (visitAt fuel) := by
  induction fuel with
  | zero => exact ⟨fun e _ => .throw⟩
  | succ fuel ih =>
    refine ⟨fun e he => ?_⟩
    have : Heedful c (visitNode (visitAt fuel) e) := visitNode_heedful he
    unfold visitAt
    repeat' first | infer_instance | split | refine Heedful.next ?_ (fun _ _ => ?_) fun _ => ?_

/-- **Splitting a body**: whatever stands in it, the statements do to the variables that steer what they may. -/
theorem visit_heedful [Outer c e] : Heedful c (Split.visit e) := by
  unfold Split.visit
  infer_instance

/-- The end of a body. -/
theorem finish_heedful {value : Expr} [Loyal c value] : Heedful c (finish value) := by
  have htarget := hc.target
  have := setStateId_heedful hc.halt
  unfold finish
  refine .read ?_
  split
  · rename_i backend cell continuation heq
    rw [heq] at htarget
    have : Loyal c cell := ⟨htarget.1⟩
    repeat' first | infer_instance | refine Heedful.next ?_ (fun _ _ => ?_) fun _ => ?_
  · repeat' first | infer_instance | refine Heedful.next ?_ (fun _ _ => ?_) fun _ => ?_

/-- **A whole body**, with its entry and its end. -/
theorem splitBody_heedful {body : Expr} [Outer c body] : Heedful c (Lower.splitBody body) := by
  have hfinish (value : Expr) (h : Loyal c value) : Heedful c (finish value) := finish_heedful
  unfold Lower.splitBody
  refine Heedful.bind inferInstance fun r _ => Heedful.bind inferInstance fun _ _ => ?_
  refine Heedful.bind visit_heedful fun v hv => ?_
  repeat' first
    | infer_instance | exact hfinish _ inferInstance | split | refine Heedful.next ?_ (fun _ _ => ?_) fun _ => ?_

end

end Resumable
