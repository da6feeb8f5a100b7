import Resumable.Proofs.Retaining
import Resumable.Proofs.SteeringCases

/-!
# `Proofs.SteeringEmission`: the case of a state stores what the checker says may follow

The case of a state stores the numbers of the states that come next: those that its statements name, those of
its transition, and those that errors and closing lead to from its context. All of them are successors of the
state in the sense of the checker, apart from the state where errors end. That state has a case as well, and
stores only that the machine is over.

**Contents**
* `Voyage.Follows`, `Voyage.arm`: what the case of a state may store.
* `Onto`, `Emits`: steps of emission, on the way to a graph that holds what stands in it now.
* `dispatch_emits`, `disposeRoute_emits`, `caseBody_emits`: the parts of a case.
-/

namespace Resumable

open Resumable.Expr Split Build

/-- The states that a region goes on in. -/
def Guard.exits (i : Guard) : List StateRef :=
  i.handlers.map (·.state) ++ i.cleanup.toList ++ i.propagate.toList ++ i.disposeExit.toList

namespace Voyage

variable (c : Voyage)

/-- The same with other literals, and when the dispatch loop is being built. -/
def storing (P : Int → Prop) (turning : Prop := c.turning) : Voyage := { c with numbers := P, turning }

/-- The machine as the checker sees it. -/
def machine : Machine where
  name := c.plan.name
  graph := c.view.last.graph
  states := c.view.last.states.toList
  stateVar := some c.plan.stateVar
  resumeVar := some c.plan.resumeVar

/-- The state is the one where errors end. -/
def Ends (r : StateRef) : Prop := r ∈ c.view.last.states ∧ c.view.kindOf r = .rethrow

/-- What the case of a state may store. -/
structure Follows (r : StateRef) (n : Int) : Prop where
  known : c.view.Numbers n
  reached : n = -1 ∨ n = 0 ∨ (∃ q, c.Ends q ∧ n = (c.view.last.graph.state q).id) ∨
    c.view.kindOf r ≠ .rethrow ∧ n ∈ c.machine.successors (c.view.last.graph.state r)

/-- Making the case of a state. -/
def arm (r : StateRef) : Voyage := c.storing (c.Follows r)

/-- The number of the state may be stored. -/
def Leads (q : StateRef) : Prop := ∀ st, Loyal c st → c.view.Shows q st → c.numbers st.id

/-- The region may be left for all the states that it goes on in. -/
def Opens (g : GuardRef) : Prop := ∀ q ∈ (c.view.last.graph.guard g).exits, c.Leads q

variable {c}

theorem Sees.storing [hc : c.Sees] {P : Int → Prop} {T : Prop} (hP : ∀ n, P n → c.view.Numbers n) (hhalt : P (-1)) :
    (c.storing P T).Sees :=
  { hc with
    state := ⟨hc.state.type, hc.state.steers⟩
    resume := ⟨hc.resume.type, hc.resume.steers⟩
    numbers := hP
    halt := hhalt }

instance [hc : c.Sees] {r : StateRef} : (c.arm r).Sees :=
  hc.storing (fun _ h => h.known) ⟨.inl rfl, .inl rfl⟩

instance [hc : c.Sees] : (c.storing c.view.Numbers).Sees := hc.storing (fun _ h => h) (.inl rfl)

instance [hc : c.Sees] : (c.storing (· = -1)).Sees := hc.storing (fun _ h => .inl h) rfl

end Voyage

section
variable {c : Voyage} {P : Int → Prop} {T : Prop} {s : Splitter}

/-- What holds of splitters does not depend on what may be stored now. -/
theorem Tidy.storing (h : Tidy c s) (P : Int → Prop) (T : Prop) : Tidy (c.storing P T) s where
  base := h.base
  states r := ⟨(h.states r).stmts, (h.states r).result, (h.states r).number, (h.states r).ended⟩
  guards g := ⟨(h.guards g).handlers, (h.guards g).caught⟩
  parked := h.parked
  rethrow := h.rethrow
  caught := h.caught
  vars := h.vars

theorem Tidy.of_storing (h : Tidy (c.storing P T) s) : Tidy c s := h.storing c.numbers c.turning

/-- A step that is made with other literals. -/
theorem Heeding.of_storing (P : Int → Prop) {x : Split α} {Q : α → Prop} (h : Heeding (c.storing P T) x Q) :
    Heeding c x Q :=
  fun s hs => (h s (hs.storing P T)).mono fun _ _ h => ⟨h.1, h.2.of_storing⟩

theorem Heeding.next [Judged α] {x : Split α} {f : α → Split β} {Q : β → Prop} (hx : Heedful c x)
    (hf : ∀ a, Loyal c a → Heeding c (f a) Q)
    [k : ∀ a, Keeps (f a)] : Heeding c (x >>= f) Q := hx.heeding.bind hf

theorem Heeding.read {f : Plan → Split β} {Q : β → Prop} (h : Heeding c (f c.plan) Q) : Heeding c (read >>= f) Q :=
  fun s hs => h s hs

end

/-! ### Steps of emission -/

/-- Every successful run of `x` from `s` that is on the way to the end, where nothing has been taken back,
ends as `Q` says. -/
def Onto (c : Voyage) (s : Splitter) (x : Split α) (Q : α → Splitter → Prop) : Prop :=
  Toward c.view c.plan s x fun a s' => Retains s' c.view.last → Q a s'

/-- The step keeps the splitter tidy, and its results have a property. -/
def Emits (c : Voyage) (x : Split α) (P : α → Prop) : Prop := ∀ s, Tidy c s → Onto c s x fun a s' => P a ∧ Tidy c s'

section
variable {c : Voyage} {s : Splitter} {x : Split α} {Q R : α → Splitter → Prop} {T : β → Splitter → Prop}

namespace Onto

theorem of_toward (h : Toward c.view c.plan s x Q) : Onto c s x Q := h.mono fun _ _ h _ => h

theorem of_ensures (h : Ensures c.plan s x Q) : Onto c s x Q := of_toward (.of_ensures h)

theorem pure {a : α} (h : Q a s) : Onto c s (pure a) Q := of_toward (.pure h)

theorem mono (hx : Onto c s x R) (h : ∀ a s', R a s' → Q a s') : Onto c s x Q :=
  Toward.mono hx fun a s' hr hh => h a s' (hr hh)

theorem ensuring (hx : Onto c s x Q) (hx' : Ensures c.plan s x R) : Onto c s x fun a s' => Q a s' ∧ R a s' :=
  fun a s' hrun hb hh => ⟨hx a s' hrun hb hh, hx' a s' hrun⟩

theorem bind {f : α → Split β} (hx : Onto c s x R) (hf : ∀ a s', R a s' → Onto c s' (f a) T)
    [k : ∀ a, Keeps (f a)] [r : ∀ a, Retaining (f a)] : Onto c s (x >>= f) T := by
  refine Ensures.bind hx fun a s₁ h1 b s₂ hrun hb hh => ?_
  have hlater := ((k a).later c.plan s₁ b s₂ hrun).2.trans hb
  exact hf a s₁ (h1 hlater (((r a).retains c.plan s₁ b s₂ hrun).trans hh)) b s₂ hrun hb hh

/-- A step whose beginning is on the way when its end is. -/
theorem before [hk : Keeps x] [hr : Retaining x] (h : Before s c.view.last → Retains s c.view.last → Onto c s x Q) :
    Onto c s x Q := fun a s' hrun hb hh =>
  h ((hk.later c.plan s a s' hrun).2.trans hb) ((hr.retains c.plan s a s' hrun).trans hh) a s' hrun hb hh

end Onto

namespace Emits

variable {P P' : α → Prop} {S : β → Prop}

theorem of_heeding (h : Heeding c x P) : Emits c x P := fun s hs => .of_toward (h s hs)

theorem of_heedful [Judged α] (h : Heedful c x) : Emits c x (Loyal c) := .of_heeding h.heeding

theorem pure {a : α} (h : P a) : Emits c (pure a) P := .of_heeding (.pure h)

theorem mono (h : Emits c x P) (hP : ∀ a, P a → P' a) : Emits c x P' :=
  fun s hs => (h s hs).mono fun a _ ha => ⟨hP a ha.1, ha.2⟩

theorem of_storing {N : Int → Prop} {T : Prop} (h : Emits (c.storing N T) x P) : Emits c x P :=
  fun s hs => Onto.mono (c := c) (h s (hs.storing N T)) fun _ _ h => ⟨h.1, h.2.of_storing⟩

theorem bind {f : α → Split β} (hx : Emits c x P) (hf : ∀ a, P a → Emits c (f a) S)
    [k : ∀ a, Keeps (f a)] [r : ∀ a, Retaining (f a)] : Emits c (x >>= f) S :=
  fun s hs => (hx s hs).bind fun a s' h => hf a h.1 s' h.2

/-- A step whose results are loyal. -/
theorem next [Judged α] {f : α → Split β} (hx : Heedful c x) (hf : ∀ a, Loyal c a → Emits c (f a) S)
    [k : ∀ a, Keeps (f a)] [r : ∀ a, Retaining (f a)] : Emits c (x >>= f) S :=
  (of_heedful hx).bind hf

theorem read {f : Plan → Split β} (h : Emits c (f c.plan) S) : Emits c (read >>= f) S := h

theorem state {r : StateRef} {f : State → Split β}
    (h : ∀ st, Loyal c st → c.view.Shows r st → st.Held (c.view.last.graph.state r) → Emits c (f st) S)
    [k : ∀ st, Keeps (f st)] [q : ∀ st, Retaining (f st)] : Emits c (Split.state r >>= f) S := by
  intro s hs a s' hrun hb hh
  have hlater := ((k _).later c.plan s a s' hrun).2.trans hb
  have hretains := ((q _).retains c.plan s a s' hrun).trans hh
  exact h _ ⟨hs.states r⟩ (hlater.shows r) (hretains.states r) s hs a s' hrun hb hh

theorem guard {g : GuardRef} {f : Guard → Split β}
    (h : ∀ i, Loyal c i → i.Held (c.view.last.graph.guard g) → Emits c (f i) S)
    [r : ∀ i, Retaining (f i)] : Emits c (Split.guard g >>= f) S := by
  intro s hs a s' hrun hb hh
  have hretains := ((r _).retains c.plan s a s' hrun).trans hh
  exact h _ ⟨hs.guards g⟩ (hretains.guards g) s hs a s' hrun hb hh

end Emits

end

/-! ### Where errors end -/

section
variable {c : Voyage} [hc : c.Sees] {r : StateRef} {g : GuardRef} {x : Expr} {ex caught : Var} {k : Catch}
  {skip : Option Var} {R : Routing} {context : List GuardRef}

/-- The state joins the loop, and is what it was made for. -/
theorem newStateIn_listed {kind : StateKind} {origin : Expr} {t : Ty} (hk : kind = .rethrow → c.ending ∧ context = []) :
    Heeding c (newStateIn context kind origin t) fun r => r ∈ c.view.last.states ∧ c.view.kindOf r = kind := by
  intro s hs r s' hrun hb
  obtain ⟨-, htidy⟩ := (newStateIn_heedful hk).heeding s hs r s' hrun hb
  suffices h : r ∈ s'.states ∧ r < s'.graph.states.size ∧ (s'.graph.state r).kind = kind from
    ⟨⟨hb.registered r h.1, (hb.state r h.2.1).2.trans h.2.2⟩, htidy⟩
  refine (?_ : Ensures c.plan s (newStateIn context kind origin t) fun r s' =>
    r ∈ s'.states ∧ r < s'.graph.states.size ∧ (s'.graph.state r).kind = kind) r s' hrun
  unfold newStateIn
  extract_lets tail
  have htail : ∀ slot s₁, Ensures c.plan s₁ (tail slot) fun r s' =>
      r ∈ s'.states ∧ r < s'.graph.states.size ∧ (s'.graph.state r).kind = kind := fun slot s₁ =>
    Ensures.of_run rfl ⟨Array.mem_push.mpr (.inr rfl),
      Nat.lt_of_lt_of_eq (Nat.lt_succ_self _) (Array.size_push _).symm,
      congrArg State.kind (state_push_self s₁.graph _)⟩
  split
  · exact htail none s
  · exact Ensures.bind (R := fun _ _ => True) (fun _ _ _ => trivial) fun slot s₁ _ => htail slot s₁

omit hc in
/-- The statements of a new state. -/
theorem setStmts_heeding {xs : List Expr} (hxs : ∀ x ∈ xs, Heeds c.helm c.base x ∧ c.Aside x)
    (hr : c.view.kindOf r = .rethrow → ∀ x ∈ xs, Heeds c.helm (c.licensed (· = -1)) x) :
    Heeding c (modifyState r fun st => { st with stmts := xs.toArray, terminal := true }) fun _ => True := by
  intro s hs
  refine Toward.before fun hb => .of_ensures (Ensures.of_run rfl ⟨trivial, hs.modifyState fun hlt h => ?_⟩)
  have hkind : c.view.kindOf r = (s.graph.state r).kind := (hb.state r hlt).2
  exact
    { h with
      stmts := fun x hx => hxs x (List.mem_toArray.mp hx)
      ended := fun hk => ⟨(h.ended hk).1, (h.ended hk).2.1, (h.ended hk).2.2.1, fun x hx =>
        hr (hkind.trans hk) x (List.mem_toArray.mp hx)⟩ }

instance failTarget_heedful [Loyal c x] : Heedful c (failTarget x) := by
  have htarget := hc.target
  unfold failTarget
  refine .read ?_
  split
  · rename_i backend cell continuation heq
    rw [heq] at htarget
    have : Loyal c cell := ⟨htarget.1⟩
    repeat' first | infer_instance | refine .seq ?_ fun _ => ?_ | refine Heedful.next ?_ (fun _ _ => ?_) fun _ => ?_
  · repeat' first | infer_instance | refine .seq ?_ fun _ => ?_ | refine Heedful.next ?_ (fun _ _ => ?_) fun _ => ?_

/-- The state that fails the machine marks it as over. -/
theorem rethrowState_heeding (he : c.ending) (ht : ¬ c.turning) : Heeding c rethrowState c.Ends := by
  unfold rethrowState
  refine Heeding.andThen Heedful.get.heeding (fun s hs => ?_) fun _ => ?_
  split
  · rename_i r hr
    exact .pure (hs.good.rethrow r hr)
  · refine (newStateIn_listed fun _ => ⟨he, rfl⟩).bind fun r hr => ?_
    -- its statements are made where nothing may be stored but the mark
    have hvar : Loyal (c.storing (· = -1)) c.plan.excVar := ⟨hc.excVar⟩
    refine (Heeding.of_storing (T := c.turning) (· = -1) (setStateId_heedful rfl).heeding).bind fun first hfirst => ?_
    refine Heeding.read ?_
    refine (Heeding.of_storing (T := c.turning) (· = -1) (Heedful.build (x := ref c.plan.excVar)).heeding).bind fun err herr => ?_
    refine (Heeding.of_storing (T := c.turning) (· = -1) (failTarget_heedful (x := err)).heeding).bind fun rest hrest => ?_
    have hall : Loyal (c.storing (· = -1)) (first :: rest) := inferInstance
    refine Heeding.bind (setStmts_heeding (c := c) (fun x hx => (hall.of_mem hx).based ht) fun _ x hx => ?_) fun _ _ => ?_
    · exact (hall.of_mem hx).heeds.mono ⟨fun hz => ht hz.1, fun _ _ => id, id⟩
    refine Heeding.bind (P := fun _ => True) (fun s hs => .of_ensures (Ensures.of_run rfl ⟨trivial, ?_⟩)) fun _ _ => .pure hr
    refine { hs with rethrow := fun q hq => ?_ }
    cases hq
    exact hr
  · split <;> infer_instance

omit hc in
theorem caughtVar_heedful {i : Guard} (hi : Loyal c i) : Heedful c (caughtVar i) := by
  unfold caughtVar
  split
  · rename_i v hv
    have : Loyal c v := ⟨hi.good.caught v hv⟩
    infer_instance
  · infer_instance

/-- The state in which an error goes on after a cleanup block. -/
theorem propagateState_heeding (ht : ¬ c.turning) : Heeding c (propagateState g) fun _ => True := by
  unfold propagateState
  refine Heeding.andThen (P := Loyal c) (inferInstance : Heedful c (Split.guard g)).heeding (fun info hinfo => ?_)
    fun _ => ?_
  split
  · exact .pure trivial
  · refine (newStateIn_listed fun h => by cases h).bind fun r hr => ?_
    refine (caughtVar_heedful hinfo).heeding.bind fun v hv => ?_
    refine .next inferInstance fun a ha => .next inferInstance fun x hx => ?_
    have hstmts : ∀ y ∈ [x], Heeds c.helm c.base y ∧ c.Aside y := by simpa using hx.based ht
    refine (setStmts_heeding hstmts fun hk => ?_).bind fun _ _ => ?_
    · rw [hr.2] at hk
      cases hk
    exact .next (modifyGuard_heedful (fun _ h => ⟨h.handlers, h.caught⟩) fun _ => rfl) fun _ _ => .pure trivial
  · split <;> infer_instance

/-- The region is known to go on in the state. -/
theorem propagateState_emits (ht : ¬ c.turning) : Emits c (propagateState g) fun r =>
    (c.view.last.graph.guard g).propagate = some r := by
  intro s hs r s' hrun hb hh
  obtain ⟨-, htidy⟩ := propagateState_heeding ht s hs r s' hrun hb
  exact ⟨(hh.guards g).propagate r (propagateState_wired g c.plan s r s' hrun), htidy⟩

/-! ### Routing -/

instance : Judged Routing := ⟨fun c r => Judged.good c r.arms ∧ Judged.good c r.skips⟩

instance {filtered : Bool} {seen : TypeSet} {arms : List (Expr × Expr)} {skips : List Var} [h : Loyal c arms]
    [h' : Loyal c skips] : Loyal c (⟨arms, seen, skips, filtered⟩ : Routing) := ⟨h.good, h'.good⟩

instance [h : Loyal c R] : Loyal c R.arms := ⟨h.good.1⟩

instance [h : Loyal c R] : Loyal c R.skips := ⟨h.good.2⟩

omit hc in
theorem bindCaught_built (hk : ∀ v, k.var = some v → ¬ c.helm.steers v.id) [Loyal c ex] : Built c (bindCaught k ex) := by
  unfold bindCaught
  split
  · infer_instance
  · rename_i v hv
    have : Loyal c v := ⟨hk v hv⟩
    repeat' first | infer_instance | refine Built.next ?_ (fun _ _ => ?_) fun _ => ?_

omit hc in
theorem filterGuard_built {skip : Var} (hk : ∀ v, k.var = some v → ¬ c.helm.steers v.id)
    (hf : Heeds c.helm .none k.filter) [Loyal c ex] [Loyal c skip] : Built c (filterGuard k ex skip) := by
  have : Built c (bindCaught k ex) := bindCaught_built hk
  have : Outer c k.filter := ⟨hf⟩
  unfold filterGuard
  repeat' first | infer_instance | refine Built.next ?_ (fun _ _ => ?_) fun _ => ?_

/-- What is known of a handler that errors are routed to. -/
structure Voyage.Handles (c : Voyage) (k : Catch) : Prop where
  state : c.Leads k.state
  filter : Heeds c.helm .none k.filter
  var : ∀ v, k.var = some v → ¬ c.helm.steers v.id

/-- Routing an error past one handler. -/
theorem routeHandler_heedful (hk : c.Handles k) [Loyal c caught] [Loyal c ex] [Loyal c skip] [Loyal c R] :
    Heedful c (routeHandler caught ex k skip R) := by
  have : Built c (bindCaught k ex) := bindCaught_built hk.var
  have := setState_heedful hk.state
  unfold routeHandler
  extract_lets plain add
  have (q : Expr × Option Var × Routing) : Keeps (add q) := by
    unfold add
    infer_instance
  -- an arm keeps the error, binds it and goes on to the state of the handler
  have hadd : ∀ (test : Expr) (skip : Option Var) (r : Routing), Loyal c test → Loyal c skip → Loyal c r →
      Heedful c (add (test, skip, r)) := by
    intro test skip r _ _ _
    unfold add
    repeat' first
      | infer_instance | dsimp only | refine .seq ?_ fun _ => ?_ | refine Heedful.next ?_ (fun _ _ => ?_) fun _ => ?_
  split
  rename_i fresh seen _
  extract_lets r' guarded
  have (test : Expr) : Keeps (guarded test) := by
    unfold guarded
    repeat' first | infer_instance | split
  have hr' : Loyal c r' := by unfold r'; infer_instance
  -- with a filter the arm is tried only when the filter holds
  have hguarded : ∀ test, Loyal c test → Heedful c (guarded test) := by
    intro test _
    unfold guarded
    split
    · exact hadd _ _ _ inferInstance inferInstance hr'
    · extract_lets filtered
      have hfiltered : ∀ (v : Var) (r : Routing), Loyal c v → Loyal c r → Heedful c (filtered (v, r)) := by
        intro v r _ _
        have : Built c (filterGuard k ex v) := filterGuard_built hk.var hk.filter
        refine Heedful.bind inferInstance fun a _ => Heedful.bind inferInstance fun b _ => ?_
        exact hadd _ _ _ inferInstance inferInstance inferInstance
      split
      · rename_i v hv
        have := hv.get
        exact hfiltered _ _ inferInstance hr'
      · exact Heedful.bind inferInstance fun v _ => hfiltered _ _ inferInstance inferInstance
  split
  · infer_instance
  · refine Heedful.next inferInstance (fun a _ => Heedful.next inferInstance (fun test _ => ?_) fun _ => ?_) fun _ => ?_
    · split
      · rename_i v hv
        have := hv.get
        refine Heedful.bind inferInstance fun a _ => Heedful.bind inferInstance fun b _ => ?_
        exact Heedful.bind inferInstance fun d _ => hguarded _ inferInstance
      · exact hguarded _ inferInstance
    all_goals repeat' first | infer_instance | split

/-- The tests and actions of the handlers of a region. -/
theorem routeHandlers_heedful {ks : List Catch} (hks : ∀ k ∈ ks, c.Handles k) [Loyal c caught] [Loyal c ex]
    [Loyal c skip] [Loyal c R] : Heedful c (routeHandlers caught ex ks skip R) := by
  induction ks generalizing skip R with
  | nil => exact .pure
  | cons k ks ih =>
    have : Heedful c (routeHandler caught ex k skip R) := routeHandler_heedful (hks k List.mem_cons_self)
    unfold routeHandlers
    refine Heedful.bind inferInstance fun q hq => ?_
    have := hq.fst
    have := hq.snd
    exact ih fun k hk => hks k (List.mem_cons_of_mem _ hk)

omit hc in
/-- What is known of a region whose states may come next. -/
theorem Voyage.Opens.handles {i : Guard} (h : c.Opens g) (hi : Loyal c i) (hheld : i.Held (c.view.last.graph.guard g)) :
    ∀ k ∈ i.handlers, c.Handles k := fun k hk => by
  refine ⟨h _ ?_, (hi.good.handlers k hk).1, (hi.good.handlers k hk).2⟩
  simp only [Guard.exits, List.mem_append]
  exact .inl (.inl (.inl (List.mem_map_of_mem (hheld.handlers k hk))))

omit hc in
theorem Voyage.Opens.cleanup {i : Guard} (h : c.Opens g) (hheld : i.Held (c.view.last.graph.guard g))
    (hr : i.cleanup = some r) : c.Leads r := by
  refine h r ?_
  simp [Guard.exits, hheld.cleanup r hr]

/-- Routing an error through regions. -/
theorem routeGuards_emits (ht : ¬ c.turning) (hg : ∀ g ∈ context, c.Opens g) [Loyal c ex] [Loyal c R] :
    Emits c (routeGuards ex context R) (Loyal c) := by
  induction context generalizing R with
  | nil => exact .pure inferInstance
  | cons g outer ih =>
    obtain ⟨hopen, houter⟩ := List.forall_mem_cons.mp hg
    unfold routeGuards
    refine .guard (fun info hinfo hheld => ?_) (r := fun _ => ?_)
    refine .next (caughtVar_heedful hinfo) (fun caught _ => ?_) (k := fun _ => ?_) (r := fun _ => ?_)
    refine .next (routeHandlers_heedful (hopen.handles hinfo hheld)) (fun r' _ => ?_) (k := fun _ => ?_) (r := fun _ => ?_)
    split
    · exact ih houter
    · rename_i cleanup hcleanup
      refine .next inferInstance fun a _ => .next inferInstance fun b _ => .next inferInstance fun keep _ => ?_
      refine (propagateState_emits ht).bind fun n hn => ?_
      have := setResume_heedful (r := n) (hopen n (by simp [Guard.exits, hn]))
      have := setState_heedful (hopen.cleanup hheld hcleanup)
      refine .next inferInstance fun resume _ => .next inferInstance fun move _ => .next inferInstance fun x _ => ?_
      exact .pure inferInstance
    all_goals
      repeat' first
        | infer_instance | split

/-- The tests of all regions, one after the other. -/
theorem routeArms_heedful {arms : List (Expr × Expr)} (h : Loyal c arms) [Loyal c x] :
    Heedful c (arms.foldrM (fun (test, action) rest => (Build.ifThenElse test action rest : Split Expr)) x) := by
  induction arms with
  | nil => exact .pure
  | cons a arms ih =>
    obtain ⟨test, action⟩ := a
    have := h.head.fst
    have := h.head.snd
    rw [List.foldrM_cons]
    exact Heedful.bind (ih h.tail) fun rest _ => inferInstance

omit hc in
/-- The state where errors end may come next. -/
theorem Voyage.leads_of_ends (hn : ∀ q, c.Ends q → c.numbers (c.view.last.graph.state q).id) (h0 : c.numbers 0)
    (hr : c.Ends r) : c.Leads r := by
  rintro st - (⟨hid, -⟩ | rfl)
  · exact hid ▸ hn r hr
  · exact h0

/-- What a state does with an error. -/
theorem dispatch_emits (he : c.ending) (ht : ¬ c.turning) (hend : ∀ q, c.Ends q → c.Leads q)
    (hg : ∀ g ∈ context, c.Opens g) [Loyal c ex] : Emits c (dispatch context ex) (Loyal c) := by
  have hexc : Loyal c c.plan.excVar := ⟨hc.excVar⟩
  unfold dispatch
  refine (routeGuards_emits ht hg).bind (fun q hq => ?_) (k := fun _ => ?_) (r := fun _ => ?_)
  obtain ⟨r, rest⟩ := q
  have := hq.fst
  have := hq.snd
  dsimp -zeta only
  extract_lets tail
  have (x : Expr) : Keeps (tail x) := by
    unfold tail
    infer_instance
  have (x : Expr) : Retaining (tail x) := by
    unfold tail
    infer_instance
  have htail : ∀ x, Loyal c x → Emits c (tail x) (Loyal c) := by
    intro x _
    refine .next (routeArms_heedful inferInstance) fun routed _ => ?_
    split
    · exact .pure inferInstance
    · exact .of_heedful inferInstance
  split
  · rename_i x
    exact htail x (Loyal.get inferInstance)
  · split
    · refine .read (.next inferInstance fun a _ => .next inferInstance fun b _ => .next inferInstance fun keep _ => ?_)
      refine (Emits.of_heeding (rethrowState_heeding he ht)).bind fun n hn => ?_
      have := setState_heedful (hend n hn)
      exact .next inferInstance fun move _ => .next inferInstance fun x _ => htail x inferInstance
    · exact .next inferInstance fun x _ => htail x inferInstance
  all_goals
    repeat' first
      | infer_instance | split | dsimp only | refine .seq ?_ fun _ => ?_ | refine @Retaining.bind _ _ _ _ ?_ fun _ => ?_

/-! ### Closing an enumeration -/

/-- Only the regions have to be as they are at the end: the statements of a new state are made before it gets
them. -/
theorem disposeRoute_leads (context : List GuardRef) : ∀ (c : Voyage) [c.Sees], ¬ c.turning →
    (∀ g ∈ context, c.Opens g) → ∀ s, Tidy c s → Toward c.view c.plan s (disposeRoute context) fun xs s' =>
      (∀ g, (s'.graph.guard g).Held (c.view.last.graph.guard g)) → Loyal c xs ∧ Tidy c s' := by
  induction context with
  | nil =>
    intro c hc ht _ s hs
    have := setStateId_heedful hc.halt
    have : Heedful c (disposeRoute []) := by
      unfold disposeRoute
      repeat' first | infer_instance | refine .seq ?_ fun _ => ?_ | refine Heedful.next ?_ (fun _ _ => ?_) fun _ => ?_
    exact (this.heeding s hs).mono fun _ _ h _ => h
  | cons g outer ih =>
    intro c hc ht hg s hs xs s' hrun hb hheld
    obtain ⟨hopen, houter⟩ := List.forall_mem_cons.mp hg
    have hguard := ((Retaining.retains c.plan s xs s' hrun).guards g).trans (hheld g)
    refine (?_ : Toward c.view c.plan s (disposeRoute (g :: outer)) fun xs s' =>
      (∀ g, (s'.graph.guard g).Held (c.view.last.graph.guard g)) → Loyal c xs ∧ Tidy c s') xs s' hrun hb hheld
    unfold disposeRoute
    refine Ensures.guard ?_
    split
    · exact ih c ht houter s hs
    · rename_i cleanup hcleanup
      extract_lets tail
      have htail : ∀ r, c.Leads r → Heedful c (tail r) := by
        intro r hr
        have := setResume_heedful hr
        have := setState_heedful (hopen.cleanup hguard hcleanup)
        unfold tail
        repeat' first
          | infer_instance | refine .seq ?_ fun _ => ?_ | refine Heedful.next ?_ (fun _ _ => ?_) fun _ => ?_
      split
      · rename_i r hr
        have := htail r (hopen r (by simp [Guard.exits, hguard.disposeExit r hr]))
        exact (this.heeding s hs).mono fun _ _ h _ => h
      · refine Toward.andThen ((newStateIn_listed (fun h => by cases h) s hs).ensuring (newStateIn_adds _ _ _ _ _ s))
          fun r s₁ h => ?_
        obtain ⟨⟨hr, h1⟩, hadds⟩ := h
        refine Toward.bind (R := fun _ s₂ => Tidy c s₂ ∧ (s₂.graph.guard g).disposeExit = some r)
          (.of_ensures (Ensures.of_run rfl ⟨h1.modifyGuard (fun h => ⟨h.handlers, h.caught⟩) fun _ => rfl, ?_⟩))
          fun _ s₂ h => ?_
        · show ((s₁.graph.modifyGuard g _).guard g).disposeExit = some r
          have hlt : g < s₁.graph.guards.size := by
            rw [hadds.guards]
            exact lt_of_cleanup hcleanup
          rw [guard_modifyGuard, if_pos ⟨rfl, hlt⟩]
        obtain ⟨h2, hwired⟩ := h
        -- the statements of the new state may name any state
        have hroute := ih (c.storing c.view.Numbers) ht (fun _ _ _ _ _ hst _ => hst.good.number) s₂ (h2.storing _ _)
        refine Toward.bind (hroute.ensuring (Retaining.retains _ s₂)) fun route s₃ h => ?_
        obtain ⟨h3, h23⟩ := h
        intro xs s' hrun hb hheld
        have hkeep : Ensures c.plan s₃ (do
            modifyState r fun st => { st with stmts := route.toArray, terminal := true }
            tail r) fun _ s' => ∀ g, (s₃.graph.guard g).Held (s'.graph.guard g) := by
          refine Ensures.bind (R := fun _ s₄ => s₄.graph.guards = s₃.graph.guards) (Ensures.of_run rfl rfl) ?_
          intro _ s₄ h34
          have : Retaining (tail r) := inferInstance
          refine (Retaining.retains _ s₄).mono fun _ s' h g => ?_
          have := h.guards g
          rwa [Graph.guard, h34] at this
        have hheld' := fun g => (hkeep xs s' hrun g).trans (hheld g)
        obtain ⟨hroute, h3⟩ := h3 hheld'
        have hleads : c.Leads r := by
          refine hopen r ?_
          simp [Guard.exits, ((h23.guards g).trans (hheld' g)).disposeExit r hwired]
        refine Heeding.bind (c := c) (setStmts_heeding (fun x hx => ?_) fun hk => ?_) (fun _ _ => (htail r hleads).heeding)
          s₃ h3.of_storing xs s' hrun hb
        · exact (hroute.of_mem hx).based (c := c.storing c.view.Numbers) ht
        · rw [hr.2] at hk
          cases hk

theorem disposeRoute_emits (ht : ¬ c.turning) (hg : ∀ g ∈ context, c.Opens g) :
    Emits c (disposeRoute context) (Loyal c) := fun s hs xs s' hrun hb hh =>
  disposeRoute_leads context c ht hg s hs xs s' hrun hb hh.guards

/-- What runs the cleanup blocks when the enumeration is being closed. -/
theorem disposeGate_emits (ht : ¬ c.turning) (hg : ∀ g ∈ context, c.Opens g) :
    Emits c (disposeGate context) (Loyal c) := by
  have htarget := hc.target
  unfold disposeGate
  refine .read ?_
  split
  · exact .pure inferInstance
  · rename_i shape params dispose current heq
    rw [heq] at htarget
    have : Loyal c dispose := ⟨htarget.2.1⟩
    refine .next inferInstance fun test _ => (disposeRoute_emits ht hg).bind fun route _ => ?_
    refine .of_heedful ?_
    repeat' first | infer_instance | refine .seq ?_ fun _ => ?_ | refine Heedful.next ?_ (fun _ _ => ?_) fun _ => ?_

end

/-! ### Cases -/

section
variable {c : Voyage} {r : StateRef} {st : State}

/-- The state where errors end goes nowhere. -/
theorem Voyage.ended (hst : Loyal c st) (hshow : c.view.Shows r st) (hr : c.view.kindOf r = .rethrow) :
    st.context = [] ∧ st.next = none ∧ ∀ x ∈ st.stmts, Heeds c.helm (c.licensed (· = -1)) x := by
  obtain ⟨-, hk⟩ | rfl := hshow
  · exact (hst.good.ended (hk.trans hr)).2
  · exact ⟨rfl, rfl, fun x hx => absurd hx (Array.not_mem_empty x)⟩

/-- A successor may come next. -/
theorem Voyage.arm_leads {q : StateRef} (hr : c.view.kindOf r ≠ .rethrow)
    (hq : c.view.last.graph.idOf q ∈ c.machine.successors (c.view.last.graph.state r)) : (c.arm r).Leads q := by
  rintro st hst (⟨hid, -⟩ | rfl)
  · exact ⟨hst.good.number, .inr (.inr (.inr ⟨hr, hid ▸ hq⟩))⟩
  · exact ⟨.inr (.inl rfl), .inr (.inl rfl)⟩

/-- The case of any state may lead to where errors end. -/
theorem Voyage.arm_leads_ends {q : StateRef} (hq : (c.arm r).Ends q) : (c.arm r).Leads q := by
  refine leads_of_ends (fun q hq => ⟨.inr (.inr ⟨q, hq.1, rfl⟩), .inr (.inr (.inl ⟨q, hq, rfl⟩))⟩) ?_ hq
  exact ⟨.inr (.inl rfl), .inr (.inl rfl)⟩

variable (hst : Loyal (c.arm r) st) (hshow : c.view.Shows r st) (hheld : st.Held (c.view.last.graph.state r))

include hst hshow

theorem Voyage.arm_not_ended (h : st.context ≠ [] ∨ st.next ≠ none) : c.view.kindOf r ≠ .rethrow := fun hr => by
  obtain ⟨hcontext, hnext, -⟩ := Voyage.ended hst hshow hr
  exact h.elim (fun h => h hcontext) fun h => h hnext

include hheld

theorem Voyage.arm_next {n : StateRef} (hn : st.next = some n) : (c.arm r).Leads n := by
  refine arm_leads (arm_not_ended hst hshow (.inr (by simp [hn]))) ?_
  refine List.mem_append_left _ (List.mem_map_of_mem (List.mem_append_left _ (List.mem_append_left _ ?_)))
  exact Option.mem_toList.mpr (hheld.next n hn)

theorem Voyage.arm_resume {n t : StateRef} (hn : st.next = some n) (ht : st.resume = some t) : (c.arm r).Leads t := by
  refine arm_leads (arm_not_ended hst hshow (.inr (by simp [hn]))) ?_
  refine List.mem_append_left _ (List.mem_map_of_mem (List.mem_append_left _ (List.mem_append_right _ ?_)))
  exact Option.mem_toList.mpr (hheld.resume t ht)

theorem Voyage.arm_opens : ∀ g ∈ st.context, (c.arm r).Opens g := by
  intro g hg q hq
  refine arm_leads (arm_not_ended hst hshow (.inl (List.ne_nil_of_mem hg))) ?_
  refine List.mem_append_left _ (List.mem_map_of_mem (List.mem_append_right _ ?_))
  exact List.mem_flatMap.mpr ⟨_, List.mem_map_of_mem (hheld.context g hg), hq⟩

/-- The statements of a state are loyal to its arm. -/
theorem Voyage.arm_stmts : Loyal (c.arm r) st.stmts.toList := by
  refine ⟨fun x hx => ?_⟩
  have hx := Array.mem_toList_iff.mp hx
  obtain ⟨hheeds, haside⟩ := hst.good.stmts x hx
  refine ⟨?_, haside⟩
  by_cases hr : c.view.kindOf r = .rethrow
  · refine ((Voyage.ended hst hshow hr).2.2 x hx).mono ⟨False.elim, fun v n hn => ⟨hn.1, hn.2.1, ?_⟩, id⟩
    exact hn.2.2 ▸ ⟨.inl rfl, .inl rfl⟩
  · have hstoring : Heeds c.helm _ x := hheeds.storing (m := c.machine) id fun v n hn =>
      hn.2.1.imp (fun h => congrArg some h.symm) fun h => congrArg some h.symm
    refine hstoring.mono ⟨False.elim, fun v n hn => ⟨hn.1.1, hn.1.2.1, hn.1.2.2, .inr (.inr (.inr ⟨hr, ?_⟩))⟩, id⟩
    refine List.mem_append_right _ (List.mem_flatMap.mpr ⟨x, Array.mem_toList_iff.mpr (hheld.stmts x hx), hn.2⟩)

end

section
variable {c : Voyage} [hc : c.Sees] {r : StateRef}

/-- The move from one state to the next. -/
theorem transition_emits : Emits (c.arm r) (transition r) (Loyal (c.arm r)) := by
  unfold transition
  refine .state (fun st hst hshow hheld => ?_) (k := fun _ => ?_) (q := fun _ => ?_)
  split
  · exact .pure inferInstance
  · rename_i n hn
    have := setState_heedful (c.arm_next hst hshow hheld hn)
    refine .of_heedful ?_
    extract_lets tail
    have htail : ∀ move, Loyal (c.arm r) move → Heedful (c.arm r) (tail move) := by
      intro move _
      unfold tail
      split
      · rename_i t ht
        have := setResume_heedful (c.arm_resume hst hshow hheld hn ht)
        repeat' first
          | infer_instance | refine .seq ?_ fun _ => ?_ | refine Heedful.next ?_ (fun _ _ => ?_) fun _ => ?_
      · exact Heedful.bind .pure fun resume _ => .pure
    have (move : List Expr) : Keeps (tail move) := by
      unfold tail
      split <;> infer_instance
    split
    · exact htail [] inferInstance
    · exact Heedful.bind inferInstance fun move _ => htail _ inferInstance
  all_goals
    repeat' first
      | infer_instance | split

/-- **The case of a state** stores what follows the state. -/
theorem caseBody_emits (he : c.ending) (ht : ¬ c.turning) : Emits (c.arm r) (caseBody r) (Loyal (c.arm r)) := by
  unfold caseBody
  refine .state (fun st hst hshow hheld => .read ?_) (k := fun _ => ?_) (q := fun _ => ?_)
  -- the state is read with what the case of it may do
  have hopen := Voyage.arm_opens hst hshow hheld
  have := Voyage.arm_stmts hst hshow hheld
  extract_lets body
  have (title : List Expr) : Keeps (body title) := by
    unfold body
    infer_instance
  have (title : List Expr) : Retaining (body title) := by
    unfold body
    infer_instance
  have hbody : ∀ title, Loyal (c.arm r) title → Emits (c.arm r) (body title) (Loyal (c.arm r)) := by
    intro title _
    unfold body
    extract_lets rest
    have hrest : ∀ gate, Loyal (c.arm r) gate → Emits (c.arm r) (rest gate) (Loyal (c.arm r)) := by
      intro gate _
      refine transition_emits.bind fun move _ => .next inferInstance fun block _ => ?_
      split
      · exact .pure inferInstance
      · refine Emits.bind (P := fun _ => True) ?_ fun safe _ => ?_
        · unfold isSafe
          split
          · exact .pure trivial
          · exact .of_heeding fun _ _ => .throw _
        split
        · exact .pure inferInstance
        · refine .next inferInstance fun ex _ => ?_
          refine (dispatch_emits (c := c.arm r) he ht (fun _ => Voyage.arm_leads_ends) hopen).bind fun route _ => ?_
          exact .of_heedful inferInstance
    split
    · exact (disposeGate_emits (c := c.arm r) ht hopen).bind fun gate _ => hrest gate inferInstance
    · exact hrest [] inferInstance
  split
  · exact .next inferInstance fun a _ => hbody [a] inferInstance
  · exact hbody [] inferInstance
  all_goals
    repeat' first
      | infer_instance | split | dsimp only | refine .seq ?_ fun _ => ?_ | refine @Retaining.bind _ _ _ _ ?_ fun _ => ?_

end

end Resumable
