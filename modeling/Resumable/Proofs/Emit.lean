import Resumable.Lower.Emit
import Resumable.Proofs.Regions

/-!
# `Proofs.Emit`: the dispatch loop of a finished machine

When a body has been split without a usage error every state of the loop is finished. Emission reads
the states, and adds the ones that route errors and close enumerations; those are finished when they
are made, so the machine stays as it has to be, and the loop that comes out is lowered.
-/

namespace Resumable.Split

open Resumable.Expr Build

variable {p : Plan} {L : Ledger} {s s' : Splitter} {e x : Expr} {r : StateRef} {g : GuardRef}

/-- Nothing waits to be finished, and no usage error was reported. -/
structure Settled (L : Ledger) (s : Splitter) : Prop where
  left : Left L s
  quiet : Quiet s.reporter.seen

/-- Every protected body of the graph is in order. -/
theorem Inv.guarded_at (h : Inv L s) (g : GuardRef) : Guarded s (s.graph.guard g) := by
  by_cases hg : g < s.graph.guards.size
  · exact h.guarded g hg
  · have hnone : s.graph.guard g = (Inhabited.default : Guard) := by
      simp [Graph.guard, Array.getD_eq_getD_getElem?, Array.getElem?_eq_none (Nat.le_of_not_lt hg)]
    rw [hnone]
    exact { handlers := fun c hc => by cases hc
            cleanup := fun c hc => by cases hc
            apart := fun _ => rfl
            propagate := fun q hq => by cases hq
            disposeExit := fun q hq => by cases hq
            exit := fun q hq => by cases hq }

theorem Makes.settled {x : Split α} {P : α → Prop} (hx : Makes p s x P) (h : Settled L s) :
    Ensures p s x fun a s' => P a ∧ Settled L s' := by
  refine Ensures.mono hx ?_
  rintro a s' ⟨ha, q, hle, hs⟩
  subst hs
  exact ⟨ha, ⟨h.left.inv.silent hle _ _ _ _ _, h.left.done⟩, h.quiet⟩

theorem Settled.forget {f : Fact} (h : Settled (L.learn f) s) : Settled L s :=
  ⟨⟨h.left.inv.forget, h.left.done⟩, h.quiet⟩

theorem Settled.learn {f : Fact} (h : Settled L s) (hf : f.Holds s) : Settled (L.learn f) s :=
  ⟨⟨h.left.inv.learn hf, h.left.done⟩, h.quiet⟩

theorem Settled.newStateIn_ensures (context : List GuardRef) (kind : StateKind) (origin : Expr)
    (t : Ty) (h : Settled L s) : Ensures p s (newStateIn context kind origin t) fun r s' =>
      Settled ((L.hold r).learn (.state r)) s' := by
  refine (h.left.newStateIn_ensures context kind origin t).mono ?_
  rintro r s' ⟨h', hp⟩
  exact ⟨⟨h'.inv.forget, h'.done⟩, hp.reporter ▸ h.quiet⟩

/-- A new state gets statements that end with a transfer. -/
theorem Settled.finishState_ensures {xs : Array Expr} (h : Settled (L.hold r) s)
    (hxs : ∀ x ∈ xs, IsLowered x) :
    Ensures p s (modifyState r fun st => { st with stmts := xs, terminal := true })
      fun _ s' => Settled L s' := by
  have hmade := h.left.inv.held r List.mem_cons_self
  have hw := h.left.inv.wired r hmade
  have hinv := h.left.inv.modifyState (r := r)
    (f := fun st => { st with stmts := xs, terminal := true }) ⟨rfl, rfl, rfl, fun _ => rfl⟩ fun _ =>
      { stmts := hxs, next := hw.next, resume := hw.resume }
  refine Ensures.of_run rfl ⟨⟨hinv.unhold (closed_modifyState hmade rfl), fun hmem => ?_⟩, h.quiet⟩
  show ((s.graph.modifyState r _).state s.current).isOpen = false
  rw [state_modifyState]
  split
  · rfl
  · exact h.left.done hmem

theorem Settled.modifyGuard_ensures {f : Guard → Guard} (h : Settled L s)
    (ho : ∀ i, (f i).outer = i.outer) (hc : ∀ i, (f i).cleanup = i.cleanup)
    (he : ∀ i, (f i).exit = i.exit) (hf : Guarded s (f (s.graph.guard g))) :
    Ensures p s (modifyGuard g f) fun _ s' => Settled L s' :=
  Ensures.of_run rfl
    ⟨⟨h.left.inv.modifyGuard (ho _) (hc _) (he _) fun _ => hf, h.left.done⟩, h.quiet⟩

/-! ### Where errors end -/

/-- What makes the cell fail is lowered where the error is. -/
theorem failTarget_makes (hx : IsLowered x) :
    Makes p s (failTarget x) fun xs => ∀ y ∈ xs, IsLowered y := by
  unfold failTarget
  refine .read ?_
  split
  · refine (Makes.build (ref_builds _)).bind fun a q ha => ?_
    refine (Makes.build (Backend.setException_builds ha hx)).bind fun b q hb => ?_
    refine (leaveDispatch_makes lowered_absent).bind fun c q hc => .pure ?_
    simp [hb, hc]
  · exact (Makes.build (raise_builds hx)).bind fun a q ha => .pure (by simpa using ha)

/-- The state in which an error leaves the machine. -/
theorem rethrowState_ensures (h : Settled L s) :
    Ensures p s rethrowState fun r s' => Settled (L.learn (.state r)) s' := by
  unfold rethrowState
  refine .get ?_
  split
  · rename_i r hr
    exact Ensures.pure (h.learn (h.left.inv.rethrow r hr))
  · refine (h.newStateIn_ensures [] .rethrow .absent .void).bind fun r s₁ h1 => ?_
    refine ((setStateId_makes _).settled h1).bind ?_
    rintro first s₂ ⟨hfirst, h2⟩
    refine .read ?_
    refine ((Makes.build (ref_builds _)).settled h2).bind ?_
    rintro a s₃ ⟨ha, h3⟩
    refine ((failTarget_makes ha).settled h3).bind ?_
    rintro rest s₄ ⟨hrest, h4⟩
    refine (Settled.finishState_ensures (L := L.learn (.state r)) h4 ?_).bind fun _ s₅ h5 => ?_
    · simpa [hfirst] using hrest
    exact Ensures.of_run rfl ⟨⟨h5.left.inv.setRethrow h5.left.inv.recall, h5.left.done⟩, h5.quiet⟩

theorem caughtVar_makes (i : Guard) : Makes p s (caughtVar i) fun _ => True := by
  unfold caughtVar
  split
  · exact .pure trivial
  · exact Ensures.throw _

/-- The state in which an error goes on after a cleanup block. -/
theorem propagateState_ensures (g : GuardRef) (h : Settled L s) :
    Ensures p s (propagateState g) fun r s' => Settled (L.learn (.state r)) s' := by
  unfold propagateState
  refine .guard ?_
  split
  · rename_i r hr
    exact Ensures.pure (h.learn ((h.left.inv.guarded_at g).propagate r hr))
  · refine (h.newStateIn_ensures _ .propagate .absent .void).bind fun r s₁ h1 => ?_
    refine ((caughtVar_makes _).settled h1).bind ?_
    rintro v s₂ ⟨_, h2⟩
    refine ((Makes.build (ref_builds _)).settled h2).bind ?_
    rintro a s₃ ⟨ha, h3⟩
    refine ((Makes.build (raise_builds ha)).settled h3).bind ?_
    rintro b s₄ ⟨hb, h4⟩
    refine (Settled.finishState_ensures (L := L.learn (.state r)) h4 (by simpa using hb)).bind
      fun _ s₅ h5 => ?_
    have hg := h5.left.inv.guarded_at g
    refine Ensures.bind (h5.modifyGuard_ensures (fun _ => rfl) (fun _ => rfl) (fun _ => rfl) ?_)
      fun _ s₆ h6 => Ensures.pure h6
    refine { handlers := hg.handlers, cleanup := hg.cleanup, apart := hg.apart,
             propagate := fun q hq => ?_, disposeExit := hg.disposeExit, exit := hg.exit }
    cases hq
    exact h5.left.inv.recall

/-! ### Routing -/

/-- The tests and actions of a routing are lowered. -/
def Routed (r : Routing) : Prop := ∀ a ∈ r.arms, IsLowered a.1 ∧ IsLowered a.2

theorem bindCaught_builds (c : Catch) (ex : Var) :
    Builds (bindCaught c ex) fun xs => ∀ x ∈ xs, IsLowered x := by
  unfold bindCaught
  split
  · exact Builds.pure (by simp)
  · refine (ref_builds _).bind fun a ha => (ref_builds _).bind fun b hb => ?_
    refine (coerce_builds hb).bind fun c hc => (assign_builds ha hc).bind fun d hd => ?_
    exact Builds.pure (by simpa using hd)

/-- The test of a filter is lowered where the filter is. -/
theorem filterGuard_builds {c : Catch} (ex skip : Var) (hf : IsLowered c.filter) :
    Builds (filterGuard c ex skip) IsLowered := by
  unfold filterGuard
  refine (bindCaught_builds c ex).bind fun bind hbind => (newVar_builds _ _).bind fun raised _ => ?_
  have hxs : ∀ x ∈ bind ++ [c.filter], IsLowered x := by
    intro x hx
    obtain hx | hx := List.mem_append.mp hx
    · exact hbind x hx
    · cases List.mem_singleton.mp hx
      exact hf
  refine (typedBlock_builds hxs).bind fun body hbody => ?_
  refine (ref_builds _).bind fun a ha => (ref_builds _).bind fun b hb => ?_
  refine (assign_builds ha hb).bind fun replace hreplace => ?_
  refine (ref_builds _).bind fun a ha => (constBool_builds _).bind fun b hb => ?_
  refine (assign_builds ha hb).bind fun set hset => (constBool_builds _).bind fun c hc => ?_
  refine (typedBlock_builds (by simp [hreplace, hset, hc])).bind fun block hblock => ?_
  exact catchAll_builds hbody hblock

/-- What routing leaves behind after one handler is lowered. -/
theorem routeHandler_makes {caught ex : Var} {c : Catch} {skip : Option Var} {r : Routing}
    (hf : IsLowered c.filter) (hr : Routed r) :
    Makes p s (routeHandler caught ex c skip r) fun q => Routed q.2 := by
  unfold routeHandler
  extract_lets plain add
  -- an arm keeps the error, binds it and goes on to the state of the handler
  have hadd : ∀ {s : Splitter} {test : Expr} {skip : Option Var} {r : Routing}, IsLowered test →
      Routed r → Makes p s (add (test, skip, r)) fun q => Routed q.2 := by
    intro s test skip r htest hr
    refine (Makes.build (ref_builds _)).bind fun a q ha => ?_
    refine (Makes.build (ref_builds _)).bind fun b q hb => ?_
    refine (Makes.build (assign_builds ha hb)).bind fun keep q hkeep => ?_
    refine (Makes.build (bindCaught_builds c ex)).bind fun bind q hbind => ?_
    refine (setState_makes _).bind fun move q hmove => ?_
    have hxs : ∀ x ∈ keep :: bind ++ [move], IsLowered x := by
      simp only [List.cons_append, List.mem_cons, List.mem_append]
      grind
    refine (Makes.build (typedBlock_builds hxs)).bind fun action q haction => .pure fun a ha => ?_
    obtain ha | ha := List.mem_append.mp ha
    · exact hr a ha
    · cases List.mem_singleton.mp ha
      exact ⟨htest, haction⟩
  split
  rename_i fresh seen _
  extract_lets r' guarded
  have hr' : Routed r' := hr
  have hguarded : ∀ {s : Splitter} {test : Expr}, IsLowered test →
      Makes p s (guarded test) fun q => Routed q.2 := by
    intro s test htest
    unfold guarded
    split
    · exact hadd htest hr'
    · extract_lets filtered
      -- the filter is evaluated once the test of the type has passed
      have hfiltered : ∀ {s : Splitter} {v : Var} {r : Routing}, Routed r →
          Makes p s (filtered (v, r)) fun q => Routed q.2 := by
        intro s v r hr
        refine (Makes.build (filterGuard_builds ex v hf)).bind fun a q ha => ?_
        exact (Makes.build (binary_builds htest ha)).bind fun b q hb => hadd hb hr
      split
      · exact hfiltered hr'
      · exact (Makes.build (newVar_builds _ _)).bind fun v q _ => hfiltered hr'
  split
  · exact .pure hr'
  · refine (Makes.build (ref_builds _)).bind fun a q ha => ?_
    refine (Makes.build (typeIs_builds ha)).bind fun test q htest => ?_
    split
    · refine (Makes.build (ref_builds _)).bind fun a q ha => ?_
      refine (Makes.build (not_builds ha)).bind fun b q hb => ?_
      exact (Makes.build (binary_builds hb htest)).bind fun c q hc => hguarded hc
    · exact hguarded htest

/-- The tests and actions of the handlers of a region are lowered. -/
theorem routeHandlers_makes {caught ex : Var} {cs : List Catch} {skip : Option Var} {r : Routing}
    (hcs : ∀ c ∈ cs, IsLowered c.filter) (hr : Routed r) :
    Makes p s (routeHandlers caught ex cs skip r) Routed := by
  induction cs generalizing s skip r with
  | nil => exact .pure hr
  | cons c cs ih =>
    unfold routeHandlers
    refine (routeHandler_makes (hcs c List.mem_cons_self) hr).bind ?_
    rintro ⟨skip', r'⟩ q hr'
    exact ih (fun c hc => hcs c (List.mem_cons_of_mem _ hc)) hr'

/-- Routing an error through the regions around a state is lowered code. -/
theorem routeGuards_ensures {ex : Var} {context : List GuardRef} {r : Routing} (h : Settled L s)
    (hr : Routed r) : Ensures p s (routeGuards ex context r) fun q s' =>
      (Routed q.1 ∧ ∀ x ∈ q.2, IsLowered x) ∧ Settled L s' := by
  induction context generalizing s r with
  | nil => exact Ensures.pure ⟨⟨hr, by simp⟩, h⟩
  | cons g outer ih =>
    unfold routeGuards
    refine .guard ?_
    have hfilters : ∀ c ∈ (s.graph.guard g).handlers, IsLowered c.filter := fun c hc =>
      ((h.left.inv.guarded_at g).handlers c hc).2.2 h.quiet
    refine ((caughtVar_makes _).settled h).bind ?_
    rintro v s₁ ⟨_, h1⟩
    refine ((routeHandlers_makes hfilters hr).settled h1).bind ?_
    rintro r' s₂ ⟨hr', h2⟩
    split
    · exact ih h2 hr'
    · refine ((Makes.build (ref_builds _)).settled h2).bind ?_
      rintro a s₃ ⟨ha, h3⟩
      refine ((Makes.build (ref_builds _)).settled h3).bind ?_
      rintro b s₄ ⟨hb, h4⟩
      refine ((Makes.build (assign_builds ha hb)).settled h4).bind ?_
      rintro keep s₅ ⟨hkeep, h5⟩
      refine (propagateState_ensures g h5).bind fun q s₆ h6 => ?_
      refine ((setResume_makes q).settled h6.forget).bind ?_
      rintro resume s₇ ⟨hresume, h7⟩
      refine ((setState_makes _).settled h7).bind ?_
      rintro move s₈ ⟨hmove, h8⟩
      refine ((Makes.build (typedBlock_builds (by simp [hkeep, hresume, hmove]))).settled h8).bind ?_
      rintro block s₉ ⟨hblock, h9⟩
      exact Ensures.pure ⟨⟨hr', by simpa using hblock⟩, h9⟩

/-- The tests of a routing are asked in order. -/
theorem routeArms_makes {arms : List (Expr × Expr)} (harms : ∀ a ∈ arms, IsLowered a.1 ∧ IsLowered a.2)
    (hx : IsLowered x) : Makes p s (arms.foldrM (fun (test, action) rest =>
      (Build.ifThenElse test action rest : Split Expr)) x) IsLowered := by
  induction arms generalizing s with
  | nil => exact .pure hx
  | cons a arms ih =>
    rw [List.foldrM_cons]
    refine (ih fun a ha => harms a (List.mem_cons_of_mem _ ha)).bind fun rest q hrest => ?_
    obtain ⟨htest, haction⟩ := harms a List.mem_cons_self
    exact .build (ifThenElse_builds htest haction hrest)

/-- What a state does with an error is lowered code. -/
theorem dispatch_ensures {context : List GuardRef} {ex : Var} (h : Settled L s) :
    Ensures p s (dispatch context ex) fun x s' => IsLowered x ∧ Settled L s' := by
  unfold dispatch
  refine (routeGuards_ensures h (by simp [Routed])).bind ?_
  rintro ⟨r, rest⟩ s₁ ⟨⟨hr, hrest⟩, h1⟩
  dsimp -zeta only at hr hrest ⊢
  extract_lets tail
  have htail : ∀ x s₂, IsLowered x → Settled L s₂ →
      Ensures p s₂ (tail x) fun x s' => IsLowered x ∧ Settled L s' := by
    intro x s₂ hx h2
    refine ((routeArms_makes hr hx).settled h2).bind ?_
    rintro routed s₃ ⟨hrouted, h3⟩
    split
    · exact Ensures.pure ⟨hrouted, h3⟩
    · exact (Makes.build (typedBlock_builds (by simpa using hrouted))).settled h3
  split
  · rename_i x
    exact htail x s₁ (hrest x rfl) h1
  · split
    · refine .read (((Makes.build (ref_builds _)).settled h1).bind ?_)
      rintro a s₂ ⟨ha, h2⟩
      refine ((Makes.build (ref_builds _)).settled h2).bind ?_
      rintro b s₃ ⟨hb, h3⟩
      refine ((Makes.build (assign_builds ha hb)).settled h3).bind ?_
      rintro keep s₄ ⟨hkeep, h4⟩
      refine (rethrowState_ensures h4).bind fun q s₅ h5 => ?_
      refine ((setState_makes q).settled h5.forget).bind ?_
      rintro move s₆ ⟨hmove, h6⟩
      refine ((Makes.build (typedBlock_builds (by simp [hkeep, hmove]))).settled h6).bind ?_
      rintro block s₇ ⟨hblock, h7⟩
      refine htail block s₇ hblock h7
    · refine ((Makes.build empty_builds).settled h1).bind ?_
      rintro x s₂ ⟨hx, h2⟩
      exact htail x s₂ hx h2

/-! ### Closing an enumeration -/

/-- What leads a machine that is left into its cleanup blocks is lowered. -/
theorem disposeRoute_ensures {context : List GuardRef} (h : Settled L s) :
    Ensures p s (disposeRoute context) fun xs s' => (∀ x ∈ xs, IsLowered x) ∧ Settled L s' := by
  -- from the inside out: every cleanup block goes on to a state that takes the next one
  induction context generalizing L s with
  | nil =>
    unfold disposeRoute
    refine ((setStateId_makes _).settled h).bind ?_
    rintro a s₁ ⟨ha, h1⟩
    refine ((Makes.build (constBool_builds _)).settled h1).bind ?_
    rintro b s₂ ⟨hb, h2⟩
    refine ((leaveDispatch_makes hb).settled h2).bind ?_
    rintro c s₃ ⟨hc, h3⟩
    exact Ensures.pure ⟨by simp [ha, hc], h3⟩
  | cons g outer ih =>
    unfold disposeRoute
    refine .guard ?_
    split
    · exact ih h
    · rename_i cleanup _
      extract_lets tail
      have htail : ∀ r s₁, Settled L s₁ →
          Ensures p s₁ (tail r) fun xs s' => (∀ x ∈ xs, IsLowered x) ∧ Settled L s' := by
        intro r s₁ h1
        refine ((setResume_makes r).settled h1).bind ?_
        rintro a s₂ ⟨ha, h2⟩
        refine ((setState_makes _).settled h2).bind ?_
        rintro b s₃ ⟨hb, h3⟩
        refine (continueDispatch_makes.settled h3).bind ?_
        rintro c s₄ ⟨hc, h4⟩
        exact Ensures.pure ⟨by simp [ha, hb, hc], h4⟩
      split
      · exact htail _ s h
      · refine (h.newStateIn_ensures _ .disposeExit .absent .void).bind fun r s₁ h1 => ?_
        have hg := h1.left.inv.guarded_at g
        refine Ensures.bind (h1.modifyGuard_ensures (fun _ => rfl) (fun _ => rfl) (fun _ => rfl) ?_)
          fun _ s₂ h2 => ?_
        · refine { handlers := hg.handlers, cleanup := hg.cleanup, apart := hg.apart,
                   propagate := hg.propagate, disposeExit := fun q hq => ?_, exit := hg.exit }
          cases hq
          exact h1.left.inv.recall
        refine (ih h2.forget).bind ?_
        rintro route s₃ ⟨hroute, h3⟩
        refine (Settled.finishState_ensures h3 (by simpa using hroute)).bind fun _ s₄ h4 => ?_
        exact htail r s₄ h4

/-- What asks at the start of a state whether the machine is left is lowered. -/
theorem disposeGate_ensures {context : List GuardRef} (h : Settled L s) :
    Ensures p s (disposeGate context) fun xs s' => (∀ x ∈ xs, IsLowered x) ∧ Settled L s' := by
  unfold disposeGate
  refine .read ?_
  split
  · exact Ensures.pure ⟨by simp, h⟩
  · refine ((Makes.build (ref_builds _)).settled h).bind ?_
    rintro test s₁ ⟨htest, h1⟩
    refine (disposeRoute_ensures h1).bind ?_
    rintro route s₂ ⟨hroute, h2⟩
    refine ((Makes.build (typedBlock_builds hroute)).settled h2).bind ?_
    rintro block s₃ ⟨hblock, h3⟩
    refine ((Makes.build (ifThen_builds htest hblock)).settled h3).bind ?_
    rintro x s₄ ⟨hx, h4⟩
    exact Ensures.pure ⟨by simpa using hx, h4⟩

/-! ### Cases and the loop -/

theorem isSafe_makes (x : Expr) : Makes p s (isSafe x) fun _ => True := by
  unfold isSafe
  split
  · exact .pure trivial
  · exact Ensures.throw _

/-- The case of a state is lowered code. -/
theorem caseBody_ensures (h : Settled L s) (hr : (Fact.made r).Holds s) :
    Ensures p s (caseBody r) fun x s' => IsLowered x ∧ Settled L s' := by
  have hstmts := (h.left.inv.wired r hr).stmts
  unfold caseBody
  refine .state (.read ?_)
  extract_lets body
  -- the title comes first, then the gate of a sequence that is closed, the statements and the transition
  have hbody : ∀ title s₁, (∀ x ∈ title, IsLowered x) → Settled L s₁ →
      Ensures p s₁ (body title) fun x s' => IsLowered x ∧ Settled L s' := by
    intro title s₁ htitle h1
    unfold body
    extract_lets rest
    -- what may fail gets a handler of its own around it
    have hrest : ∀ gate s₂, (∀ x ∈ gate, IsLowered x) → Settled L s₂ →
        Ensures p s₂ (rest gate) fun x s' => IsLowered x ∧ Settled L s' := by
      intro gate s₂ hgate h2
      refine ((transition_makes r).settled h2).bind ?_
      rintro move s₃ ⟨hmove, h3⟩
      refine ((Makes.build (typedBlock_builds fun x hx => ?_)).settled h3).bind ?_
      · simp only [List.mem_append, Array.mem_toList_iff] at hx
        grind
      rintro block s₄ ⟨hblock, h4⟩
      split
      · exact Ensures.pure ⟨hblock, h4⟩
      · refine ((isSafe_makes block).settled h4).bind ?_
        rintro safe s₅ ⟨_, h5⟩
        split
        · exact Ensures.pure ⟨hblock, h5⟩
        · refine ((Makes.build (newVar_builds _ _)).settled h5).bind ?_
          rintro ex s₆ ⟨_, h6⟩
          refine (dispatch_ensures h6).bind ?_
          rintro route s₇ ⟨hroute, h7⟩
          exact (Makes.build (catchAll_builds hblock hroute)).settled h7
    split
    · refine (disposeGate_ensures h1).bind ?_
      rintro gate s₂ ⟨hgate, h2⟩
      exact hrest gate s₂ hgate h2
    · exact hrest [] s₁ (by simp) h1
  split
  · refine ((Makes.build (const_builds _)).settled h).bind ?_
    rintro a s₁ ⟨ha, h1⟩
    exact hbody [a] s₁ (by simpa using ha) h1
  · exact hbody [] s (by simp) h

/-- A state may get a name. -/
theorem Settled.name_ensures (h : Settled L s) (name : State → String) :
    Ensures p s (modifyState r fun st => { st with name := name st }) fun _ s' => Settled L s' := by
  have hinv := h.left.inv.modifyState (r := r) (f := fun st => { st with name := name st })
    ⟨rfl, rfl, rfl, fun hc => hc⟩ fun hr =>
      { stmts := (h.left.inv.wired r hr).stmts, next := (h.left.inv.wired r hr).next,
        resume := (h.left.inv.wired r hr).resume }
  refine Ensures.of_run rfl ⟨⟨hinv, fun hmem => ?_⟩, h.quiet⟩
  show ((s.graph.modifyState r _).state s.current).isOpen = false
  rw [state_modifyState]
  split
  · rename_i hcur
    rw [← hcur.1]
    exact h.left.done hmem
  · exact h.left.done hmem

/-- Announcing a state keeps what is settled. -/
theorem announce_ensures (r : StateRef) (h : Settled L s) :
    Ensures p s (announce r) fun _ s' => Settled L s' := by
  unfold announce
  refine .read ?_
  extract_lets options
  split
  · refine (h.name_ensures stateName).bind fun _ s₁ h1 => ?_
    split
    · refine .state (.read (Ensures.of_run rfl ⟨⟨?_, h1.left.done⟩, h1.quiet⟩))
      exact h1.left.inv.silent (Nat.le_refl _) _ _ _ _ _
    · exact Ensures.pure h1
  · exact Ensures.pure h

/-- The cases of all states are lowered, also of those that emission adds. -/
theorem emitCases_ensures (fuel i : Nat) (h : Settled L s) :
    Ensures p s (emitCases fuel i) fun cs s' =>
      PlainCases cs ∧ Settled L s' := by
  induction fuel generalizing i s with
  | zero => exact Ensures.pure ⟨by simp [PlainCases], h⟩
  | succ fuel ih =>
    unfold emitCases
    refine .get ?_
    split
    · exact Ensures.pure ⟨by simp [PlainCases], h⟩
    · rename_i r hr
      have hmade : (Fact.made r).Holds s := (h.left.inv.numbered i r hr).1
      refine (announce_ensures r (h.learn hmade)).bind fun _ s₁ h1 => ?_
      refine (caseBody_ensures h1.forget h1.left.inv.recall).bind ?_
      rintro body s₂ ⟨hbody, h2⟩
      refine .state ?_
      refine ((Makes.build (constInt_builds _)).settled h2).bind ?_
      rintro test s₃ ⟨htest, h3⟩
      refine (ih (i + 1) h3).bind ?_
      rintro cs s₄ ⟨hcs, h4⟩
      refine Ensures.pure ⟨?_, h4⟩
      intro c hc
      obtain rfl | hc := List.mem_cons.mp hc
      · exact ⟨by simpa using htest, hbody⟩
      · exact hcs c hc

theorem unknownState_makes : Makes p s unknownState IsLowered := by
  unfold unknownState
  refine .read ?_
  split
  · refine .read ((Makes.build (ref_builds _)).bind fun a q ha => ?_)
    refine (Makes.build (callLibrary_builds (by simpa using ha))).bind fun b q hb => ?_
    exact .build (raise_builds hb)
  · exact (Makes.build (constBool_builds _)).bind fun a q ha => leaveDispatch_makes ha

/-- The dispatch loop is lowered. -/
theorem emitDispatch_ensures (h : Settled L s) :
    Ensures p s emitDispatch fun x s' => IsLowered x ∧ Settled L s' := by
  unfold emitDispatch
  refine .get ((emitCases_ensures _ 0 h).bind ?_)
  rintro cs s₁ ⟨hcs, h1⟩
  refine .read ?_
  refine ((Makes.build (ref_builds _)).settled h1).bind ?_
  rintro slot s₂ ⟨hslot, h2⟩
  refine (unknownState_makes.settled h2).bind ?_
  rintro other s₃ ⟨hother, h3⟩
  refine ((Makes.build (switch_builds hslot hcs hother)).settled h3).bind ?_
  rintro sw s₄ ⟨hsw, h4⟩
  exact (Makes.build (loop_builds hsw)).settled h4

/-! ### The lambda around the loop -/

/-- The last state ends with the value of the body. -/
theorem finish_ensures (h : Inv L s) (hx : IsLowered x) :
    Ensures p s (finish x) fun _ s' => Left L s' := by
  unfold finish
  refine .read ?_
  extract_lets tail
  -- whatever was emitted, the state is closed by the terminal transition
  have htail : ∀ s₁, Inv L s₁ → Ensures p s₁ (tail ⟨⟩) fun _ s' => Left L s' := by
    intro s₁ h1
    refine (setTerminal_ensures h1).mono ?_
    rintro _ s₂ ⟨h2, hclosed, p2⟩
    rw [← p2.current] at hclosed
    exact h2.left hclosed
  split
  · refine (build_ensures (coerce_builds hx) h).bind ?_
    rintro v s₁ ⟨hv, h1, _⟩
    refine (build_ensures (ref_builds _) h1).bind ?_
    rintro c s₂ ⟨hc, h2, _⟩
    refine (build_ensures (Backend.setResult_builds hc hv) h2).bind ?_
    rintro a s₃ ⟨ha, h3, _⟩
    refine (emit_ensures h3 ha).bind ?_
    rintro _ s₄ ⟨h4, _⟩
    refine ((setStateId_makes _).ensures h4).bind ?_
    rintro a s₅ ⟨ha, h5, _⟩
    refine (emit_ensures h5 ha).bind ?_
    rintro _ s₆ ⟨h6, _⟩
    refine ((leaveDispatch_makes lowered_absent).ensures h6).bind ?_
    rintro a s₇ ⟨ha, h7, _⟩
    refine (emit_ensures h7 ha).bind ?_
    rintro _ s₈ ⟨h8, _⟩
    exact htail s₈ h8
  · refine (emit_ensures h hx).bind ?_
    rintro _ s₁ ⟨h1, _⟩
    refine ((setStateId_makes _).ensures h1).bind ?_
    rintro a s₂ ⟨ha, h2, _⟩
    refine (emit_ensures h2 ha).bind ?_
    rintro _ s₃ ⟨h3, _⟩
    refine (build_ensures (constBool_builds _) h3).bind ?_
    rintro a s₄ ⟨ha, h4, _⟩
    refine ((leaveDispatch_makes ha).ensures h4).bind ?_
    rintro b s₅ ⟨hb, h5, _⟩
    refine (emit_ensures h5 hb).bind ?_
    rintro _ s₆ ⟨h6, _⟩
    exact htail s₆ h6

/-- Putting copies for variables keeps a tree lowered. -/
theorem substitute_builds (copies : List (Var × Var)) (hx : IsLowered x) :
    Builds (substitute copies x) IsLowered := by
  unfold substitute
  split
  · exact Builds.pure hx
  · refine rewrite_builds (fun n hn => ?_) hx
    split
    · split
      · exact withData_builds ⟨rfl, by simp [operands]⟩
      · exact Builds.pure hn
    · rename_i op target value hd
      split
      · refine Builds.bind (withData_builds ⟨rfl, by simp [operands]⟩) fun target' ht => ?_
        exact withData_builds (plain_assign (fun _ => ht)
          (lowered_of_data? hn hd (mem_operands_assign.mpr (Or.inr rfl))))
      · exact Builds.pure hn
    · exact Builds.pure hn

/-- The function that a lowered async lambda becomes is lowered. -/
theorem assembleAsync_makes {backend : Backend} {cell continuation : Var} (hx : IsLowered x) :
    Makes p s (assembleAsync backend cell continuation x) IsLowered := by
  unfold assembleAsync
  refine .read ((Makes.build (newVar_builds _ _)).bind fun ex q _ => ?_)
  refine (setStateId_makes _).bind fun reset q hreset => ?_
  refine (Makes.build (ref_builds _)).bind fun a q ha => ?_
  refine (Makes.build (ref_builds _)).bind fun b q hb => ?_
  refine (Makes.build (Backend.setException_builds ha hb)).bind fun fail q hfail => ?_
  refine (Makes.build (typedBlock_builds (by simp [hreset, hfail]))).bind fun c q hc => ?_
  refine (Makes.build (catchAll_builds hx hc)).bind fun guarded q hguarded => .get ?_
  refine (setStateId_makes _).bind fun start q hstart => ?_
  refine (Makes.build (ref_builds _)).bind fun a q ha => ?_
  refine (Makes.build (constInt_builds _)).bind fun b q hb => ?_
  refine (Makes.build (assign_builds ha hb)).bind fun resume q hresume => ?_
  refine (Makes.build (ref_builds _)).bind fun a q ha => ?_
  refine (Makes.build Backend.create_builds).bind fun b q hb => ?_
  refine (Makes.build (assign_builds ha hb)).bind fun create q hcreate => ?_
  refine (Makes.build (ref_builds _)).bind fun a q ha => ?_
  refine (Makes.build (lambda_builds hguarded)).bind fun b q hb => ?_
  refine (Makes.build (assign_builds ha hb)).bind fun closure q hclosure => ?_
  refine (Makes.build (ref_builds _)).bind fun a q ha => ?_
  refine (Makes.build (call_builds ha (by simp))).bind fun run q hrun => ?_
  refine (Makes.build (ref_builds _)).bind fun a q ha => ?_
  refine (Makes.build (Backend.awaitable_builds ha)).bind fun handle q hhandle => ?_
  exact .build (block_builds (by simp [hstart, hresume, hcreate, hclosure, hrun, hhandle]))

/-- The function that a lowered iterator becomes is lowered. -/
theorem assembleIterator_makes {shape : Ty} {params : List Var} {dispose currentVar : Var}
    (hx : IsLowered x) : Makes p s (assembleIterator shape params dispose currentVar x)
      fun q => IsLowered q.1 := by
  unfold assembleIterator
  refine .read ((Makes.mapM (P := fun _ => True) fun c s => ?_).bind fun copies q _ => ?_)
  · exact (Makes.build (newVar_builds _ _)).bind fun v q _ => .pure trivial
  refine (Makes.mapM (P := IsLowered) fun c s => ?_).bind fun prologue q hprologue => ?_
  · refine (Makes.build (ref_builds _)).bind fun a q ha => ?_
    exact (Makes.build (ref_builds _)).bind fun b q hb => .build (assign_builds ha hb)
  refine (Makes.build (substitute_builds copies.reverse hx)).bind fun loop q hloop => ?_
  refine (Makes.build (newVar_builds _ _)).bind fun ex q _ => ?_
  refine (setStateId_makes _).bind fun reset q hreset => ?_
  refine (Makes.build (ref_builds _)).bind fun a q ha => ?_
  refine (Makes.build (throwAs_builds ha)).bind fun again q hagain => ?_
  refine (Makes.build (typedBlock_builds (by simp [hreset, hagain]))).bind fun b q hb => ?_
  refine (Makes.build (catchAll_builds hloop hb)).bind fun guarded q hguarded => ?_
  refine (Makes.build (lambda_builds hguarded)).bind fun step q hstep => .get ?_
  refine (setStateId_makes _).bind fun start q hstart => ?_
  refine (Makes.build (ref_builds _)).bind fun a q ha => ?_
  refine (Makes.build (constInt_builds _)).bind fun b q hb => ?_
  refine (Makes.build (assign_builds ha hb)).bind fun resume q hresume => ?_
  -- the body of the factory: start, arguments and the step function
  have hxs : ∀ y ∈ [start, resume] ++ prologue ++ [step], IsLowered y := by
    simp only [List.cons_append, List.nil_append, List.mem_cons, List.mem_append]
    grind
  refine (Makes.build (block_builds hxs)).bind fun body q hbody => ?_
  refine (Makes.build (lambda_builds hbody)).bind fun factory q hfactory => ?_
  refine (Makes.build (callLibrary_builds (by simpa using hfactory))).bind fun seq q hseq => ?_
  extract_lets made
  split
  · exact .pure hseq
  · refine (Makes.build (constOf_builds _ _)).bind fun a q ha => ?_
    refine (Makes.build (callLibrary_builds (by simp [hseq, ha]))).bind fun b q hb => ?_
    exact (Makes.build (convert_builds hb)).bind fun c q hc => .pure hc

/-- The body of the lowered lambda is lowered, and what is known of the graph stays. -/
theorem assemble_ensures (h : Settled L s) (hx : IsLowered x) :
    Ensures p s (assemble x) fun q s' => IsLowered q.1 ∧ Settled L s' := by
  unfold assemble
  refine .read ?_
  extract_lets slots
  split
  · refine ((assembleAsync_makes hx).settled h).bind ?_
    rintro y s₁ ⟨hy, h1⟩
    exact Ensures.pure ⟨hy, h1⟩
  · refine ((assembleIterator_makes hx).settled h).bind ?_
    rintro ⟨y, copies⟩ s₁ ⟨hy, h1⟩
    exact Ensures.pure ⟨hy, h1⟩

end Resumable.Split
