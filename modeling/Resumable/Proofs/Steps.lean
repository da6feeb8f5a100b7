import Resumable.Proofs.Splitter

/-!
# `Proofs.Steps`: the steps of splitting keep the invariant

The steps that the cases of splitting are put together from, each with what it ensures: new states are
wired and wait to be finished, statements that are appended are lowered, a state that is closed goes on
in a state of the loop.
-/

namespace Resumable.Split

open Resumable.Expr Build

variable {p : Plan} {L : Ledger} {s s' : Splitter} {r n : StateRef} {x v : Expr}

/-- The splitter still stands at the same place: it may have built trees and added states. -/
structure SamePlace (s s' : Splitter) : Prop where
  context : s'.context = s.context
  frames : s'.frames = s.frames
  cleanups : s'.cleanups = s.cleanups
  current : s'.current = s.current
  labels : s'.labels = s.labels
  reporter : s'.reporter = s.reporter

theorem SamePlace.refl (s : Splitter) : SamePlace s s := ⟨rfl, rfl, rfl, rfl, rfl, rfl⟩

theorem SamePlace.trans {s'' : Splitter} (h : SamePlace s s') (h' : SamePlace s' s'') :
    SamePlace s s'' :=
  ⟨h'.1.trans h.1, h'.2.trans h.2, h'.3.trans h.3, h'.4.trans h.4, h'.5.trans h.5, h'.6.trans h.6⟩

/-! ### Building trees -/

/-- The computation builds something with the property and does nothing else. -/
def Makes (p : Plan) (s : Splitter) (x : Split α) (P : α → Prop) : Prop :=
  Ensures p s x fun a s' => P a ∧ ∃ q, s.supply.refs ≤ q.refs ∧ s' = { s with supply := q }

namespace Makes

theorem build {x : Build α} {P : α → Prop} (hx : Builds x P) : Makes p s (liftM x) P := by
  intro a s' hrun
  change Split.build x p s = _ at hrun
  unfold Split.build at hrun
  split at hrun
  · rename_i b supply hx'
    cases hrun
    obtain ⟨ha, hle⟩ := hx _ _ _ hx'
    exact ⟨ha, supply, hle, rfl⟩
  · cases hrun

theorem pure {P : α → Prop} {a : α} (h : P a) : Makes p s (pure a) P :=
  Ensures.pure ⟨h, s.supply, Nat.le_refl _, rfl⟩

theorem bind {x : Split α} {P : α → Prop} {f : α → Split β} {R : β → Prop} (hx : Makes p s x P)
    (hf : ∀ a q, P a → Makes p { s with supply := q } (f a) R) : Makes p s (x >>= f) R := by
  refine Ensures.bind hx ?_
  rintro a s₁ ⟨ha, q, hle, hs⟩
  subst hs
  refine (hf a q ha).mono ?_
  rintro b s₂ ⟨hb, q', hle', hs⟩
  exact ⟨hb, q', Nat.le_trans hle hle', hs⟩

theorem ensures {x : Split α} {P : α → Prop} (hx : Makes p s x P) (h : Inv L s) :
    Ensures p s x fun a s' => P a ∧ Inv L s' ∧ SamePlace s s' := by
  refine Ensures.mono hx ?_
  rintro a s' ⟨ha, q, hle, hs⟩
  subst hs
  exact ⟨ha, h.silent hle _ _ _ _ _, ⟨rfl, rfl, rfl, rfl, rfl, rfl⟩⟩

theorem read {f : Plan → Split β} {R : β → Prop} (h : Makes p s (f p) R) :
    Makes p s (MonadReader.read >>= f) R := h

theorem get {f : Splitter → Split β} {R : β → Prop} (h : Makes p s (f s) R) :
    Makes p s (MonadState.get >>= f) R := h

theorem state {f : State → Split β} {R : β → Prop} (h : Makes p s (f (s.graph.state r)) R) :
    Makes p s (Split.state r >>= f) R := h

theorem mapM {f : γ → Split α} {xs : List γ} {P : α → Prop} (hf : ∀ c s, Makes p s (f c) P) :
    Makes p s (xs.mapM f) fun ys => ∀ y ∈ ys, P y := by
  induction xs generalizing s with
  | nil =>
    rw [List.mapM_nil]
    exact .pure (by simp)
  | cons c cs ih =>
    rw [List.mapM_cons]
    refine (hf c s).bind fun y q hy => ih.bind fun ys q hys => .pure ?_
    simpa [hy] using hys

end Makes

theorem build_ensures {x : Build α} {P : α → Prop} (hx : Builds x P) (h : Inv L s) :
    Ensures p s (liftM x : Split α) fun a s' => P a ∧ Inv L s' ∧ SamePlace s s' :=
  (Makes.build hx).ensures h

theorem newLocal_frame (name : String) (t : Ty) :
    Ensures p s (newLocal name t) fun _ s' => s'.graph = s.graph ∧ s'.states = s.states := by
  refine Ensures.bind (Makes.build (newVar_builds name t)) ?_
  rintro v _ ⟨_, q, _, rfl⟩
  exact Ensures.of_run rfl ⟨rfl, rfl⟩

theorem newLocal_ensures (name : String) (t : Ty) (h : Inv L s) :
    Ensures p s (newLocal name t) fun _ s' => Inv L s' ∧ SamePlace s s' := by
  unfold newLocal
  refine (build_ensures (newVar_builds name t) h).bind ?_
  rintro v s₁ ⟨_, h1, hp⟩
  exact Ensures.of_run rfl
    ⟨h1.silent (Nat.le_refl _) _ _ _ _ _, hp.trans ⟨rfl, rfl, rfl, rfl, rfl, rfl⟩⟩

theorem report_ensures {code : Code} (hcode : code.number < 2000) (e : Expr) (msg : String)
    (h : Inv L s) : Ensures p s (report code e msg) fun _ s' =>
      Inv L s' ∧ ¬ Quiet s'.reporter.seen ∧ s'.context = s.context := by
  refine Ensures.of_run rfl ⟨h.report _, fun hq => ?_, rfl⟩
  have hbad := hq _ (Reporter.mem_seen_report _ _)
  simp [Fingerprint.isUsageError, Diagnostic.fingerprint, hcode] at hbad

/-! ### New states -/

/-- A new state of the loop has the next number, and waits to be finished. -/
theorem newStateIn_ensures (context : List GuardRef) (kind : StateKind) (origin : Expr) (t : Ty)
    (h : Inv L s) : Ensures p s (newStateIn context kind origin t) fun r s' =>
      Inv (((L.hold r).learn (.state r)).learn (.context r context)) s' ∧ SamePlace s s' ∧
        (0 < s.cleanups → (Fact.entry r).Holds s') := by
  unfold newStateIn
  extract_lets tail
  have htail : ∀ slot s₁, Inv L s₁ → SamePlace s s₁ → Ensures p s₁ (tail slot) fun r s' =>
      Inv (((L.hold r).learn (.state r)).learn (.context r context)) s' ∧ SamePlace s s' ∧
        (0 < s.cleanups → (Fact.entry r).Holds s') := by
    intro slot s₁ h1 hp
    have hw : Wired s₁ { id := s₁.states.size, kind, origin := origin.id, result := slot, context,
                         inCleanup := s₁.cleanups > 0 } :=
      { stmts := fun x hx => by simp at hx, next := fun n hn => by cases hn
        resume := fun t ht => by cases ht }
    refine Ensures.of_run rfl ⟨h1.newState hw rfl, hp.trans ⟨rfl, rfl, rfl, rfl, rfl, rfl⟩, fun hc => ?_⟩
    have hst := (h1.newState hw rfl).known _ (List.mem_cons_of_mem _ List.mem_cons_self)
    refine ⟨hst.1, hst.2, ?_⟩
    rw [← hp.cleanups] at hc
    exact (congrArg State.inCleanup (state_push_self s₁.graph _)).trans (decide_eq_true hc)
  split
  · exact htail none s h (SamePlace.refl s)
  · refine Ensures.bind (R := fun _ s₁ => Inv L s₁ ∧ SamePlace s s₁) (newLocal_ensures _ _ h).map ?_
    rintro slot s₁ ⟨h1, hp⟩
    exact htail slot s₁ h1 hp

theorem newState_ensures (kind : StateKind) (origin : Expr) (t : Ty) (h : Inv L s) :
    Ensures p s (newState kind origin t) fun r s' =>
      Inv (((L.hold r).learn (.state r)).learn (.context r s.context)) s' ∧ SamePlace s s' ∧
        (0 < s.cleanups → (Fact.entry r).Holds s') :=
  newStateIn_ensures s.context kind origin t h

/-- A state that has no statements and no way to go on is wired. -/
theorem wired_empty {st : State} (hs : st.stmts = #[]) (hn : st.next = none)
    (hr : st.resume = none) : Wired s st where
  stmts x hx := by simp [hs] at hx
  next n h := by rw [hn] at h; cases h
  resume t h := by rw [hr] at h; cases h

theorem newInlined_ensures (h : Inv L s) : Ensures p s newInlined fun r s' =>
    Inv (L.learn (.made r)) s' ∧ SamePlace s s' :=
  Ensures.of_run rfl ⟨h.addState (wired_empty rfl rfl rfl), ⟨rfl, rfl, rfl, rfl, rfl, rfl⟩⟩

/-! ### Transitions -/

theorem modifyState_modifyState (g : Graph) (r : StateRef) (f f' : State → State) :
    (g.modifyState r f).modifyState r f' = g.modifyState r fun st => f' (f st) := by
  unfold Graph.modifyState
  simp only [Graph.mk.injEq, and_true]
  refine Array.ext_getElem? fun i => ?_
  simp only [Array.getElem?_modify]
  split
  · rw [Option.map_map]
    rfl
  · rfl

/-- Wiring succeeds for a state that has no next one, and then changes nothing else. -/
theorem setNext_run (hrun : setNext r n p s = .ok () s') :
    (s.graph.state r).next = none ∧
      s' = { s with graph := s.graph.modifyState r fun st => { st with next := some n } } := by
  simp only [setNext, bind, ReaderT.bind, EStateM.bind, get, getThe, MonadStateOf.get, liftM, monadLift,
    MonadLift.monadLift, EStateM.get, Graph.setNext] at hrun
  cases hnext : (s.graph.state r).next with
  | none =>
    simp only [hnext] at hrun
    cases hrun
    exact ⟨rfl, rfl⟩
  | some m =>
    simp only [hnext] at hrun
    cases hrun

theorem isOpen_next (st : State) (n : StateRef) : ({ st with next := some n } : State).isOpen = false :=
  Bool.and_false _

theorem closed_modifyState {f : State → State} (hr : (Fact.made r).Holds s)
    (hf : (f (s.graph.state r)).isOpen = false) :
    (Fact.closed r).Holds { s with graph := s.graph.modifyState r f } := by
  refine ⟨Nat.lt_of_lt_of_eq hr (by simp [Graph.modifyState]), ?_⟩
  show ((s.graph.modifyState r f).state r).isOpen = false
  rw [state_modifyState, if_pos ⟨rfl, hr⟩]
  exact hf

/-- A state is wired to another one of the loop. -/
theorem setNext_ensures (h : Inv L s) (hr : (Fact.made r).Holds s) (hn : (Fact.state n).Holds s) :
    Ensures p s (setNext r n) fun _ s' =>
      Inv L s' ∧ (Fact.closed r).Holds s' ∧ SamePlace s s' := by
  intro u s' hrun
  obtain ⟨hnone, rfl⟩ := setNext_run hrun
  have hw := h.wired r hr
  refine ⟨h.modifyState ⟨rfl, rfl, rfl, fun _ => isOpen_next _ _⟩ fun _ => ?_,
    closed_modifyState hr (isOpen_next _ _), ⟨rfl, rfl, rfl, rfl, rfl, rfl⟩⟩
  refine { stmts := hw.stmts, next := fun m hm => ?_, resume := fun t ht => ?_ }
  · cases hm
    exact hn
  · obtain ⟨_, m, hm, _⟩ := hw.resume t ht
    rw [hnone] at hm
    cases hm

/-- A state is wired to a cleanup block, with the state in which that block goes on. -/
theorem setResume_setNext_ensures {t : StateRef} (h : Inv L s) (hr : (Fact.made r).Holds s)
    (ht : (Fact.state t).Holds s) (hn : (Fact.entry n).Holds s) :
    Ensures p s (do modifyState r fun st => { st with resume := some t }; setNext r n)
      fun _ s' => Inv L s' ∧ (Fact.closed r).Holds s' ∧ SamePlace s s' := by
  refine Ensures.bind (R := fun _ s' => s' =
    { s with graph := s.graph.modifyState r fun st => { st with resume := some t } })
    (Ensures.of_run rfl rfl) ?_
  rintro _ _ rfl u s' hrun
  obtain ⟨hnone, rfl⟩ := setNext_run hrun
  have hw := h.wired r hr
  have heq := modifyState_modifyState s.graph r (fun st => { st with resume := some t })
    fun st => { st with next := some n }
  simp only [heq]
  refine ⟨h.modifyState ⟨rfl, rfl, rfl, fun _ => isOpen_next _ _⟩ fun _ => ?_,
    closed_modifyState hr (isOpen_next _ _), ⟨rfl, rfl, rfl, rfl, rfl, rfl⟩⟩
  refine { stmts := hw.stmts, next := fun m hm => ?_, resume := fun m hm => ?_ }
  · cases hm
    exact ⟨hn.1, hn.2.1⟩
  · cases hm
    exact ⟨ht, n, rfl, hn⟩

/-- A state that is closed goes on to a given one. -/
theorem closeWith_ensures (h : Inv L s) (hn : (Fact.state n).Holds s) :
    Ensures p s (closeWith n) fun _ s' =>
      Inv L s' ∧ (Fact.closed s.current).Holds s' ∧ SamePlace s s' := by
  unfold closeWith
  show Ensures p s (if (s.graph.state s.current).isOpen then (do setNext (← get).current n)
    else Pure.pure ()) _
  split
  · exact setNext_ensures h h.current hn
  · rename_i hopen
    exact Ensures.pure ⟨h, ⟨h.current, by simpa using hopen⟩, SamePlace.refl s⟩

theorem setTerminal_ensures (h : Inv L s) : Ensures p s setTerminal fun _ s' =>
    Inv L s' ∧ (Fact.closed s.current).Holds s' ∧ SamePlace s s' := by
  have hw := h.wired s.current h.current
  refine Ensures.of_run rfl ⟨h.modifyState ⟨rfl, rfl, rfl, fun _ => rfl⟩ fun _ => ?_,
    closed_modifyState h.current rfl, ⟨rfl, rfl, rfl, rfl, rfl, rfl⟩⟩
  exact { stmts := hw.stmts, next := hw.next, resume := hw.resume }

/-! ### Going on -/

/-- The current state is left for another one that somebody would have finished; the labels whose
state it is are reached. -/
theorem goOnIn_enter_ensures (ls : List Label) (h : Inv (L.hold r) s)
    (hc : (Fact.closed s.current).Holds s) (hls : ∀ l ∈ ls, (Fact.label l r).Holds s) :
    Ensures p s (goOnIn r) fun _ s' => Inv (L.enter ls) s' := by
  refine Ensures.of_run rfl ?_
  exact h.goOn ls (h.held r List.mem_cons_self) (fun q hq => h.held q (List.mem_cons_of_mem _ hq))
    (fun _ => Or.inl hc.2) (fun q hq => List.mem_cons.mp hq) hls

theorem goOnIn_ensures (h : Inv (L.hold r) s) (hc : (Fact.closed s.current).Holds s) :
    Ensures p s (goOnIn r) fun _ s' => Inv L s' :=
  goOnIn_enter_ensures [] h hc fun l hl => by cases hl

/-- The current state is left for another one, to come back to it. -/
theorem goOnIn_hold_ensures (h : Inv L s) (hr : (Fact.made r).Holds s) :
    Ensures p s (goOnIn r) fun _ s' => Inv (L.hold s.current) s' ∧ s'.context = s.context := by
  refine Ensures.of_run rfl ⟨?_, rfl⟩
  refine h.goOn [] hr (fun q hq => ?_) (fun _ => Or.inr (Or.inr List.mem_cons_self))
    (fun q hq => Or.inr (List.mem_cons_of_mem _ hq)) fun l hl => by cases hl
  obtain rfl | hq := List.mem_cons.mp hq
  · exact h.current
  · exact h.held q hq

/-- The current state is left for one that somebody would have finished, to come back to it. -/
theorem goOnIn_swap_ensures (h : Inv (L.hold r) s) :
    Ensures p s (goOnIn r) fun _ s' => Inv (L.hold s.current) s' ∧ s'.context = s.context := by
  refine Ensures.of_run rfl ⟨?_, rfl⟩
  refine h.goOn [] (h.held r List.mem_cons_self) (fun q hq => ?_)
    (fun _ => Or.inr (Or.inr List.mem_cons_self)) (fun q hq => ?_) fun l hl => by cases hl
  · obtain rfl | hq := List.mem_cons.mp hq
    · exact h.current
    · exact h.held q (List.mem_cons_of_mem _ hq)
  · obtain rfl | hq := List.mem_cons.mp hq
    · exact Or.inl rfl
    · exact Or.inr (List.mem_cons_of_mem _ hq)

/-- The current state is done with: it goes on, or it is no state of the loop. -/
structure Left (L : Ledger) (s : Splitter) : Prop where
  inv : Inv L s
  done : s.current ∈ s.states → (s.graph.state s.current).isOpen = false

theorem Inv.left (h : Inv L s) (hc : (Fact.closed s.current).Holds s) : Left L s := ⟨h, fun _ => hc.2⟩

/-- What has been left can be left for any state that somebody would have finished. -/
theorem Left.goOnIn_ensures (h : Left (L.hold r) s) : Ensures p s (goOnIn r) fun _ s' =>
    Inv L s' ∧ s'.context = s.context := by
  refine Ensures.of_run rfl ⟨?_, rfl⟩
  exact h.inv.goOn [] (h.inv.held r List.mem_cons_self)
    (fun q hq => h.inv.held q (List.mem_cons_of_mem _ hq)) (fun hmem => Or.inl (h.done hmem))
    (fun q hq => List.mem_cons.mp hq) fun l hl => by cases hl

/-- A new state comes after all others, only it joins the loop, and the regions are left alone. -/
theorem newStateIn_frame (context : List GuardRef) (kind : StateKind) (origin : Expr) (t : Ty) :
    Ensures p s (newStateIn context kind origin t) fun r s' => r = s.graph.states.size ∧
      (∀ q < s.graph.states.size, q ∈ s'.states → q ∈ s.states) ∧
        s'.graph.guards = s.graph.guards := by
  unfold newStateIn
  extract_lets tail
  have htail : ∀ slot s₁, s₁.graph = s.graph → s₁.states = s.states →
      Ensures p s₁ (tail slot) fun r s' => r = s.graph.states.size ∧
        (∀ q < s.graph.states.size, q ∈ s'.states → q ∈ s.states) ∧
          s'.graph.guards = s.graph.guards := by
    intro slot s₁ hgraph hstates
    have hguards : s₁.graph.guards = s.graph.guards := by rw [hgraph]
    refine Ensures.of_run rfl ⟨congrArg (fun g => g.states.size) hgraph, fun q hq hmem => ?_, hguards⟩
    obtain hmem | rfl := Array.mem_push.mp hmem
    · exact hstates ▸ hmem
    · rw [hgraph] at hq
      exact absurd hq (Nat.lt_irrefl _)
  split
  · exact htail none s rfl rfl
  · refine Ensures.bind (R := fun _ s₁ => s₁.graph = s.graph ∧ s₁.states = s.states)
      (newLocal_frame _ _).map ?_
    rintro slot s₁ ⟨hgraph, hstates⟩
    exact htail slot s₁ hgraph hstates

/-- A new state is known from then on, with its context. -/
theorem Left.newStateIn_ensures (context : List GuardRef) (kind : StateKind) (origin : Expr) (t : Ty)
    (h : Left L s) : Ensures p s (newStateIn context kind origin t) fun r s' =>
      Left (((L.hold r).learn (.state r)).learn (.context r context)) s' ∧ SamePlace s s' := by
  by_cases hmem : s.current ∈ s.states
  · have hclosed : (Fact.closed s.current).Holds s := ⟨h.inv.current, h.done hmem⟩
    refine (Split.newStateIn_ensures context kind origin t (h.inv.learn hclosed)).mono ?_
    rintro r s₁ ⟨h1, p1, _⟩
    refine ⟨⟨h1.weaken rfl rfl rfl (fun _ => Iff.rfl) (fun _ hq => hq) h1.held ?_,
        fun _ => ?_⟩, p1⟩
    · exact fun f hf => by simp only [Ledger.learn, Ledger.hold, List.mem_cons] at hf ⊢; grind
    · rw [p1.current]
      exact (h1.known (.closed s.current) (by simp [Ledger.learn, Ledger.hold])).2
  · refine ((Split.newStateIn_ensures context kind origin t h.inv).and
      (newStateIn_frame context kind origin t)).mono ?_
    rintro r s₁ ⟨⟨h1, p1, _⟩, _, hold, _⟩
    refine ⟨⟨h1, ?_⟩, p1⟩
    rw [p1.current]
    exact fun hmem' => absurd (hold _ h.inv.current hmem') hmem

theorem Left.newState_ensures (kind : StateKind) (origin : Expr) (t : Ty) (h : Left L s) :
    Ensures p s (newState kind origin t) fun r s' =>
      Left (((L.hold r).learn (.state r)).learn (.context r s.context)) s' ∧ SamePlace s s' :=
  h.newStateIn_ensures s.context kind origin t

/-- Code after a transfer goes into a dead state. -/
theorem goOnDead_ensures (h : Inv L s) (hc : (Fact.closed s.current).Holds s) :
    Ensures p s (do goOnIn (← newDead)) fun _ s' => Left L s' := by
  refine Ensures.bind (R := fun r s' => Inv (L.learn (.made r)) s' ∧ (Fact.closed s'.current).Holds s' ∧
    r ∉ s'.states) ?_ ?_
  · have hw : Wired s { id := -1, kind := .dead, context := s.context } := wired_empty rfl rfl rfl
    have h1 := (h.learn hc).addState hw
    refine Ensures.of_run rfl ⟨h1.weaken rfl rfl rfl (fun _ => Iff.rfl) (fun _ hq => hq) h1.held
      (fun f hf => ?_), h1.forget.recall, fun hmem => ?_⟩
    · obtain rfl | hf := List.mem_cons.mp hf
      · exact List.mem_cons_self
      · exact List.mem_cons_of_mem _ (List.mem_cons_of_mem _ hf)
    · exact absurd (h.lt_of_mem hmem) (Nat.lt_irrefl _)
  · intro r s₁ ⟨h1, hclosed, hnew⟩
    refine Ensures.of_run rfl ⟨?_, fun hmem => absurd hmem hnew⟩
    exact h1.forget.goOn [] h1.recall h1.held (fun _ => Or.inl hclosed.2) (fun q hq => Or.inr hq)
      fun l hl => by cases hl

theorem endWithJump_ensures (h : Inv L s) : Ensures p s endWithJump fun _ s' => Left L s' := by
  unfold endWithJump
  refine (setTerminal_ensures h).bind ?_
  rintro _ s₁ ⟨h1, hc, hp⟩
  rw [← hp.current] at hc
  exact goOnDead_ensures h1 hc

/-! ### Statements -/

/-- A lowered statement may be added to the open state. -/
theorem emit_ensures (h : Inv L s) (hx : IsLowered x) :
    Ensures p s (emit x) fun _ s' => Inv L s' ∧ SamePlace s s' := by
  unfold emit
  split
  · have hw := h.wired s.current h.current
    refine Ensures.of_run rfl ⟨h.modifyState ⟨rfl, rfl, rfl, fun h => h⟩ fun _ => ?_,
      ⟨rfl, rfl, rfl, rfl, rfl, rfl⟩⟩
    refine { stmts := fun y hy => ?_, next := hw.next, resume := hw.resume }
    obtain hy | rfl := Array.mem_push.mp hy
    · exact hw.stmts y hy
    · exact hx
  · exact Ensures.pure ⟨h, SamePlace.refl s⟩

theorem setStateId_makes (id : Int) : Makes p s (setStateId id) IsLowered := by
  unfold setStateId
  refine .read ((Makes.build (ref_builds p.stateVar)).bind fun a q ha => ?_)
  exact (Makes.build (constInt_builds id)).bind fun b q hb => .build (assign_builds ha hb)

theorem setState_makes (r : StateRef) : Makes p s (setState r) IsLowered := setStateId_makes _

theorem setResume_makes (r : StateRef) : Makes p s (setResume r) IsLowered := by
  unfold setResume
  refine .read ((Makes.build (ref_builds p.resumeVar)).bind fun a q ha => .state ?_)
  exact (Makes.build (constInt_builds _)).bind fun b q hb => .build (assign_builds ha hb)

theorem continueDispatch_makes : Makes p s continueDispatch IsLowered :=
  .read (.build (jump_builds lowered_absent))

theorem leaveDispatch_makes (hx : IsLowered x) : Makes p s (leaveDispatch x) IsLowered :=
  .read (.build (jump_builds hx))

/-- The move from one state to the next is lowered code. -/
theorem transition_makes (r : StateRef) : Makes p s (transition r) fun xs => ∀ x ∈ xs, IsLowered x := by
  unfold transition
  refine .state ?_
  split
  · exact .pure (by simp)
  · extract_lets tail
    have htail : ∀ q move, (∀ x ∈ move, IsLowered x) →
        Makes p { s with supply := q } (tail move) fun xs => ∀ x ∈ xs, IsLowered x := by
      intro q move hm
      unfold tail
      split
      · refine (setResume_makes _).bind fun y q' hy => .pure fun x hx => ?_
        obtain hx | hx := List.mem_append.mp hx
        · exact hm x hx
        · cases List.mem_singleton.mp hx
          exact hy
      · exact .pure (by simpa using hm)
    split
    · exact htail s.supply [] (by simp)
    · exact (setState_makes _).bind fun y q hy => htail q [y] (by simpa using hy)

/-- The statements of an inlined state make a lowered expression. -/
theorem inlineState_ensures (h : Inv L s) (hr : (Fact.made r).Holds s) :
    Ensures p s (inlineState r) fun a s' => IsLowered a ∧ Inv L s' ∧ SamePlace s s' := by
  refine Makes.ensures ?_ h
  unfold inlineState
  refine .state ((transition_makes r).bind fun xs q hxs => ?_)
  extract_lets stmts
  have hstmts : ∀ x ∈ stmts, IsLowered x := by
    intro x hx
    obtain hx | hx := List.mem_append.mp hx
    · exact (h.wired r hr).stmts x (Array.mem_toList_iff.mp hx)
    · exact hxs x hx
  split
  · exact .build empty_builds
  · exact .build (typedBlock_builds hstmts)

/-- Storing the result of a state keeps the invariant. -/
theorem assignResult_ensures (h : Inv L s) (hv : IsLowered v) :
    Ensures p s (assignResult r v) fun _ s' => Inv L s' ∧ SamePlace s s' := by
  unfold assignResult
  refine .state ?_
  split
  · split
    · exact emit_ensures h hv
    · refine (build_ensures (ref_builds _) h).bind ?_
      rintro a s₁ ⟨ha, h1, p1⟩
      refine (build_ensures (coerce_builds hv) h1).bind ?_
      rintro b s₂ ⟨hb, h2, p2⟩
      refine (build_ensures (assign_builds ha hb) h2).bind ?_
      rintro c s₃ ⟨hc, h3, p3⟩
      refine (emit_ensures h3 hc).mono ?_
      rintro _ s₄ ⟨h4, p4⟩
      exact ⟨h4, ((p1.trans p2).trans p3).trans p4⟩
  · exact emit_ensures h hv

theorem resultRef_makes (r : StateRef) (t : Ty) : Makes p s (resultRef r t) IsLowered := by
  unfold resultRef
  refine .state ?_
  split
  · exact .build (ref_builds _)
  · exact .build (default_builds _)

/-- Spilling an operand keeps the invariant and leaves a lowered read. -/
theorem spill_ensures (h : Inv L s) (hx : IsLowered x) :
    Ensures p s (spill x) fun a s' => IsLowered a ∧ Inv L s' := by
  unfold spill
  split
  · exact Ensures.pure ⟨hx, h⟩
  · refine (newLocal_ensures _ _ h).bind ?_
    rintro tmp s₁ ⟨h1, _⟩
    refine (build_ensures (ref_builds tmp) h1).bind ?_
    rintro a s₂ ⟨ha, h2, _⟩
    refine (build_ensures (assign_builds ha hx) h2).bind ?_
    rintro b s₃ ⟨hb, h3, _⟩
    refine (emit_ensures h3 hb).bind ?_
    rintro _ s₄ ⟨h4, _⟩
    refine (build_ensures (ref_builds tmp) h4).mono ?_
    rintro c s₅ ⟨hc, h5, _⟩
    exact ⟨hc, h5⟩

/-- A state ends with a statement that transfers, and the code goes on where its arms meet. -/
theorem splitAt_ensures (h : Inv (L.hold n) s) (hx : IsLowered x) :
    Ensures p s (splitAt x n) fun _ s' => Inv L s' := by
  unfold splitAt
  refine (emit_ensures h hx).bind ?_
  rintro _ s₁ ⟨h1, _⟩
  refine (setTerminal_ensures h1).bind ?_
  rintro _ s₂ ⟨h2, hc, hp⟩
  rw [← hp.current] at hc
  exact goOnIn_ensures h2 hc

/-! ### Trees that are not split -/

/-- Binding rethrows to a variable keeps a tree lowered. -/
theorem bindRethrow_builds (w : Var) (hx : IsLowered x) : Builds (bindRethrow w x) IsLowered := by
  fun_induction bindRethrow w x with
  | case1 => exact Builds.pure hx
  | case2 => exact Builds.pure hx
  | case3 => exact (ref_builds w).bind fun a ha => throwAs_builds ha
  | case4 i r t body hs fin fault ihb ihf =>
    have ho := (lowered_node.mp hx).2
    simp only [mem_operands_protect] at ho
    refine (ihb (ho body (Or.inl rfl))).bind fun body' hb => ?_
    refine (ihf (ho fin (Or.inr (Or.inr (Or.inl rfl))))).bind fun fin' hf => ?_
    split
    · exact Builds.pure hx
    · refine withData_builds ⟨rfl, fun c hc => ?_⟩
      obtain rfl | hc | rfl | rfl := mem_operands_protect.mp hc
      · exact hb
      · exact ho c (Or.inr (Or.inl hc))
      · exact hf
      · exact ho c (Or.inr (Or.inr (Or.inr rfl)))
  | case5 i r t d _ _ _ ih => exact mapChildren_builds hx fun c hc hl => ih c (sizeOf_lt_of_mem_children hc) hl

theorem passThrough_makes (hx : IsLowered x) : Makes p s (passThrough x) IsLowered := by
  unfold passThrough
  refine .get ?_
  split
  · exact .pure hx
  · exact .build (bindRethrow_builds _ hx)

end Resumable.Split
