import Resumable.Proofs.Jumps

/-!
# `Proofs.Regions`: protected bodies and suspension points

A protected expression becomes one or two regions, and every part of it a run of states. The state after
the expression and the state of its cleanup block are promised before any part is visited; each part is
left for one of them. With the suspension points, `visit_ensures` covers every tree.
-/

namespace Resumable.Split

open Resumable.Expr Build

variable {p : Plan} {visit : Expr → Split Expr} {L : Ledger} {s : Splitter} {e x : Expr}
  {i r : Nat} {t : Ty} {d : Data Expr} {l : Label} {P : Protection} {g : GuardRef}

/-! ### Regions -/

/-- The states that the parts of a protected expression are left for. -/
structure Protects (L : Ledger) (P : Protection) : Prop where
  exit : Fact.state P.exit ∈ L.known
  entry : ∀ c, P.cleanup = some c → Fact.entry c.state ∈ L.known
  cleanup : ∀ c, P.cleanup = some c → Fact.cleanup c.guard ∈ L.known

theorem Protects.mono {L' : Ledger} (hP : Protects L P) (hsub : L.known ⊆ L'.known) : Protects L' P :=
  ⟨hsub hP.exit, fun c hc => hsub (hP.entry c hc), fun c hc => hsub (hP.cleanup c hc)⟩

theorem Protects.frame (hP : Protects L P) (h : Inv L s) (part : RegionPart) :
    ∀ g, (P.frame part).cleanup = some g → (Fact.cleanup g).Holds s := by
  intro g hg
  obtain ⟨c, hc, rfl⟩ := Option.map_eq_some_iff.mp hg
  exact h.known _ (hP.cleanup c hc)

theorem Left.silent (h : Left L s) (context : List GuardRef) (cleanups : Nat) (caught : Option Var)
    (vars : Array Var) : Left L { s with context, cleanups, caught, vars } :=
  ⟨h.inv.silent (Nat.le_refl _) _ _ _ _ _, h.done⟩

theorem Left.report_ensures {code : Code} (hcode : code.number < 2000) (e : Expr) (msg : String)
    (h : Left L s) : Ensures p s (report code e msg) fun _ s' =>
      Left L s' ∧ ¬ Quiet s'.reporter.seen ∧ s'.context = s.context := by
  intro u s' hrun
  obtain ⟨hinv, hnoisy, hcontext⟩ := Split.report_ensures hcode e msg h.inv u s' hrun
  cases hrun
  exact ⟨⟨hinv, h.done⟩, hnoisy, hcontext⟩

/-- A part of a protected expression is visited in a frame of its own. -/
theorem inFrame_ensures {f : Frame} {context : List GuardRef} {x : Split Unit}
    (hx : Ensures p { s with context, frames := s.frames ++ [f] } x fun _ s' => Left L s') :
    Ensures p s (inFrame f context x) fun _ s' => Left L s' := by
  unfold inFrame
  refine .modify (hx.bind fun _ s₁ h1 => ?_)
  exact Ensures.of_run rfl ⟨h1.inv.popFrame, h1.done⟩

theorem Left.pushFrame {f : Frame} (h : Left L s) (context : List GuardRef)
    (hf : ∀ g, f.cleanup = some g → (Fact.cleanup g).Holds s) :
    Left L { s with context, frames := s.frames ++ [f] } :=
  ⟨h.inv.pushFrame context hf, h.done⟩

/-- A part goes on in the cleanup block, and from there in the state after the expression. -/
theorem leave_ensures (hP : Protects L P) (h : Inv L s) :
    Ensures p s P.leave fun _ s' => Left L s' := by
  unfold Protection.leave leavePart
  refine .current ?_
  split
  · refine .get ?_
    extract_lets here
    split
    · rename_i c hc
      obtain ⟨part, hpart, rfl⟩ := Option.map_eq_some_iff.mp hc
      refine (setResume_setNext_ensures h h.current (h.known _ hP.exit)
        (h.known _ (hP.entry part hpart))).mono ?_
      rintro _ s₁ ⟨h1, hclosed, p1⟩
      rw [← p1.current] at hclosed
      exact h1.left hclosed
    · refine (setNext_ensures h h.current (h.known _ hP.exit)).mono ?_
      rintro _ s₁ ⟨h1, hclosed, p1⟩
      rw [← p1.current] at hclosed
      exact h1.left hclosed
  · rename_i hopen
    exact Ensures.pure ⟨h, fun _ => by simpa using hopen⟩

/-- The only region that shares the exit of a protected expression is that of its cleanup block, which
its handlers still see. -/
def Owns (P : Protection) (s : Splitter) : Prop :=
  ∀ a < s.graph.guards.size, (s.graph.guard a).exit = some P.exit →
    P.inner = a :: (s.graph.guard a).outer ∧ (s.graph.guard a).cleanup.isSome = true

/-- No region has this exit yet. -/
def Unused (exit : StateRef) (s : Splitter) : Prop :=
  ∀ a < s.graph.guards.size, (s.graph.guard a).exit ≠ some exit

theorem Unused.congr {exit : StateRef} {s' : Splitter} (h : Unused exit s)
    (hguards : s'.graph.guards = s.graph.guards) : Unused exit s' := by
  intro a ha
  unfold Graph.guard
  rw [hguards] at ha ⊢
  exact h a ha

theorem newExit_ensures (kind : StateKind) (origin : Expr) (t : Ty) (h : Inv L s) :
    Ensures p s (newState kind origin t) fun r s' => Unused r s' := by
  refine (newStateIn_frame s.context kind origin t).mono ?_
  rintro r s' ⟨hr, _, hguards⟩
  refine Unused.congr (s := s) (fun a ha hexit => ?_) hguards
  have hmade := (h.guarded a ha).exit r hexit
  rw [hr] at hmade
  exact absurd hmade (Nat.lt_irrefl _)

/-- The region of a cleanup block has its state, which is promised. -/
theorem openCleanup_ensures {exit : StateRef} (node : Nat) (fin : Expr) (h : Inv L s)
    (hexit : (Fact.made exit).Holds s) (hunused : Unused exit s) :
    Ensures p s (openCleanup exit fin) fun cleanup s' => Owns ⟨node, s.context, exit, cleanup⟩ s' ∧
      match cleanup with
      | none => fin.isAbsent = true ∧ Inv L s'
      | some c => Inv (((L.hold c.state).learn (.entry c.state)).learn (.cleanup c.guard)) s' := by
  unfold openCleanup
  split
  · rename_i habs
    exact Ensures.pure ⟨fun a ha he => absurd he (hunused a ha), habs, h⟩
  · refine .get (.modify ?_)
    have h0 := (h.learn hexit).silent (Nat.le_refl _) s.moments s.context (s.cleanups + 1) s.caught s.vars
    refine ((newState_ensures _ _ _ h0).and (newStateIn_frame _ _ _ _)).bind ?_
    rintro r s₁ ⟨⟨h1, p1, hentry⟩, _, _, g1⟩
    refine .modify ?_
    have h2 := (h1.learn (f := .entry r) (hentry (Nat.succ_pos _))).silent (Nat.le_refl _) s₁.moments
      s₁.context (s₁.cleanups - 1) s₁.caught s₁.vars
    refine ((newLocal_ensures _ _ h2).and (newLocal_frame _ _)).bind ?_
    rintro caught s₂ ⟨⟨h3, p2⟩, g2, _⟩
    refine ((newLocal_ensures _ _ h3).and (newLocal_frame _ _)).bind ?_
    rintro parked s₃ ⟨⟨h4, p3⟩, g3, _⟩
    have hun : Unused exit s₃ := hunused.congr (by rw [g3, g2]; exact g1)
    have hguard : Guarded s₃ { cleanup := some r, exit := some exit, caught := some caught,
                               parked := some parked, outer := s.context } :=
      { handlers := fun c hc => by cases hc
        cleanup := fun c hc => by
          cases hc
          exact ⟨h4.recall, h4.forget.recall, rfl⟩
        apart := fun _ => rfl
        propagate := fun q hq => by cases hq
        disposeExit := fun q hq => by cases hq
        exit := fun q hq => by
          cases hq
          exact h4.known _ (by simp [Ledger.learn, Ledger.hold]) }
    -- the new region is the only one with this exit
    have h5 := h4.addGuard hguard fun a ha he => absurd he (hun a ha)
    refine Ensures.of_run rfl ⟨fun a ha => ?_, Inv.learn (L := (L.hold r).learn (.entry r)) ?_
      ⟨h5.recall.1, ?_⟩⟩
    · show (Graph.guard { s₃.graph with guards := s₃.graph.guards.push _ } a).exit = _ → _
      rw [guard_push]
      split
      · rename_i heq
        subst heq
        exact fun _ => ⟨rfl, rfl⟩
      · rename_i hne
        have hle := Nat.le_of_lt_succ (Nat.lt_of_lt_of_eq ha (Array.size_push _))
        exact fun he => absurd he (hun a (Nat.lt_of_le_of_ne hle hne))
    · refine h5.weaken rfl rfl rfl (fun _ => Iff.rfl) (fun _ hq => hq) h5.held fun f hf => ?_
      simp only [Ledger.learn, Ledger.hold, List.mem_cons] at hf ⊢
      grind
    · show (Graph.guard { s₃.graph with guards := s₃.graph.guards.push _ } _).cleanup.isSome = true
      rw [guard_push, if_pos rfl]
      rfl

/-- The region of the handlers stands inside that of the cleanup block. -/
theorem openHandlers_ensures (hP : Protects L P) (h : Inv L s) (howns : Owns P s) :
    Ensures p s (openHandlers P) fun q s' => Inv (L.learn (.region q.1 none P.inner)) s' := by
  unfold openHandlers
  refine ((newLocal_ensures _ _ h).and (newLocal_frame _ _)).bind ?_
  rintro caught s₁ ⟨⟨h1, _⟩, g1, _⟩
  refine Ensures.of_run rfl (h1.addGuard (i := { exit := some P.exit, caught := some caught,
                                                 outer := P.inner }) ?_ fun a ha he => ?_)
  · exact { handlers := fun c hc => by cases hc
            cleanup := fun c hc => by cases hc
            apart := fun _ => rfl
            propagate := fun q hq => by cases hq
            disposeExit := fun q hq => by cases hq
            exit := fun q hq => by
              cases hq
              exact (h1.known _ hP.exit).1 }
  · rw [g1] at ha he ⊢
    exact ⟨(howns a ha he).1, (howns a ha he).2, rfl⟩

/-! ### Parts of a protected expression -/

/-- The body of a protected region is split with the region around it. -/
theorem visitProtected_ensures (hv : Visits p visit) {body : Expr} (hP : Protects L P) (h : Inv L s)
    (hbody : Fits p L.goals body) : Ensures p s (visitProtected visit P body) fun _ s' =>
      Left (L.enter (p.index.marks body)) s' := by
  unfold visitProtected
  refine (newState_ensures _ _ _ h).bind ?_
  rintro r s₁ ⟨h1, _, _⟩
  refine .get ?_
  refine (setNext_ensures h1.forget h1.current h1.forget.recall).bind ?_
  rintro _ s₂ ⟨h2, hclosed, p2⟩
  rw [← p2.current] at hclosed
  refine (goOnIn_ensures (L := L) h2.forget hclosed).bind fun _ s₃ h3 => ?_
  refine (hv body L s₃ h3 hbody).bind ?_
  rintro v s₄ ⟨hval, h4⟩
  refine (assignResult_ensures h4 hval).bind ?_
  rintro _ s₅ ⟨h5, _⟩
  exact leave_ensures (L := L.enter (p.index.marks body)) ⟨hP.exit, hP.entry, hP.cleanup⟩ h5

/-- A region learns about a handler that begins in the context outside of it. -/
theorem addHandler_ensures {c : Catch} (h : Inv L s) (hg : (Fact.region g none P.inner).Holds s)
    (hstate : (Fact.state c.state).Holds s) (hcontext : (Fact.context c.state P.inner).Holds s)
    (hfilter : Quiet s.reporter.seen → IsLowered c.filter) :
    Ensures p s (modifyGuard g fun info => { info with handlers := info.handlers ++ [c] })
      fun _ s' => Inv L s' ∧ s'.current = s.current ∧ s'.states = s.states ∧
        s'.graph.states = s.graph.states := by
  refine Ensures.of_run rfl ⟨h.modifyGuard rfl rfl rfl fun hlt => ?_, rfl, rfl, rfl⟩
  have hold := h.guarded g hlt
  refine { handlers := fun c' hc' => ?_, cleanup := hold.cleanup,
           apart := fun hc => absurd hc (by simp [hg.2.2]), propagate := hold.propagate,
           disposeExit := hold.disposeExit, exit := hold.exit }
  obtain hc' | hc' := List.mem_append.mp hc'
  · exact hold.handlers c' hc'
  · cases List.mem_singleton.mp hc'
    refine ⟨hstate, ?_, hfilter⟩
    show (Fact.context c.state (s.graph.guard g).outer).Holds s
    rw [hg.2.1]
    exact hcontext

/-- A handler is split in a state of its own, outside the region it handles. -/
theorem visitHandler_ensures (hv : Visits p visit) {h : Handler Expr} {caught : Var}
    (hP : Protects L P) (hs : Left L s) (hg : Fact.region g none P.inner ∈ L.known)
    (hcontext : s.context = P.inner) (hfilter : Body h.filter) (hbody : Fits p L.goals h.body) :
    Ensures p s (visitHandler visit P g caught h) fun _ s' =>
      Left ((L.enter (p.index.marks h.filter)).enter (p.index.marks h.body)) s' := by
  unfold visitHandler
  refine .needs ?_
  extract_lets tail
  -- a filter that would have to be split is an error, and the handler is visited all the same
  have htail : ∀ s₁, Left (L.enter (p.index.marks h.filter)) s₁ → s₁.context = P.inner →
      (Quiet s₁.reporter.seen → IsLowered h.filter) → Ensures p s₁ (tail ⟨⟩) fun _ s' =>
        Left ((L.enter (p.index.marks h.filter)).enter (p.index.marks h.body)) s' := by
    intro s₁ h1 hc1 hlow
    have h1' : Left ((L.enter (p.index.marks h.filter)).since s₁.reporter.seen)
        { s₁ with vars := s₁.vars ++ h.var.toArray } :=
      ⟨(h1.silent s₁.context s₁.cleanups s₁.caught (s₁.vars ++ h.var.toArray)).inv.since, h1.done⟩
    refine .modify ((h1'.newState_ensures _ _ _).bind ?_)
    rintro r s₂ ⟨h2, p2⟩
    refine (Left.goOnIn_ensures (L := (((L.enter (p.index.marks h.filter)).since
      s₁.reporter.seen).learn (.state r)).learn (.context r s₁.context)) h2).bind ?_
    rintro _ s₃ ⟨h3, _⟩
    refine .modify ?_
    refine (hv h.body _ _ (h3.silent (Nat.le_refl _) s₃.moments s₃.context s₃.cleanups (some caught)
      s₃.vars) hbody).bind ?_
    rintro v s₄ ⟨hval, h4⟩
    refine (assignResult_ensures h4 hval).bind ?_
    rintro _ s₅ ⟨h5, _⟩
    refine (leave_ensures (hP.mono fun f hf => ?_) h5).bind fun _ s₆ h6 => ?_
    · exact List.mem_cons_of_mem _ (List.mem_cons_of_mem _ hf)
    have hctx : (Fact.context r P.inner).Holds s₆ := hc1 ▸ h6.inv.known _ List.mem_cons_self
    refine (addHandler_ensures (P := P) h6.inv
      (h6.inv.known _ (List.mem_cons_of_mem _ (List.mem_cons_of_mem _ hg)))
      (h6.inv.known _ (List.mem_cons_of_mem _ List.mem_cons_self)) hctx
      fun hq => hlow (hq.mono h6.inv.base)).mono ?_
    rintro _ s₇ ⟨h7, hcur, hst, hgr⟩
    refine ⟨?_, ?_⟩
    · refine Inv.unsince (Inv.forget (Inv.forget h7)) fun f hf => ?_
      exact h1.inv.base hf
    · rw [hcur, hst, Graph.state, hgr]
      exact h6.done
  split
  · rename_i hneeds
    refine (hs.report_ensures (by decide) _ _).bind ?_
    rintro _ s₁ ⟨h1, hnoisy, hc1⟩
    exact htail s₁ ⟨h1.inv.noisy hnoisy _, h1.done⟩ (hc1.trans hcontext) fun hq => absurd hq hnoisy
  · rename_i hneeds
    have hno : p.index.needed h.filter = false := by simpa using hneeds
    refine htail s ?_ hcontext fun _ => lowered_of_not_needed hfilter hno
    rw [JumpIndex.marks_of_not_needed hno]
    exact hs

/-- A fault block is split like a handler that raises what it caught once more. -/
theorem visitFault_ensures (hv : Visits p visit) {fault : Expr} {caught : Var} (hs : Left L s)
    (hg : Fact.region g none P.inner ∈ L.known) (hcontext : s.context = P.inner)
    (hfault : Fits p L.goals fault) : Ensures p s (visitFault visit g caught fault) fun _ s' =>
      Left (L.enter (p.index.marks fault)) s' := by
  unfold visitFault
  refine (hs.newState_ensures _ _ _).bind ?_
  rintro r s₁ ⟨h1, _⟩
  refine (Left.goOnIn_ensures (L := (L.learn (.state r)).learn (.context r s.context)) h1).bind ?_
  rintro _ s₂ ⟨h2, _⟩
  refine .modify ?_
  refine (hv fault _ _ (h2.silent (Nat.le_refl _) s₂.moments s₂.context s₂.cleanups (some caught)
    s₂.vars) hfault).bind ?_
  rintro v s₃ ⟨hval, h3⟩
  refine (emit_ensures h3 hval).bind ?_
  rintro _ s₄ ⟨h4, _⟩
  refine (build_ensures (ref_builds caught) h4).bind ?_
  rintro a s₅ ⟨ha, h5, _⟩
  refine (build_ensures (raise_builds ha) h5).bind ?_
  rintro b s₆ ⟨hb, h6, _⟩
  refine (emit_ensures h6 hb).bind ?_
  rintro _ s₇ ⟨h7, _⟩
  refine (endWithJump_ensures h7).bind fun _ s₈ h8 => ?_
  have hctx : (Fact.context r P.inner).Holds s₈ := hcontext ▸ h8.inv.known _ List.mem_cons_self
  refine (addHandler_ensures (P := P) h8.inv
    (h8.inv.known _ (List.mem_cons_of_mem _ (List.mem_cons_of_mem _ hg)))
    (h8.inv.known _ (List.mem_cons_of_mem _ List.mem_cons_self)) hctx
    fun _ => lowered_absent).mono ?_
  rintro _ s₉ ⟨h9, hcur, hst, hgr⟩
  refine ⟨Inv.forget (Inv.forget h9), ?_⟩
  rw [hcur, hst, Graph.state, hgr]
  exact h8.done

/-- The labels of the handlers of a protected expression. -/
def handlerMarks (p : Plan) (hs : List (Handler Expr)) : List Label :=
  hs.flatMap fun h => p.index.marks h.filter ++ p.index.marks h.body

theorem Left.enter_append {ls ls' : List Label} (h : Left ((L.enter ls).enter ls') s) :
    Left (L.enter (ls ++ ls')) s :=
  ⟨h.inv.enter_append, h.done⟩

/-- The handlers are visited in order, each in a frame of its own. -/
theorem visitHandlers_ensures (hv : Visits p visit) {handlers : List (Handler Expr)} {caught : Var}
    (hP : Protects L P) (hs : Left L s) (hg : Fact.region g none P.inner ∈ L.known)
    (hfilter : ∀ h ∈ handlers, Body h.filter) (hbody : ∀ h ∈ handlers, Fits p L.goals h.body) :
    Ensures p s (forIn handlers.zipIdx PUnit.unit fun (h, i) (_ : PUnit) => do
        inFrame (P.frame (.handler i)) P.inner (visitHandler visit P g caught h)
        pure (ForInStep.yield PUnit.unit))
      fun _ s' => Left (L.enter (handlerMarks p handlers)) s' := by
  refine (Ensures.forIn (I := fun (rest : List (Handler Expr × Nat)) _ s' =>
    ∃ done, handlers = done ++ rest.map (·.1) ∧ Left (L.enter (handlerMarks p done)) s')
    ⟨[], by simp, hs⟩ ?_).mono ?_
  · rintro ⟨h, i⟩ rest _ s₁ ⟨done, rfl, h1⟩
    have hmem : h ∈ done ++ ((h, i) :: rest).map (·.1) := by simp
    refine Ensures.bind (inFrame_ensures (visitHandler_ensures hv
      (L := L.enter (handlerMarks p done)) ?_ (h1.pushFrame _ ?_) hg rfl (hfilter h hmem)
      (hbody h hmem))) fun _ s₂ h2 => ?_
    · exact hP.mono fun _ hf => hf
    · exact Protects.frame (L := L.enter (handlerMarks p done)) (hP.mono fun _ hf => hf) h1.inv _
    refine Ensures.pure ⟨_, rfl, done ++ [h], by simp, ?_⟩
    simp only [handlerMarks, List.flatMap_append, List.flatMap_singleton] at h2 ⊢
    exact (Left.enter_append (L := L.enter _) h2).enter_append
  · rintro _ s₁ ⟨done, rfl, h1⟩
    simpa using h1

theorem marks_of_isAbsent (h : e.isAbsent = true) : p.index.marks e = [] :=
  JumpIndex.marks_of_not_needed (by simp [JumpIndex.needed, h])

/-- The body is split inside the region, and the handlers outside of it. -/
theorem visitHandled_ensures (hv : Visits p visit) {body fault : Expr}
    {handlers : List (Handler Expr)} (hP : Protects L P) (h : Inv L s) (howns : Owns P s)
    (hbody : Fits p L.goals body) (hfilter : ∀ h ∈ handlers, Body h.filter)
    (hhandler : ∀ h ∈ handlers, Fits p L.goals h.body)
    (hfault : Fits p L.goals fault) :
    Ensures p s (visitHandled visit P body handlers fault) fun _ s' =>
      Left (L.enter (p.index.marks body ++ (handlerMarks p handlers ++ p.index.marks fault))) s' := by
  unfold visitHandled
  split
  · -- without handlers and fault there is only the protected body
    rename_i hnone
    obtain ⟨hempty, habs⟩ : handlers.isEmpty = true ∧ fault.isAbsent = true := by simpa using hnone
    rw [List.isEmpty_iff.mp hempty, marks_of_isAbsent habs]
    simp only [handlerMarks, List.flatMap_nil, List.append_nil]
    exact inFrame_ensures (visitProtected_ensures hv hP (h.pushFrame _ (hP.frame h _)) hbody)
  · refine (openHandlers_ensures hP h howns).bind ?_
    rintro ⟨g, caught⟩ s₁ h1
    have hP1 : Protects (L.learn (.region g none P.inner)) P :=
      hP.mono fun f hf => List.mem_cons_of_mem _ hf
    refine (inFrame_ensures (visitProtected_ensures hv hP1 (h1.pushFrame _ (hP1.frame h1 _))
      hbody)).bind fun _ s₂ h2 => .get ?_
    have hP2 : Protects ((L.learn (.region g none P.inner)).enter (p.index.marks body)) P :=
      hP1.mono fun _ hf => hf
    extract_lets saved tail
    refine (visitHandlers_ensures hv hP2 h2 List.mem_cons_self hfilter hhandler).bind
      fun _ s₃ h3 => ?_
    have htail : ∀ s₄, Left ((((L.learn (.region g none P.inner)).enter (p.index.marks body)).enter
          (handlerMarks p handlers)).enter (p.index.marks fault)) s₄ →
        Ensures p s₄ (tail ⟨⟩) fun _ s' =>
          Left (L.enter (p.index.marks body ++ (handlerMarks p handlers ++ p.index.marks fault))) s' := by
      intro s₄ h4
      exact Ensures.of_run rfl ((Left.enter_append (Left.enter_append
        ⟨Inv.forget h4.inv, h4.done⟩)).silent _ _ _ _)
    split
    · refine (inFrame_ensures (visitFault_ensures hv (P := P) (h3.pushFrame _ ?_) List.mem_cons_self
        rfl hfault)).bind fun _ s₄ h4 => htail s₄ h4
      exact Protects.frame (L := ((L.learn (.region g none P.inner)).enter (p.index.marks body)).enter
        (handlerMarks p handlers)) (hP1.mono fun _ hf => hf) h3.inv _
    · rename_i habs
      refine htail s₃ ?_
      rw [marks_of_isAbsent (e := fault) (by simpa using habs)]
      exact h3

/-- A cleanup block is split in its own state and ends by going on where the machine was headed. -/
theorem visitCleanup_ensures (hv : Visits p visit) {block : Expr} {parked : Var}
    (hs : Left (L.hold r) s) (hblock : Fits p L.goals block) :
    Ensures p s (visitCleanup visit r parked block) fun _ s' =>
      Left (L.enter (p.index.marks block)) s' := by
  unfold visitCleanup
  refine .modify (((hs.silent s.context (s.cleanups + 1) s.caught s.vars).goOnIn_ensures).bind ?_)
  rintro _ s₁ ⟨h1, _⟩
  refine (build_ensures (ref_builds _) h1).bind ?_
  rintro a s₂ ⟨ha, h2, _⟩
  refine .read ?_
  refine (build_ensures (ref_builds _) h2).bind ?_
  rintro b s₃ ⟨hb, h3, _⟩
  refine (build_ensures (assign_builds ha hb) h3).bind ?_
  rintro c s₄ ⟨hc, h4, _⟩
  refine (emit_ensures h4 hc).bind ?_
  rintro _ s₅ ⟨h5, _⟩
  -- parked by now, so that the block may use the resume slot
  refine (hv block _ s₅ h5 hblock).bind ?_
  rintro v s₆ ⟨hval, h6⟩
  refine (emit_ensures h6 hval).bind ?_
  rintro _ s₇ ⟨h7, _⟩
  refine .read ?_
  refine (build_ensures (ref_builds _) h7).bind ?_
  rintro a s₈ ⟨ha, h8, _⟩
  refine (build_ensures (ref_builds _) h8).bind ?_
  rintro b s₉ ⟨hb, h9, _⟩
  refine (build_ensures (assign_builds ha hb) h9).bind ?_
  rintro c s₁₀ ⟨hc, h10, _⟩
  refine (emit_ensures h10 hc).bind ?_
  rintro _ s₁₁ ⟨h11, _⟩
  refine (setTerminal_ensures h11).bind ?_
  rintro _ s₁₂ ⟨h12, hclosed, p12⟩
  rw [← p12.current] at hclosed
  exact Ensures.of_run rfl ((h12.left hclosed).silent _ _ _ _)

theorem mem_marks_protect {body fin fault : Expr} {handlers : List (Handler Expr)}
    (hn : p.index.needed (.node i r t (.protect body handlers fin fault)) = true) (l : Label) :
    l ∈ p.index.marks (.node i r t (.protect body handlers fin fault)) ↔
      l ∈ p.index.marks body ++ (handlerMarks p handlers ++ p.index.marks fault) ++
        p.index.marks fin := by
  rw [JumpIndex.mem_marks_node hn]
  simp only [placedHere, mem_operands_protect, handlerMarks, List.mem_append, List.mem_flatMap]
  grind

/-- A protected region is opened for the body, its handlers and its cleanup block. -/
theorem visitTry_ensures (hv : Visits p visit) {body fin fault : Expr} {handlers : List (Handler Expr)}
    (h : Starts p L s (.node i r t (.protect body handlers fin fault))) :
    Ensures p s (visitTry visit (.node i r t (.protect body handlers fin fault)) body handlers fin fault)
      (Visited p L (.node i r t (.protect body handlers fin fault))) := by
  have hops : ∀ c ∈ operands (.protect body handlers fin fault), Fits p L.goals c :=
    fun c hc => h.fits.operand h.needed hc
  simp only [mem_operands_protect] at hops
  unfold visitTry
  refine .get ?_
  extract_lets outer
  refine ((newState_ensures _ _ _ h.inv).and (newExit_ensures _ _ _ h.inv)).bind ?_
  rintro exit s₁ ⟨⟨h1, p1, _⟩, hunused⟩
  refine (openCleanup_ensures i fin h1.forget h1.forget.recall.1 hunused).bind ?_
  rintro cleanup s₂ ⟨howns, h2⟩
  rw [p1.context] at howns
  -- whatever the region has become, it goes on at its exit
  have hafter : ∀ s', Left (((L.hold exit).enter
        (p.index.marks body ++ (handlerMarks p handlers ++ p.index.marks fault))).enter
        (p.index.marks fin)) s' →
      Ensures p s' (do
        modify fun s => { s with context := outer }
        goOnIn exit
        resultRef exit t) (Visited p L (.node i r t (.protect body handlers fin fault))) := by
    intro s' h'
    refine .modify (Ensures.bind (Left.goOnIn_ensures (L := L.enter _)
      (h'.enter_append.silent outer s'.cleanups s'.caught s'.vars)) ?_)
    rintro _ s₃ ⟨h3, _⟩
    refine ((resultRef_makes exit _).ensures h3).mono ?_
    rintro w s₄ ⟨hw, h4, _⟩
    refine ⟨hw, ?_⟩
    exact h4.enter_congr (mem_marks_protect h.needed)
  cases cleanup with
  | none =>
    obtain ⟨habs, h2⟩ := h2
    have hP : Protects ((L.hold exit).learn (.state exit)) ⟨i, outer, exit, none⟩ :=
      ⟨List.mem_cons_self, fun c hc => by (cases hc), fun c hc => by (cases hc)⟩
    refine (visitHandled_ensures hv hP h2 howns (hops body (Or.inl rfl))
      (fun c hc => (hops c.filter (Or.inr (Or.inl ⟨c, hc, Or.inl rfl⟩))).body)
      (fun c hc => hops c.body (Or.inr (Or.inl ⟨c, hc, Or.inr rfl⟩)))
      (hops fault (Or.inr (Or.inr (Or.inr rfl))))).bind fun _ s₃ h3 => ?_
    refine hafter s₃ ⟨?_, h3.done⟩
    rw [marks_of_isAbsent habs]
    exact Inv.forget h3.inv
  | some c =>
    have hP : Protects ((((L.hold exit).hold c.state).learn (.state exit)).learn
        (.entry c.state) |>.learn (.cleanup c.guard)) ⟨i, outer, exit, some c⟩ := by
      refine ⟨by simp [Ledger.learn], fun c' hc => ?_, fun c' hc => ?_⟩ <;>
        (cases hc; simp [Ledger.learn])
    refine (visitHandled_ensures hv hP h2 howns (hops body (Or.inl rfl))
      (fun c hc => (hops c.filter (Or.inr (Or.inl ⟨c, hc, Or.inl rfl⟩))).body)
      (fun c hc => hops c.body (Or.inr (Or.inl ⟨c, hc, Or.inr rfl⟩)))
      (hops fault (Or.inr (Or.inr (Or.inr rfl))))).bind fun _ s₃ h3 => ?_
    have h4 : Left (((L.hold exit).enter (p.index.marks body ++ (handlerMarks p handlers ++
        p.index.marks fault))).hold c.state) s₃ :=
      ⟨Inv.forget (Inv.forget (Inv.forget h3.inv)), h3.done⟩
    refine (inFrame_ensures (visitCleanup_ensures hv (h4.pushFrame outer fun g hg => by cases hg)
      (hops fin (Or.inr (Or.inr (Or.inl rfl)))))).bind fun _ s₅ h5 => ?_
    exact hafter s₅ h5

/-! ### Suspension points -/

/-- What an await waits for is lowered. -/
theorem awaitSource_makes {configured : Option Bool} (hx : IsLowered x) :
    Makes p s (awaitSource? x configured) fun q => IsLowered q.1 := by
  unfold awaitSource?
  refine (Makes.build (typeOf_builds x)).bind fun u q _ => ?_
  split
  · exact .pure hx
  · split
    · exact .pure hx
    · refine (Makes.build (constBool_builds _)).bind fun b q hb => ?_
      refine (Makes.build (methodCall_builds hx (by simpa using hb))).bind fun c q hc => ?_
      exact .pure hc

/-- The number of the next state is stored before the transition. -/
theorem markStored_ensures (h : Inv L s) :
    Ensures p s (modifyState r fun st => { st with stored := true }) fun _ s' =>
      Inv L s' ∧ SamePlace s s' := by
  refine Ensures.of_run rfl ⟨h.modifyState ⟨rfl, rfl, rfl, fun hc => hc⟩ fun hr => ?_,
    ⟨rfl, rfl, rfl, rfl, rfl, rfl⟩⟩
  exact ⟨(h.wired r hr).stmts, (h.wired r hr).next, (h.wired r hr).resume⟩

/-- An await gets a state to be resumed in. -/
theorem visitAwait_ensures (hv : Visits p visit) {operand : Expr} {configured : Option Bool}
    (h : Starts p L s (.node i r t (.await operand configured))) :
    Ensures p s (visitAwait visit (.node i r t (.await operand configured)) operand configured)
      (Visited p L (.node i r t (.await operand configured))) := by
  have hmarks : ∀ {s'}, Inv (L.enter (p.index.marks operand)) s' →
      Inv (L.enter (p.index.marks (.node i r t (.await operand configured)))) s' := by
    intro s' h'
    refine Inv.enter_operands (d := .await operand configured) ?_ h.needed rfl
    rw [operands, List.flatMap_singleton]
    exact h'
  unfold visitAwait
  refine .read ?_
  split
  · refine .read ((report_ensures (by decide) _ _ h.inv).bind ?_)
    rintro _ s₁ ⟨h1, hnoisy, _⟩
    exact (build_ensures (default_builds _) (h1.noisy hnoisy _)).mono fun w s₂ hw => ⟨hw.1, hw.2.1⟩
  · rename_i continuation _
    refine (hv operand L s h.inv (h.fits.operand h.needed List.mem_cons_self)).bind ?_
    rintro v s₁ ⟨hval, h1⟩
    refine ((awaitSource_makes hval).ensures h1).bind ?_
    rintro ⟨source, awaiter?⟩ s₂ ⟨hsource, h2, _⟩
    dsimp only
    split
    · refine (report_ensures (by decide) _ _ h2).bind ?_
      rintro _ s₃ ⟨h3, hnoisy, _⟩
      refine (build_ensures (default_builds _) h3).mono ?_
      rintro w s₄ ⟨hw, h4, _⟩
      exact ⟨hw, hmarks h4⟩
    · refine (newLocal_ensures _ _ h2).bind ?_
      rintro awaiter s₃ ⟨h3, _⟩
      refine (newState_ensures _ _ _ h3).bind ?_
      rintro next s₄ ⟨h4, _, _⟩
      refine (build_ensures (ref_builds _) h4).bind ?_
      rintro a s₅ ⟨ha, h5, _⟩
      refine (build_ensures (methodCall_builds hsource (by simp)) h5).bind ?_
      rintro b s₆ ⟨hb, h6, _⟩
      refine (build_ensures (assign_builds ha hb) h6).bind ?_
      rintro c s₇ ⟨hc, h7, _⟩
      refine (emit_ensures h7 hc).bind ?_
      rintro _ s₈ ⟨h8, _⟩
      refine ((setState_makes next).ensures h8).bind ?_
      rintro a s₉ ⟨ha, h9, _⟩
      refine (emit_ensures h9 ha).bind ?_
      rintro _ s₁₀ ⟨h10, _⟩
      -- the machine is left only while the operation is pending
      refine (build_ensures (ref_builds _) h10).bind ?_
      rintro a s₁₁ ⟨ha, h11, _⟩
      refine (build_ensures (methodCall_builds ha (by simp)) h11).bind ?_
      rintro b s₁₂ ⟨hb, h12, _⟩
      refine (build_ensures (not_builds hb) h12).bind ?_
      rintro pending s₁₃ ⟨hpending, h13, _⟩
      refine (build_ensures (ref_builds _) h13).bind ?_
      rintro a s₁₄ ⟨ha, h14, _⟩
      refine (build_ensures (ref_builds _) h14).bind ?_
      rintro b s₁₅ ⟨hb, h15, _⟩
      refine (build_ensures (methodCall_builds ha (by simpa using hb)) h15).bind ?_
      rintro register s₁₆ ⟨hregister, h16, _⟩
      refine ((leaveDispatch_makes lowered_absent).ensures h16).bind ?_
      rintro a s₁₇ ⟨ha, h17, _⟩
      refine (build_ensures (typedBlock_builds (by simp [hregister, ha])) h17).bind ?_
      rintro b s₁₈ ⟨hb, h18, _⟩
      refine (build_ensures (ifThen_builds hpending hb) h18).bind ?_
      rintro c s₁₉ ⟨hc, h19, _⟩
      refine (emit_ensures h19 hc).bind ?_
      rintro _ s₂₀ ⟨h20, _⟩
      refine .get ?_
      refine (markStored_ensures h20).bind ?_
      rintro _ s₂₁ ⟨h21, p21⟩
      rw [← p21.current]
      refine (setNext_ensures h21 h21.current h21.forget.recall).bind ?_
      rintro _ s₂₂ ⟨h22, hclosed, p22⟩
      rw [← p22.current] at hclosed
      refine (goOnIn_ensures (L := L.enter (p.index.marks operand)) (Inv.forget (Inv.forget h22))
        hclosed).bind fun _ s₂₃ h23 => ?_
      refine (build_ensures (ref_builds _) h23).bind ?_
      rintro a s₂₄ ⟨ha, h24, _⟩
      refine (build_ensures (methodCall_builds ha (by simp)) h24).mono ?_
      rintro w s₂₅ ⟨hw, h25, _⟩
      exact ⟨hw, hmarks h25⟩

/-- A yield gets a state to be resumed in. -/
theorem visitYield_ensures (hv : Visits p visit) {value : Expr}
    (h : Starts p L s (.node i r t (.yield value))) :
    Ensures p s (visitYield visit (.node i r t (.yield value)) value)
      (Visited p L (.node i r t (.yield value))) := by
  have hmarks : ∀ {s'}, Inv (L.enter (p.index.marks value)) s' →
      Inv (L.enter (p.index.marks (.node i r t (.yield value)))) s' := by
    intro s' h'
    refine Inv.enter_operands (d := .yield value) ?_ h.needed rfl
    rw [operands, List.flatMap_singleton]
    exact h'
  unfold visitYield
  extract_lets tail
  -- a yield that is refused has no value either
  have htail : ∀ s₁, Inv (L.enter (p.index.marks (.node i r t (.yield value)))) s₁ →
      Ensures p s₁ (tail ⟨⟩) (Visited p L (.node i r t (.yield value))) := by
    intro s₁ h1
    refine (build_ensures empty_builds h1).mono ?_
    rintro w s₂ ⟨hw, h2, _⟩
    exact ⟨hw, h2⟩
  refine .read ?_
  split
  · refine .read ((report_ensures (by decide) _ _ h.inv).bind ?_)
    rintro _ s₁ ⟨h1, hnoisy, _⟩
    exact htail s₁ (h1.noisy hnoisy _)
  · refine .get ?_
    split
    · refine (report_ensures (by decide) _ _ h.inv).bind ?_
      rintro _ s₁ ⟨h1, hnoisy, _⟩
      exact htail s₁ (h1.noisy hnoisy _)
    · -- the value is handed out, and the machine left until the next state is asked for
      refine (hv value L s h.inv (h.fits.operand h.needed List.mem_cons_self)).bind ?_
      rintro v s₁ ⟨hval, h1⟩
      refine (newState_ensures _ _ _ h1).bind ?_
      rintro next s₂ ⟨h2, _, _⟩
      have h3 := h2.modifyState (r := next) (f := fun st => { st with afterYield := true })
        ⟨rfl, rfl, rfl, fun hc => hc⟩ fun hr =>
          ⟨(h2.wired next hr).stmts, (h2.wired next hr).next, (h2.wired next hr).resume⟩
      refine .modify ?_
      refine (build_ensures (ref_builds _) h3).bind ?_
      rintro a s₄ ⟨ha, h4, _⟩
      refine (build_ensures (field_builds ha) h4).bind ?_
      rintro b s₅ ⟨hb, h5, _⟩
      refine (build_ensures (coerce_builds hval) h5).bind ?_
      rintro c s₆ ⟨hc, h6, _⟩
      refine (build_ensures (assign_builds hb hc) h6).bind ?_
      rintro a s₇ ⟨ha, h7, _⟩
      refine (emit_ensures h7 ha).bind ?_
      rintro _ s₈ ⟨h8, _⟩
      refine ((setState_makes next).ensures h8).bind ?_
      rintro a s₉ ⟨ha, h9, _⟩
      refine (emit_ensures h9 ha).bind ?_
      rintro _ s₁₀ ⟨h10, _⟩
      refine (build_ensures (constBool_builds true) h10).bind ?_
      rintro a s₁₁ ⟨ha, h11, _⟩
      refine ((leaveDispatch_makes ha).ensures h11).bind ?_
      rintro b s₁₂ ⟨hb, h12, _⟩
      refine (emit_ensures h12 hb).bind ?_
      rintro _ s₁₃ ⟨h13, _⟩
      refine (setTerminal_ensures h13).bind ?_
      rintro _ s₁₄ ⟨h14, hclosed, p14⟩
      rw [← p14.current] at hclosed
      refine (goOnIn_ensures (L := L.enter (p.index.marks value)) (Inv.forget (Inv.forget h14))
        hclosed).bind fun _ s₁₅ h15 => ?_
      exact htail s₁₅ (hmarks h15)

/-! ### All cases -/

/-- **Splitting one node** keeps the invariant, given that visiting an operand does. -/
theorem visitNode_ensures (hv : Visits p visit) (h : Starts p L s e) :
    Ensures p s (visitNode visit e) (Visited p L e) := by
  cases e with
  | absent => exact absurd h.needed (by simp [JumpIndex.needed, isAbsent])
  | node i r t d =>
    unfold visitNode
    refine Ensures.bind (R := fun d' s' => d = d' ∧ s = s') (Ensures.of_run rfl ⟨rfl, rfl⟩) ?_
    rintro _ _ ⟨rfl, rfl⟩
    cases d with
    | block vars xs => exact visitBlock_ensures hv h
    | assign op target value => exact visitAssign_ensures hv h
    | binary op left right method => exact visitBinary_ensures hv h
    | unary op x method =>
      exact visitOne_ensures hv h rfl rfl fun v hval => ⟨rfl, by simpa [operands] using hval⟩
    | typeIs x u =>
      exact visitOne_ensures hv h rfl rfl fun v hval => ⟨rfl, by simpa [operands] using hval⟩
    | field object name =>
      exact visitOne_ensures hv h rfl rfl fun v hval => ⟨rfl, by simpa [operands] using hval⟩
    | throw value => exact visitThrow_ensures hv h
    | call fn args => exact visitCall_ensures hv h
    | methodCall receiver name args => exact visitMethodCall_ensures hv h
    | conditional test a b => exact visitConditional_ensures hv h
    | switch value cases default comparer => exact visitSwitch_ensures hv h
    | loop body brk cont => exact visitLoop_ensures hv h
    | protect body handlers fin fault => exact visitTry_ensures hv h
    | goto k l value => exact visitGoto_ensures hv h
    | label l default => exact visitLabel_ensures hv h
    | await operand configured => exact visitAwait_ensures hv h
    | yield value => exact visitYield_ensures hv h
    | constant value => exact Ensures.throw _
    | default => exact Ensures.throw _
    | var v => exact Ensures.throw _
    | lambda name params body kind fallible => exact Ensures.throw _

/-- Visiting keeps the invariant, by induction on the height that is still allowed for. -/
theorem visitAt_visits (p : Plan) (fuel : Nat) : Visits p (visitAt fuel) := by
  induction fuel with
  | zero => exact fun e L s h hfits => Ensures.throw _
  | succ fuel ih =>
    intro e L s h hfits
    unfold visitAt
    split
    · rename_i habs
      refine Ensures.pure ⟨?_, ?_⟩
      · cases e with
        | absent => exact lowered_absent
        | node i r t d => cases habs
      · rw [marks_of_isAbsent habs]
        exact h
    · refine .needs ?_
      cases hn : p.index.needed e with
      | true => exact visitNode_ensures ih ⟨hn, hfits, h⟩
      | false =>
        refine ((passThrough_makes (lowered_of_not_needed hfits.body hn)).ensures h).mono ?_
        rintro v s' ⟨hval, h', _⟩
        refine ⟨hval, ?_⟩
        rw [JumpIndex.marks_of_not_needed hn]
        exact h'

/-- A visit of a tree gives a lowered value and keeps the invariant. -/
theorem visit_ensures (h : Inv L s) (hfits : Fits p L.goals e) :
    Ensures p s (Split.visit e) (Visited p L e) :=
  visitAt_visits p (e.height + 1) e L s h hfits

end Resumable.Split
