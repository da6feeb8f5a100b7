import Resumable.Proofs.Splitting

/-!
# `Proofs.Guarding`: splitting protected bodies and suspensions keeps the splitter in order

The parts of a protected expression become states that lead to the state of its cleanup block, which parks
the resume slot as the first thing it does and goes on where the slot said. A suspension hands the
dispatch loop on and leaves it. With these cases a whole visit keeps the splitter in order.

**Contents**
* `CleanupPart.Known`: what is known about the cleanup block of a protected expression.
* `visitCleanup_orders`, `visitTry_orders`: protected expressions.
* `visitAwait_orders`, `visitYield_orders`: suspensions.
* `visit_orders`: every case.
-/

namespace Resumable

open Resumable.Expr Split Build

/-- The cleanup block of a protected expression has a state of its own, and parks the resume slot in a
variable of its own. -/
structure Split.CleanupPart.Known (m : Watch) (V : Outlook) (c : CleanupPart) : Prop where
  listed : V.Listed c.state
  clean : V.Clean c.state
  parked : V.Parking m c.parked

section
variable {m : Watch} {V : Outlook} {p : Plan} {visit : Expr → Split Expr} {e x y : Expr} {i r : Nat} {t : Ty}
  {d : Data Expr} {v : Var} {P : Protection}

/-! ### Parts -/

theorem inFrame_orders {f : Frame} {context : List GuardRef} {x : Split α} {Q : α → Prop}
    (hx : Orders m V p x Q) [Keeps x] : Orders m V p (inFrame f context x) Q := by
  unfold inFrame
  refine .modify (fun s hs => hs.beside rfl (.refl _) hs.labels hs.rethrow hs.caught hs.vars) ?_
  refine hx.bind fun a ha => .modify (fun s hs => ?_) (.pure ha)
  exact hs.beside rfl (.refl _) hs.labels hs.rethrow hs.caught hs.vars

/-- Leaving a protected body goes to its cleanup state, or straight to the exit. -/
theorem leavePart_orders {cleanup : Option StateRef} {exit : StateRef} (hexit : V.Target exit)
    (hc : ∀ c, cleanup = some c → V.Listed c) : Orders m V p (leavePart cleanup exit) fun _ => True := by
  unfold leavePart
  refine .current fun st _ => ?_
  split
  · refine .get fun s _ => ?_
    extract_lets here
    split
    · rename_i c
      exact setResumeNext_orders hexit (hc c rfl)
    · exact setNext_orders hexit
  · exact .pure trivial

/-- What is known about a protected expression while its parts are visited. -/
structure Split.Protection.Known (m : Watch) (V : Outlook) (P : Protection) : Prop where
  exit : V.Target P.exit
  cleanup : ∀ c, P.cleanup = some c → c.Known m V

theorem leave_orders (hP : P.Known m V) : Orders m V p P.leave fun _ => True :=
  leavePart_orders hP.exit fun r hr => by
    obtain ⟨c, hc, rfl⟩ := Option.map_eq_some_iff.mp hr
    exact (hP.cleanup c hc).listed

/-- The protected body itself, up to where it is left. -/
theorem visitProtected_orders (hV : V.Sees m p) (hv : VisitsWell m V p visit) {body : Expr}
    (hP : P.Known m V) (hbody : V.Value m body) :
    Orders m V p (visitProtected visit P body) fun _ => True := by
  have := hv.keeps
  unfold visitProtected
  refine (newState_orders hV .body body .void (by decide) (by decide)).bind fun r hr => ?_
  refine .get fun _ _ => (setNext_orders hr).bind fun _ _ => (goOnIn_orders r).bind fun _ _ => ?_
  refine (hv.orders body hbody).bind fun w hw => (assignResult_orders hV hw).bind fun _ _ => ?_
  exact leave_orders hP

/-- A handler joins its region. -/
theorem addHandler_orders {g : GuardRef} {c : Catch} (hc : V.Target c.state) (hf : V.Value m c.filter)
    (hvar : ∀ v, c.var = some v → m.Plain v.id) :
    Orders m V p (modifyGuard g fun info => { info with handlers := info.handlers ++ [c] })
      fun _ => True := by
  refine modifyGuard_orders fun i q hi => { hi with handlers := fun h hh => ?_ }
  obtain hh | hh := List.mem_append.mp hh
  · exact hi.handlers h hh
  · cases List.mem_singleton.mp hh
    exact ⟨hc, hf, hvar⟩

/-- A handler is orderly when its filter and its body are. -/
theorem visitHandler_orders (hV : V.Sees m p) (hv : VisitsWell m V p visit) {g : GuardRef} {caught : Var}
    {h : Handler Expr} (hP : P.Known m V) (hcaught : m.Plain caught.id)
    (hvar : ∀ v, h.var = some v → m.Plain v.id) (hf : V.Value m h.filter) (hb : V.Value m h.body) :
    Orders m V p (visitHandler visit P g caught h) fun _ => True := by
  have := hv.keeps
  unfold visitHandler
  refine .needs fun _ => ?_
  extract_lets tail
  have htail : Orders m V p (tail ()) fun _ => True := by
    refine .modify (fun s hs => hs.beside rfl (.refl _) hs.labels hs.rethrow hs.caught fun w hw => ?_) ?_
    · obtain hw | hw := Array.mem_append.mp hw
      · exact hs.vars w hw
      · exact (hvar w (by simpa using hw)).declarable
    · refine (newState_orders hV .handler h.body .void (by decide) (by decide)).bind fun r hr => ?_
      refine (goOnIn_orders r).bind fun _ _ => ?_
      refine .modify (fun s hs => hs.beside rfl (.refl _) hs.labels hs.rethrow (fun v hv => ?_) hs.vars) ?_
      · cases hv
        exact hcaught
      · refine (hv.orders h.body hb).bind fun w hw => (assignResult_orders hV hw).bind fun _ _ => ?_
        exact (leave_orders hP).bind fun _ _ => addHandler_orders hr hf hvar
  split
  · exact (report_orders _ _ _).andThen fun _ _ => htail
  · exact htail

/-- The handler that a `fault` block becomes. -/
theorem visitFault_orders (hV : V.Sees m p) (hv : VisitsWell m V p visit) {g : GuardRef} {caught : Var}
    {fault : Expr} (hcaught : m.Plain caught.id) (hf : V.Value m fault) :
    Orders m V p (visitFault visit g caught fault) fun _ => True := by
  have := hv.keeps
  unfold visitFault
  refine (newState_orders hV .fault fault .void (by decide) (by decide)).andThen fun r hr => ?_
  refine (goOnIn_orders r).bind fun _ _ => ?_
  refine .modify (fun s hs => hs.beside rfl (.refl _) hs.labels hs.rethrow (fun v hv => ?_) hs.vars) ?_
  · cases hv
    exact hcaught
  · refine (hv.orders fault hf).bind fun w hw => (emitValue_orders hV hw).bind fun _ _ => ?_
    refine (ref_value hV hcaught).bind fun a ha => ?_
    refine (Orders.value hV (raise_gives ha)).bind fun b hb => (emitValue_orders hV hb).bind fun _ _ => ?_
    exact endWithJump_orders.bind fun _ _ => addHandler_orders hr .absent fun v hv => by cases hv

/-- Opening the state where the handlers begin hands out the variable of the error. -/
theorem openHandlers_orders (hV : V.Sees m p) : Orders m V p (openHandlers P) fun q => m.Plain q.2.id := by
  unfold openHandlers
  refine (newLocal_orders hV _ _).bind fun caught hcaught => ?_
  have hguard : ∀ g : Guard, (∀ q, Kempt m V q g) → Orders m V p (addGuard g) fun _ => True :=
    fun g hg s hs => .of_ensures (Ensures.of_run rfl ⟨trivial, hs.addGuard (hg _)⟩)
  refine (hguard _ fun q => ?_).bind fun g _ => .pure hcaught.1
  exact { kempt_default q with
    caught := fun v hv => by
      cases hv
      exact hcaught.1 }

/-- The body and the handlers of a region are orderly. -/
theorem visitHandled_orders (hV : V.Sees m p) (hv : VisitsWell m V p visit) {body fault : Expr}
    {handlers : List (Handler Expr)} (hP : P.Known m V) (hbody : V.Value m body) (hfault : V.Value m fault)
    (hhandlers : ∀ h ∈ handlers, V.Value m h.filter ∧ V.Value m h.body ∧
      ∀ v, h.var = some v → m.Plain v.id) :
    Orders m V p (visitHandled visit P body handlers fault) fun _ => True := by
  have := hv.keeps
  unfold visitHandled
  split
  · exact inFrame_orders (visitProtected_orders hV hv hP hbody)
  · refine (openHandlers_orders hV).bind fun q hq => ?_
    obtain ⟨g, caught⟩ := q
    refine (inFrame_orders (visitProtected_orders hV hv hP hbody)).bind fun _ _ => .get fun s hs => ?_
    refine Orders.bind (P := fun _ => True) ?_ fun _ _ => ?_
    · refine (Orders.forIn (I := fun rest _ => ∀ q ∈ rest, q.1 ∈ handlers) (fun q hq => ?_) ?_).mono
        fun _ _ => trivial
      · exact (List.mem_zipIdx' hq).2 ▸ List.getElem_mem _
      · rintro ⟨h, i⟩ rest _ hrest
        obtain ⟨hf, hb, hvar⟩ := hhandlers h (hrest _ List.mem_cons_self)
        refine (inFrame_orders (visitHandler_orders hV hv hP hq hvar hf hb)).bind fun _ _ => ?_
        exact .pure ⟨_, rfl, fun q hq => hrest q (List.mem_cons_of_mem _ hq)⟩
    · have hend : Orders m V p (modify fun s' => { s' with caught := s.caught }) fun _ => True :=
        modify_orders fun s' hs' => hs'.beside rfl (.refl _) hs'.labels hs'.rethrow hs.caught hs'.vars
      split
      · exact (inFrame_orders (visitFault_orders hV hv hq hfault)).bind fun _ _ => hend
      · exact hend

/-! ### Cleanup blocks -/

theorem guard_push_self (graph : Graph) (i : Guard) :
    ({ graph with guards := graph.guards.push i } : Graph).guard graph.guards.size = i := by
  rw [guard_push, if_pos rfl]

/-- A cleanup block gets a state of its own and a variable that its exit is parked in. -/
theorem openCleanup_orders (hV : V.Sees m p) (exit : StateRef) (fin : Expr) :
    Orders m V p (openCleanup exit fin) fun c? => ∀ c, c? = some c → c.Known m V := by
  unfold openCleanup
  split
  · exact .pure fun c hc => by cases hc
  · refine .get fun s _ => ?_
    extract_lets outer
    refine .modify (fun s hs => hs.beside rfl (.refl _) hs.labels hs.rethrow hs.caught hs.vars) ?_
    have hstate : Orders m V p (newState .cleanup fin .void) fun r => V.Listed r ∧ V.Clean r := by
      unfold newState
      exact .get fun s _ => newStateIn_orders hV s.context .cleanup fin .void fun h => by cases h
    refine hstate.bind fun r hr => ?_
    refine .modify (fun s hs => hs.beside rfl (.refl _) hs.labels hs.rethrow hs.caught hs.vars) ?_
    refine (newLocal_orders hV "finallyException" .error).bind fun caught hcaught => ?_
    -- the variable is the machine's from the moment on at which its region joins the graph
    intro s hs c? s' hrun hb
    cases hrun
    have hbase : V.base.names < s.supply.names + 1 := Nat.lt_succ_of_le hs.base.names
    have hlast : s.supply.names + 1 ≤ V.last.supply.names := hb.supply.names
    have hforeign := hV.names _ hbase hlast
    have hwithin := Nat.le_trans hlast hV.within
    refine ⟨?_, ?_⟩
    · rintro _ ⟨⟩
      refine ⟨hr.1, hr.2, fun hown => ⟨hV.parks hown s.graph.guards.size _ ?_, rfl⟩, fun hother => ?_⟩
      · refine (hb.guard s.graph.guards.size ?_).trans (congrArg Guard.parked (guard_push_self s.graph _))
        exact Nat.lt_of_lt_of_eq (Nat.lt_succ_self _) (Array.size_push _).symm
      · refine ⟨hforeign, fun hp => ?_, hwithin⟩
        exact absurd (hV.parked _ hp hbase hlast).1 (by simp [hother])
    · have h1 : Orderly m V { s with
          supply := { s.supply with names := s.supply.names + 1 }
          vars := s.vars.push ⟨s.supply.names + 1, "finallyResume", .int⟩ } := by
        refine hs.beside rfl ⟨Nat.le_succ _, Nat.le_refl _⟩ hs.labels hs.rethrow hs.caught fun w hw => ?_
        obtain hw | rfl := Array.mem_push.mp hw
        · exact hs.vars w hw
        · exact ⟨hforeign, hwithin, fun _ => rfl⟩
      refine h1.addGuard { kempt_default { s.supply with names := s.supply.names + 1 } with
        cleanup := ?_, caught := ?_, parked := ?_ }
      · rintro _ ⟨⟩
        exact hr.1
      · rintro _ ⟨⟩
        exact hcaught.1
      · rintro _ ⟨⟩
        exact Nat.le_refl _

/-- A cleanup block parks the resume slot before anything else. -/
theorem visitCleanup_orders (hV : V.Sees m p) (hv : VisitsWell m V p visit) {c : CleanupPart} {block : Expr}
    (hc : c.Known m V) (hb : V.Value m block) :
    Orders m V p (visitCleanup visit c.state c.parked block) fun _ => True := by
  have := hv.keeps
  -- from the body of the block to the store that goes on at the parked state
  have hrest : Orders m V p (do
      emit (← visit block)
      emit (← Build.assign (← Build.ref (← read).stateVar) (← Build.ref c.parked))
      setTerminal
      modify fun s => { s with cleanups := s.cleanups - 1 }) fun _ => True := by
    refine (hv.orders block hb).bind fun w hw => (emitValue_orders hV hw).bind fun _ _ => .read ?_
    refine (ref_orders hV p.stateVar).bind fun a ha => (ref_orders hV c.parked).bind fun b hb => ?_
    have hreturns : V.own = true → ∃ v, m.Parked v ∧ Watch.Reads v b := by
      intro hown
      obtain ⟨⟨i, r, rfl⟩, -⟩ := hb
      have hp := hc.parked.own hown
      exact ⟨_, hp, rfl, hp.type⟩
    refine (stores_orders (P := fun y => V.own = true → ∃ v, m.Parked v ∧ Watch.Reads v y) hV hV.stateVar
      ha.1 ha.2 hreturns fun ho => hb.2 (hc.parked.other ho)).bind fun x hx => ?_
    have hsteady : V.Steady m x :=
      ⟨hx.obeys (fun hown h => .returns (h.mono fun _ hy => hy hown)) _ _, fun _ =>
        hx.plain fun hown h => Watch.Returns.plain (hV.fair hown) (h.mono fun _ hy => hy hown)⟩
    refine (emit_orders hsteady).bind fun _ _ => setTerminal_orders.bind fun _ _ => ?_
    exact modify_orders fun s hs => hs.beside rfl (.refl _) hs.labels hs.rethrow hs.caught hs.vars
  unfold visitCleanup
  refine .modify (fun s hs => hs.beside rfl (.refl _) hs.labels hs.rethrow hs.caught hs.vars) ?_
  intro s hs
  refine Toward.andThen (R := fun _ s' => Orderly m V s' ∧ s'.current = c.state) ?_ ?_
  · exact .of_ensures (Ensures.of_run rfl
      ⟨hs.beside rfl (.refl _) hs.labels hs.rethrow hs.caught hs.vars, rfl⟩)
  rintro _ s₁ ⟨h1, hc1⟩
  refine ((ref_orders hV c.parked).still h1).andThen fun a s₂ ⟨ha, h2, _, hc2⟩ => ?_
  refine Toward.andThen (R := fun plan s' => plan = p ∧ s' = s₂) (.of_ensures (Ensures.of_run rfl ⟨rfl, rfl⟩)) ?_
  rintro _ _ ⟨rfl, rfl⟩
  refine ((ref_orders hV _).still h2).andThen fun b s₃ ⟨hb, h3, _, hc3⟩ => ?_
  have hreads : V.own = true → Watch.Reads m.resume b := by
    intro hown
    obtain ⟨⟨i, r, rfl⟩, -⟩ := hb
    rw [hV.resumeVar.own hown]
    exact ⟨rfl, (hV.fair hown).types.2⟩
  refine ((stores_orders (P := fun y => V.own = true → Watch.Reads m.resume y) hV
    ⟨fun _ => rfl, hc.parked.other⟩ ha.1 ha.2 hreads fun ho => hb.2 (hV.resumeVar.other ho)).still h3).andThen
    fun x s₄ ⟨hx, h4, _, hc4⟩ => ?_
  -- parking the resume slot is special anywhere but in a cleanup state
  have hparks : V.own = true → Watch.Puts c.parked (fun y => V.own = true → Watch.Reads m.resume y) x →
      m.Parks x := fun hown h => ⟨_, hc.parked.own hown, h.mono fun _ hy => hy hown⟩
  refine Toward.andThen (R := fun _ s' => Orderly m V s') (Toward.before fun hbefore => ?_)
    fun _ s₅ h5 => hrest s₅ h5
  refine .of_ensures (emit_ensures_orderly h4 (hx.obeys (fun hown h => .parks (hparks hown h)) _ _)
    fun hlt => .any ?_)
  have hcur : s₄.current = c.state := hc4.trans (hc3.trans (hc2.trans hc1))
  have hkind : (s₄.graph.state s₄.current).kind = .cleanup := by
    rw [(hbefore.state _ hlt).2.symm, hcur]
    exact hc.clean
  rw [hkind]
  exact hx.plain fun hown h => (hparks hown h).plain (hV.fair hown)

/-- A protected region is orderly when its parts are. -/
theorem visitTry_orders (hV : V.Sees m p) (hv : VisitsWell m V p visit) {body fin fault : Expr}
    {handlers : List (Handler Expr)} (h : V.Value m (.node i r t (.protect body handlers fin fault))) :
    Orders m V p (visitTry visit (.node i r t (.protect body handlers fin fault)) body handlers fin fault)
      (V.Value m) := by
  have := hv.keeps
  obtain ⟨hvars, hops⟩ := h.ordinary (by simp [Data.kind])
  simp only [mem_operands_protect] at hops
  unfold visitTry
  refine .get fun s _ => ?_
  extract_lets outer
  refine (newState_orders hV .tryExit _ _ (by decide) (by decide)).andThen fun exit hexit => ?_
  refine (openCleanup_orders hV exit fin).andThen fun cleanup hcleanup => ?_
  have hP : (⟨i, outer, exit, cleanup⟩ : Protection).Known m V := ⟨hexit, hcleanup⟩
  refine (visitHandled_orders hV hv hP (hops body (.inl rfl)) (hops fault (by simp)) fun h hh => ?_).andThen
    fun _ _ => ?_
  · refine ⟨hops _ (.inr (.inl ⟨h, hh, .inl rfl⟩)), hops _ (.inr (.inl ⟨h, hh, .inr rfl⟩)), hvars h hh⟩
  · have hend : Orders m V p (do
        modify fun s => { s with context := outer }
        goOnIn exit
        resultRef exit t) (V.Value m) := by
      refine .modify (fun s hs => hs.beside rfl (.refl _) hs.labels hs.rethrow hs.caught hs.vars) ?_
      exact (goOnIn_orders exit).bind fun _ _ => resultRef_orders hV exit t
    split
    · exact hend
    · rename_i c
      exact (inFrame_orders (visitCleanup_orders hV hv (hcleanup c rfl) (hops fin (by simp)))).bind
        fun _ _ => hend

/-! ### Suspensions -/

/-- What an await waits for, configured or not. -/
theorem awaitSource_orders (hV : V.Sees m p) {configured : Option Bool} (hx : V.Value m x) :
    Orders m V p (awaitSource? x configured) fun q => V.Value m q.1 := by
  unfold awaitSource?
  refine (Orders.build hV (Provides.any _)).andThen fun t _ => ?_
  split
  · exact .pure hx
  · split
    · exact .pure hx
    · refine (Orders.value hV (constBool_gives _)).bind fun c hc => ?_
      exact (Orders.value hV (methodCall_gives hx (by simpa using hc))).bind fun s hs => .pure hs

theorem methodCall_shape (x : Expr) (name : String) (xs : List Expr) : Provides m (methodCall x name xs)
    fun y => ∃ i r t, y = .node i r t (.methodCall x name xs) := by
  unfold methodCall
  refine Provides.bind (l := fun t => by split <;> infer_instance) (Provides.any _) fun t _ => ?_
  split
  · exact .throw _
  · exact (Provides.any _).bind fun _ _ => .of_eq fun q a q' heq => by cases heq; exact ⟨_, _, _, rfl⟩

/-- A call that hands the dispatch loop to an awaiter, when the machine is the one that is watched. -/
structure Outlook.Handing (V : Outlook) (m : Watch) (x : Expr) : Prop where
  own : V.own = true → Obeys m (.inside false false) x ∧ m.Hands x
  other : V.own = false → V.Value m x

/-- Handing the continuation to an awaiter. -/
theorem register_orders (hV : V.Sees m p) {continuation : Var} (hk : V.Matches m continuation m.continuation)
    {awaiter k : Expr} (ha : V.Value m awaiter) (hshape : ∃ i r, k = .node i r continuation.type (.var continuation))
    (hvalue : m.Plain continuation.id → V.Value m k) :
    Orders m V p (liftM (methodCall awaiter "OnCompleted" [k])) (V.Handing m) := by
  refine (Orders.build hV ((methodCall_shape awaiter "OnCompleted" [k]).and
    (.imp (c := V.own = false) fun ho => methodCall_gives ha (by simpa using hvalue (hk.other ho))))).mono ?_
  rintro x ⟨⟨i, r, t, rfl⟩, hother⟩
  refine ⟨fun hown => ?_, hother⟩
  obtain ⟨i', r', rfl⟩ := hshape
  have hcont : m.IsContinuation (.node i' r' continuation.type (.var continuation)) := hk.own hown
  exact ⟨.hand (hV.alone hown ▸ ha) hcont, rfl, hcont⟩

/-- Handing the dispatch loop on and leaving it. -/
theorem handBlock_gives {register leave : Expr} (hV : V.Sees m p) (hr : V.Handing m register)
    (hl : V.Value m leave) (hleave : V.own = true → m.Leaves leave) :
    Provides m (typedBlock .void [] [register, leave]) (V.Steady m) := by
  have hleaves := Outlook.Value.steady hl hV.alone
  have hobeys : ∀ x ∈ [register, leave], Obeys m (V.role false false) x := by
    simp only [List.mem_cons, List.not_mem_nil, or_false, forall_eq_or_imp, forall_eq]
    refine ⟨?_, hleaves.obeys⟩
    by_cases hown : V.own = true
    · exact V.role_own hown _ _ ▸ (hr.own hown).1
    · exact Outlook.Value.obeys (hr.other (Bool.eq_false_iff.mpr hown)) _ _ hV.alone
  have hshape : m.Shape false false .absent [register, leave] := by
    refine And.intro ?_ (And.intro (.any (hleaves.plain _)) trivial)
    by_cases hown : V.own = true
    · exact .hand (hr.own hown).2 (hleave hown)
    · exact .any (Obeys.not_special (hr.other (Bool.eq_false_iff.mpr hown)))
  exact (block_part (by simp) ⟨hobeys, hshape⟩).mono fun _ h => h.steady

/-- An await hands the continuation on and leaves the loop. -/
theorem visitAwait_orders (hV : V.Sees m p) (hv : VisitsWell m V p visit) {operand : Expr}
    {configured : Option Bool} (h : V.Value m (.node i r t (.await operand configured))) :
    Orders m V p (visitAwait visit (.node i r t (.await operand configured)) operand configured)
      (V.Value m) := by
  have := hv.keeps
  have hoperand : V.Value m operand := h.operand (by simp [Data.kind]) (by simp [operands])
  unfold visitAwait
  refine .read ?_
  split
  · exact .read ((report_orders _ _ _).bind fun _ _ => .value hV (default_gives _))
  · -- only a machine that awaits has a continuation to hand over
    rename_i backend cell continuation htarget
    refine (hv.orders operand hoperand).andThen fun w hw => (awaitSource_orders hV hw).andThen fun q hq => ?_
    obtain ⟨source, awaiter?⟩ := q
    dsimp only
    split
    · exact (report_orders _ _ _).bind fun _ _ => .value hV (default_gives _)
    · -- the awaiter is kept, and the continuation handed over when it is not completed yet
      rename_i t
      have hk : m.Plain cell.id ∧ (V.own = true → cell = m.cell) ∧
          V.Matches m continuation m.continuation := by
        have := hV.target
        rwa [htarget] at this
      refine (newLocal_orders hV _ t).andThen fun awaiter hawaiter => ?_
      refine (newState_orders hV .await _ _ (by decide) (by decide)).andThen fun next hnext => ?_
      refine (ref_value hV hawaiter.1).andThen fun a ha => ?_
      refine (Orders.value hV (methodCall_gives hq (by simp))).andThen fun b hb => ?_
      refine (store_value hV ha hb).andThen fun x hx => (emitValue_orders hV hx).andThen fun _ _ => ?_
      refine (setState_orders hV hnext.listed).andThen fun y hy => (emit_orders (hy.2 hnext)).andThen fun _ _ => ?_
      refine (ref_value hV hawaiter.1).andThen fun a ha => ?_
      refine (Orders.value hV (methodCall_gives ha (by simp))).andThen fun b hb => ?_
      refine (Orders.value hV (not_gives hb)).andThen fun pending hpending => ?_
      refine (ref_value hV hawaiter.1).andThen fun a ha => (ref_orders hV continuation).andThen fun k hk' => ?_
      refine (register_orders hV hk.2.2 ha hk'.1 hk'.2).andThen fun register hregister => ?_
      refine (leaveDispatch_orders hV .absent).andThen fun leave hleave => ?_
      refine (Orders.build hV (handBlock_gives hV hregister hleave.1 fun ho => hleave.2 ho rfl)).andThen
        fun block hblock => ?_
      refine (Orders.build hV (ifThen_steady hV hpending hblock)).bind fun z hz => ?_
      refine (emit_orders hz).bind fun _ _ => .get fun s _ => ?_
      refine Orders.bind (modifyState_orders (r := s.current) ?_) fun _ _ => ?_
      · exact fun _ h => { h with }
      refine (setNext_orders hnext).bind fun _ _ => (goOnIn_orders next).bind fun _ _ => ?_
      exact (ref_value hV hawaiter.1).bind fun a ha => .value hV (methodCall_gives ha (by simp))


/-- A yield stores the element and leaves the loop. -/
theorem visitYield_orders (hV : V.Sees m p) (hv : VisitsWell m V p visit) {value : Expr}
    (h : V.Value m (.node i r t (.yield value))) :
    Orders m V p (visitYield visit (.node i r t (.yield value)) value) (V.Value m) := by
  have := hv.keeps
  have hvalue : V.Value m value := h.operand (by simp [Data.kind]) (by simp [operands])
  have htarget := hV.target
  unfold visitYield
  refine .read ?_
  extract_lets tail
  -- a yield has no value
  have htail : Orders m V p (tail ()) (V.Value m) := .value hV empty_gives
  split
  · exact .read ((report_orders _ _ _).bind fun _ _ => htail)
  · rename_i shape params dispose currentVar heq
    rw [heq] at htarget
    obtain ⟨-, -, -, hcurrent⟩ := htarget
    refine .get fun s _ => ?_
    split
    · exact (report_orders _ _ _).bind fun _ _ => htail
    · refine (hv.orders value hvalue).andThen fun w hw => ?_
      refine (newState_orders hV .yield _ _ (by decide) (by decide)).andThen fun next hnext => ?_
      refine Orders.andThen (modifyState_orders (r := next) ?_) fun _ _ => ?_
      · exact fun _ h => { h with }
      refine (ref_value hV hcurrent.plain).andThen fun a ha => ?_
      refine (Orders.value hV (field_gives ha)).andThen fun b hb => ?_
      refine (Orders.value hV (coerce_gives hw)).andThen fun c hc => ?_
      refine (store_value hV hb hc).andThen fun x hx => (emitValue_orders hV hx).andThen fun _ _ => ?_
      refine (setState_orders hV hnext.listed).bind fun y hy => ?_
      refine (emit_orders (hy.2 hnext)).bind fun _ _ => ?_
      refine (Orders.value hV (constBool_gives _)).bind fun z hz => ?_
      refine (leaveDispatch_orders hV hz).bind fun l hl => (emitValue_orders hV hl.1).bind fun _ _ => ?_
      exact setTerminal_orders.bind fun _ _ => (goOnIn_orders next).bind fun _ _ => htail

/-! ### All cases -/

/-- Calls, whose operands are visited in order. -/
theorem visitCall_orders (hV : V.Sees m p) (hv : VisitsWell m V p visit) (he : V.Value m e) (x : Expr)
    (xs : List Expr) (hxs : ∀ c ∈ x :: xs, V.Value m c) {f : Expr → List Expr → Data Expr}
    (hf : ∀ a as, (∀ c ∈ a :: as, V.Value m c) → Loose m V.hosts (f a as)) :
    Orders m V p (do
      match ← visitOperands visit (x :: xs) with
      | a :: as => Build.withData e (f a as)
      | [] => return e) (V.Value m) := by
  have := hv.keeps
  refine (visitOperands_orders hV hv _ hxs).andThen fun rs hrs => ?_
  split
  · exact .value hV (withData_gives (hf _ _ hrs))
  · exact .pure he

/-- **Splitting one node** keeps the machine orderly, given that visiting an operand does. -/
theorem visitNode_orders (hV : V.Sees m p) (hv : VisitsWell m V p visit) (he : V.Value m e) :
    Orders m V p (visitNode visit e) (V.Value m) := by
  have := hv.keeps
  cases e with
  | absent =>
    unfold visitNode
    exact Orders.andThen (P := fun _ => False) (fun _ _ _ _ hrun => by cases hrun) fun _ h => h.elim
  | node i r t d =>
    have hops := fun c hd => he.operand (c := c) hd
    unfold visitNode
    refine fun s hs => Toward.after (R := fun d' s' => d = d' ∧ s = s') (Ensures.of_run rfl ⟨rfl, rfl⟩) ?_
    rintro _ _ ⟨rfl, rfl⟩
    revert s hs
    -- the node is fixed from here on, so each kind of node has its own lemma
    change Orders m V p _ (V.Value m)
    cases d with
    | block vars xs => exact visitBlock_orders hV hv he
    | assign op target value => exact visitAssign_orders hV hv he
    | binary op left right method => exact visitBinary_orders hV hv he
    | unary op x method =>
      exact visitOne_orders hV hv (hops x (by simp [Data.kind]) (by simp [operands])) fun v hval =>
        ⟨fun _ _ => trivial, by simpa [operands] using hval⟩
    | typeIs x u =>
      exact visitOne_orders hV hv (hops x (by simp [Data.kind]) (by simp [operands])) fun v hval =>
        ⟨fun _ _ => trivial, by simpa [operands] using hval⟩
    | field object name =>
      exact visitOne_orders hV hv (hops object (by simp [Data.kind]) (by simp [operands])) fun v hval =>
        ⟨fun _ _ => trivial, by simpa [operands] using hval⟩
    | throw value => exact visitThrow_orders hV hv he
    | call fn args =>
      exact visitCall_orders hV hv he fn args (fun c hc => hops c (by simp [Data.kind]) hc)
        fun a as has => ⟨fun _ _ => trivial, has⟩
    | methodCall receiver name args =>
      exact visitCall_orders hV hv he receiver args (fun c hc => hops c (by simp [Data.kind]) hc)
        fun a as has => ⟨fun _ _ => trivial, has⟩
    | conditional test a b => exact visitConditional_orders hV hv he
    | switch value cases default comparer => exact visitSwitch_orders hV hv he
    | loop body brk cont => exact visitLoop_orders hV hv he
    | protect body handlers fin fault => exact visitTry_orders hV hv he
    | goto k l value => exact visitGoto_orders hV hv he
    | label l value => exact visitLabel_orders hV hv he
    | await operand configured => exact visitAwait_orders hV hv he
    | yield value => exact visitYield_orders hV hv he
    | constant value => exact .throw _
    | default => exact .throw _
    | var v => exact .throw _
    | lambda name params body kind fallible => exact .throw _

/-- Visiting keeps the splitter in order, by induction on the height that is still allowed for. -/
theorem visitAt_orders (hV : V.Sees m p) (fuel : Nat) : VisitsWell m V p (visitAt fuel) := by
  induction fuel with
  | zero => exact ⟨inferInstance, fun e _ => .throw _⟩
  | succ fuel ih =>
    refine ⟨inferInstance, fun e he => ?_⟩
    unfold visitAt
    split
    · exact .pure he
    · refine .needs fun b => ?_
      split
      · exact passThrough_orders hV he
      · exact visitNode_orders hV ih he

theorem visit_orders (hV : V.Sees m p) (he : V.Value m e) :
    Orders m V p (Split.visit e) (V.Value m) := (visitAt_orders hV (e.height + 1)).orders e he

end

end Resumable
