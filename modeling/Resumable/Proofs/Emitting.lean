import Resumable.Lower.Emit
import Resumable.Proofs.Guarding

/-!
# `Proofs.Emitting`: the cases of a dispatch loop treat a machine as they should

Emission turns the states into cases and adds the states that route errors and close enumerations. What
routes an error goes on in a handler, or in a cleanup block that raises the error again afterwards; the
state that fails the machine marks it as over before the cell is settled, outside every handler.

**Contents**
* `finish_orders`: the end of a body.
* `rethrowState_orders`, `propagateState_orders`: states where errors end.
* `dispatch_orders`: the routing of an error.
* `caseBody_orders`, `emitCases_orders`: the cases.
-/

namespace Resumable

open Resumable.Expr Split Build

section
variable {m : Watch} {V : Outlook} {p : Plan} {x y : Expr} {r : StateRef} {t : Ty} {v : Var} {b : Backend}

/-! ### Settling the cell -/

theorem call_shape (x : Expr) (xs : List Expr) : Provides m (call x xs) fun y =>
    ∃ i r t, y = .node i r t (.call x xs) := by
  unfold call
  refine (Provides.any _).bind fun t _ => ?_
  extract_lets tail
  split
  · exact Provides.bind (Provides.throw (P := fun _ => False) _) fun _ h => h.elim
  · exact (Provides.any _).bind fun _ _ => .of_eq fun q a q' heq => by cases heq; exact ⟨_, _, _, rfl⟩

/-- A call that settles a cell is no statement that is left out. -/
theorem Watch.Calls.kept {b : Bool} (h : m.Calls b x) : x.isAbsent = false ∧ x.isInert = false := by
  unfold Watch.Calls Watch.Settling at h
  split at h
  · exact ⟨rfl, rfl⟩
  · exact ⟨rfl, rfl⟩
  · cases h

/-- What the back end makes of a result settles the cell. -/
theorem settle_settles {value call : Expr} (hc : m.Calls true call) :
    Provides m (Backend.settle value call) fun x => m.Settles x ∧ x.isAbsent = false ∧ x.isInert = false := by
  unfold Backend.settle
  split
  · exact .pure ⟨.inl hc, hc.kept⟩
  · unfold Build.block
    refine (Provides.any _).bind fun t _ => (node_shape t _).mono ?_
    rintro _ ⟨i, r, -, rfl⟩
    exact ⟨.inr (.inr ⟨i, r, t, _, _, call, rfl, rfl, .inl hc⟩), rfl, rfl⟩

/-- Completing the watched cell settles it. -/
theorem setResult_settles {cell value : Expr} (hc : cell.asVar? = some m.cell) :
    Provides m (b.setResult cell value) fun x => m.Settles x ∧ x.isAbsent = false ∧ x.isInert = false := by
  have hmethod : ∀ {name : String} {xs : List Expr}, name = "Complete" ∨ name = "SetResult" →
      Provides m (methodCall cell name xs) (m.Calls true) := by
    intro name xs hname
    refine (methodCall_shape cell name xs).mono ?_
    rintro _ ⟨i, r, t, rfl⟩
    exact ⟨hc, by grind [Run.completes]⟩
  have hcalls : ∀ {x : Expr}, m.Calls true x → m.Settles x ∧ x.isAbsent = false ∧ x.isInert = false :=
    fun h => ⟨.inl h, h.kept⟩
  cases b with
  | task t => exact (Provides.any _).bind fun _ _ => (hmethod (.inl rfl)).mono fun _ => hcalls
  | future => exact (hmethod (.inl rfl)).bind fun _ h => settle_settles h
  | valueTask t => exact (Provides.any _).bind fun _ _ => (hmethod (.inr rfl)).mono fun _ => hcalls
  | valueFuture =>
    refine Provides.bind (P := m.Calls true) ?_ fun _ h => settle_settles h
    unfold callLibrary callFunc
    refine (Provides.of_eq (P := fun f => ∃ i r t u, f = .node i r t (.constant (some (.func u
      (.library .completeValueFuture))))) fun q a q' heq => ?_).bind fun f hf => ?_
    · cases heq
      exact ⟨_, _, _, _, rfl⟩
    · obtain ⟨i, r, t, u, rfl⟩ := hf
      refine (call_shape _ _).mono ?_
      rintro _ ⟨i, r, t, rfl⟩
      exact ⟨rfl, hc⟩

/-- Failing the watched cell with the value of a variable is a call of variables. -/
theorem setException_quits {cell err : Expr} (hc : cell.asVar? = some m.cell)
    (he : err.asVar?.isSome = true) : Provides m (b.setException cell err) m.Quits := by
  have hmethod : ∀ {name : String}, name = "Fail" ∨ name = "SetException" →
      Provides m (methodCall cell name [err]) m.Quits := by
    intro name hname
    refine (methodCall_shape cell name [err]).mono ?_
    rintro _ ⟨i, r, t, rfl⟩
    exact ⟨⟨hc, by grind [Run.fails]⟩, i, r, t, cell, name, [err], rfl, by simp [hc], by simpa using he⟩
  cases b with
  | task t => exact hmethod (.inl rfl)
  | future => exact hmethod (.inl rfl)
  | valueTask t => exact hmethod (.inr rfl)
  | valueFuture => exact hmethod (.inr rfl)

/-! ### The end of a body -/

/-- Leaving the loop changes nothing but the supply. -/
theorem leaveDispatch_run (p : Plan) (s : Splitter) : Ensures p s (leaveDispatch .absent) fun x s' =>
    (∃ i r t, x = .node i r t (.goto .brk p.brk .absent) ∧ s.supply.refs < r ∧ r ≤ s'.supply.refs) ∧
      s' = { s with supply := s'.supply } ∧ s.supply.Below s'.supply := by
  refine Ensures.of_run rfl ⟨⟨_, _, _, rfl, Nat.lt_succ_self _, Nat.le_refl _⟩, rfl, ?_⟩
  exact ⟨Nat.le_refl _, Nat.le_succ _⟩

/-- Statements that fit behind the last one. -/
theorem Neat.pushes {st : State} (h : Neat m V st) {x y : Expr} (hx : Obeys m (V.role false false) x)
    (hy : Obeys m (V.role false false) y) (hplain : ∀ armed, ¬ m.Special armed y)
    (hfit : m.Fits (st.kind == .cleanup) (st.kind == .rethrow) (st.stmts.toList.getLast?.getD .absent) x
      [y]) : Neat m V { st with stmts := (st.stmts.push x).push y } :=
  { h with
    stmts := fun z hz => by
      obtain hz | rfl := Array.mem_push.mp hz
      · obtain hz | rfl := Array.mem_push.mp hz
        · exact h.stmts z hz
        · exact hx
      · exact hy
    shape := by
      show m.Shape _ _ .absent ((st.stmts.push x).push y).toList
      rw [Array.toList_push, Array.toList_push, List.append_assoc]
      exact h.shape.append ⟨hfit, .any (hplain _), trivial⟩ }

/-- A statement that may only stand before the one that leaves the loop. -/
theorem emit_leave_ensures (hV : V.Sees m p) {s : Splitter} (hs : Orderly m V s) {x : Expr}
    {k : Unit → Split Unit} [∀ u, Keeps (k u)] (hx : Obeys m (V.role false false) x)
    (hkept : x.isAbsent = false ∧ x.isInert = false)
    (hfit : s.current < s.graph.states.size → ∀ y, (∃ i r t, y = .node i r t (.goto .brk p.brk .absent)) →
      m.Fits ((s.graph.state s.current).kind == .cleanup)
        ((s.graph.state s.current).kind == .rethrow) (lastStatement s) x [y])
    (hk : ∀ s', Orderly m V s' → Toward V p s' (k ()) fun _ s' => Orderly m V s') :
    Toward V p s (do emit x; emit (← leaveDispatch .absent); k ()) fun _ s' => Orderly m V s' := by
  unfold emit
  rw [hkept.1, hkept.2]
  refine Toward.after (R := fun _ s₁ => s₁ = { s with graph := s.graph.modifyState s.current fun st =>
    { st with stmts := st.stmts.push x } }) (Ensures.of_run rfl rfl) ?_
  rintro _ _ rfl
  refine Toward.after (leaveDispatch_run p _) ?_
  rintro _ s₂ ⟨⟨i, r, t, rfl, hlt, hle⟩, hs₂, hbelow⟩
  refine Toward.before fun hlast => ?_
  refine Toward.after (R := fun _ s₃ => Orderly m V s₃) (Ensures.of_run rfl ?_) fun _ s₃ h3 => hk s₃ h3
  rw [hs₂]
  dsimp only at hbelow ⊢
  rw [modifyState_modifyState]
  have hr : m.Ground r :=
    hV.refs r (Nat.lt_of_le_of_lt hs.base.refs hlt) (Nat.le_trans hle hlast.supply.refs)
  have hgoto : V.Value m (.node i r t (.goto .brk p.brk .absent)) :=
    .node (fun _ => hr) trivial (by simp [Expr.operands, Obeys.absent])
  have h1 : Orderly m V { s with supply := s₂.supply } :=
    hs.beside rfl hbelow hs.labels hs.rethrow hs.caught hs.vars
  refine h1.modifyState fun hlt => (hs.states s.current).pushes hx (hgoto.steady hV.alone).obeys
    (hgoto.steady hV.alone).plain (hfit hlt _ ⟨i, r, t, rfl⟩)

/-- The code at the end of the machine completes the cell before the machine is marked as over. -/
theorem finish_orders (hV : V.Sees m p) (hx : V.Value m x) : Orders m V p (finish x) fun _ => True := by
  have htarget := hV.target
  unfold finish
  refine .read ?_
  extract_lets tail
  have htail : Orders m V p (tail ⟨⟩) fun _ => True := setTerminal_orders
  split
  · rename_i backend cell continuation heq
    rw [heq] at htarget
    obtain ⟨hcell, hown, -⟩ := htarget
    refine (Orders.value hV (coerce_gives hx)).bind fun value hvalue => ?_
    refine (ref_orders hV cell).bind fun c hc => ?_
    refine (Orders.build hV ((Backend.setResult_gives (hc.2 hcell) hvalue).and
      (.imp (c := V.own = true) fun ho => setResult_settles (m := m) ?_))).bind fun w hw => ?_
    · obtain ⟨⟨i, r, rfl⟩, -⟩ := hc
      rw [hown ho]
      rfl
    -- a machine of its own settles the cell right before it is marked as over
    by_cases ho : V.own = true
    · obtain ⟨hsettles, hkept⟩ := hw.2 ho
      intro s hs
      refine ((emitValue_orders hV hw.1 s hs).ensuring (emit_last hkept.1 hkept.2)).bind fun _ s₁ h => ?_
      obtain ⟨⟨-, h1⟩, hlast⟩ := h
      refine ((setStateId_orders hV (-1) s₁ h1).ensuring (setStateId_makes (-1))).bind fun a s₂ h => ?_
      obtain ⟨⟨ha, h2⟩, -, q, -, hsame⟩ := h
      have hends : m.Ends a := ha.own ho
      refine (emit_leave_ensures hV (k := tail) h2 (ha.obeys (fun _ h => .ends h) _ _) (Watch.Puts.kept hends)
        (fun hlt y hy => ?_) fun s' hs' => ?_).mono fun _ _ h => ⟨trivial, h⟩
      · subst hsame
        obtain ⟨i, r, t, rfl⟩ := hy
        exact .complete (hlast hlt ▸ hsettles) hends ⟨hV.leave ho, rfl⟩
      · exact (htail s' hs').mono fun _ _ h => h.2
    · refine (emitValue_orders hV hw.1).bind fun _ _ => (setStateId_orders hV _).bind fun a ha => ?_
      refine (emitValue_orders hV (ha.other (Bool.eq_false_iff.mpr ho))).bind fun _ _ => ?_
      exact (leaveDispatch_orders hV .absent).bind fun l hl => (emitValue_orders hV hl.1).bind
        fun _ _ => htail
  · rename_i shape params dispose current heq
    rw [heq] at htarget
    refine (emitValue_orders hV hx).bind fun _ _ => (setStateId_orders hV _).bind fun a ha => ?_
    refine (emitValue_orders hV (ha.other htarget.1)).bind fun _ _ => ?_
    refine (Orders.value hV (constBool_gives _)).bind fun z hz => ?_
    exact (leaveDispatch_orders hV hz).bind fun l hl => (emitValue_orders hV hl.1).bind fun _ _ => htail

/-! ### Where errors end -/

/-- A new state gets the statements that its kind asks for. -/
theorem setStmts_orders {xs : List Expr}
    (hxs : V.Listing m (V.kindOf r == .cleanup) (V.kindOf r == .rethrow) xs) :
    Orders m V p (modifyState r fun st => { st with stmts := xs.toArray, terminal := true })
      fun _ => True := by
  intro s hs
  refine Toward.before fun hb => .of_ensures (Ensures.of_run rfl ⟨trivial, hs.modifyState fun hlt => ?_⟩)
  have hkind : V.kindOf r = (s.graph.state r).kind := (hb.state r hlt).2
  exact
    { hs.states r with
      stmts := fun x hx => hxs.obeys x (by simpa using hx)
      shape := hkind ▸ hxs.shape }

/-- The cell is made to fail and the loop left, right after the machine was marked as over. -/
theorem failTarget_orders (hV : V.Sees m p) {err : Expr} (he : V.Value m err)
    (hvar : err.asVar?.isSome = true) : Orders m V p (failTarget err) fun xs =>
      (∀ x ∈ xs, V.Value m x) ∧ (V.own = true → ∃ y z, xs = [y, z] ∧ m.Quits y ∧ m.Leaves z) := by
  have htarget := hV.target
  unfold failTarget
  refine .read ?_
  split
  · rename_i backend cell continuation heq
    rw [heq] at htarget
    obtain ⟨hcell, hown, -⟩ := htarget
    refine (ref_orders hV cell).bind fun c hc => ?_
    refine (Orders.build hV ((Backend.setException_gives (hc.2 hcell) he).and
      (.imp (c := V.own = true) fun ho => setException_quits (m := m) ?_ hvar))).bind fun y hy => ?_
    · obtain ⟨⟨i, r, rfl⟩, -⟩ := hc
      rw [hown ho]
      rfl
    refine (leaveDispatch_orders hV .absent).bind fun z hz => .pure ?_
    exact ⟨by simpa using ⟨hy.1, hz.1⟩, fun ho => ⟨y, z, rfl, hy.2 ho, hz.2 ho rfl⟩⟩
  · rename_i heq
    rw [heq] at htarget
    refine (Orders.value hV (raise_gives he)).bind fun y hy => .pure ?_
    exact ⟨by simpa using hy, fun ho => by simp [htarget.1] at ho⟩

/-- The state that fails the machine marks it as over first; no handler is around it. -/
theorem rethrowState_orders (hV : V.Sees m p) : Orders m V p rethrowState V.Target := by
  unfold rethrowState
  refine .get fun s hs => ?_
  split
  · rename_i r hr
    exact .pure (hs.rethrow r hr)
  · refine (newStateIn_orders hV [] .rethrow .absent .void fun _ => rfl).bind fun r hnew => ?_
    obtain ⟨hlisted, hkind⟩ := hnew
    have hr : V.Target r := ⟨hlisted, fun hc => by simp [Outlook.Clean, hkind] at hc⟩
    refine (setStateId_orders hV (-1)).bind fun first hfirst => .read ?_
    refine (ref_orders hV p.excVar).bind fun a ha => ?_
    refine (failTarget_orders hV (ha.2 hV.excVar) ?_).bind fun rest hrest => ?_
    · obtain ⟨⟨i, r, rfl⟩, -⟩ := ha
      rfl
    refine (setStmts_orders ⟨fun x hx => ?_, ?_⟩).bind fun _ _ => ?_
    · obtain rfl | hx := List.mem_cons.mp hx
      · exact hfirst.obeys (fun _ h => .ends h) _ _
      · exact Outlook.Value.obeys (hrest.1 x hx) _ _ hV.alone
    · rw [hkind]
      have hplain : ∀ x ∈ rest, ¬ m.Special false x := fun x hx => (hrest.1 x hx).not_special
      by_cases ho : V.own = true
      · obtain ⟨y, z, rfl, hy, hz⟩ := hrest.2 ho
        exact ⟨.fail rfl (hfirst.own ho) hy hz, .of_plain hplain⟩
      · exact ⟨.any (Obeys.not_special (hfirst.other (Bool.eq_false_iff.mpr ho))), .of_plain hplain⟩
    · refine .modify (fun s hs => ?_) (.pure hr)
      refine hs.beside rfl (.refl _) hs.labels (fun q hq => ?_) hs.caught hs.vars
      cases hq
      exact hr

theorem caughtVar_orders {g : Guard} {q : Supply} (hg : Kempt m V q g) :
    Orders m V p (caughtVar g) fun v => m.Plain v.id := by
  unfold caughtVar
  split
  · rename_i v hv
    exact .pure (hg.caught v hv)
  · exact .throw _

/-- The state in which an error goes on after a cleanup block is one of the machine. -/
theorem propagateState_orders (hV : V.Sees m p) (g : GuardRef) :
    Orders m V p (propagateState g) V.Target := by
  unfold propagateState
  refine .guard fun info q hinfo => ?_
  split
  · rename_i r hr
    exact .pure (hinfo.propagate r hr)
  · refine (newStateIn_orders hV info.outer .propagate .absent .void (by simp)).bind fun r hnew => ?_
    obtain ⟨hlisted, hkind⟩ := hnew
    have hr : V.Target r := ⟨hlisted, fun hc => by simp [Outlook.Clean, hkind] at hc⟩
    refine (caughtVar_orders hinfo).bind fun v hv => (ref_value hV hv).bind fun a ha => ?_
    refine (Orders.value hV (raise_gives ha)).bind fun x hx => ?_
    refine (setStmts_orders (.of_steady ?_)).bind fun _ _ => ?_
    · simpa using Outlook.Value.steady hx hV.alone
    refine Orders.bind (P := fun _ => True) ?_ fun _ _ => .pure hr
    refine modifyGuard_orders fun i q hi => { hi with propagate := fun k hk => ?_ }
    cases hk
    exact hr

/-! ### Routing -/

/-- The tests of a routing are code outside the machine, and its actions may stand anywhere. -/
structure Split.Routing.Known (m : Watch) (V : Outlook) (r : Routing) : Prop where
  arms : ∀ a ∈ r.arms, V.Value m a.1 ∧ V.Steady m a.2
  skips : ∀ v ∈ r.skips, m.Plain v.id

/-- What is known about a handler that errors are routed to. -/
structure Catch.Known (m : Watch) (V : Outlook) (c : Catch) : Prop where
  state : V.Target c.state
  filter : V.Value m c.filter
  var : ∀ v, c.var = some v → m.Plain v.id

section
variable {hosts : Bool} {c : Catch} {ex skip : Var}

/-- Binding the variable of a handler leaves the machine alone. -/
theorem bindCaught_gives (hc : ∀ v, c.var = some v → m.Plain v.id) (hex : m.Plain ex.id) :
    Provides m (bindCaught c ex) fun xs => ∀ x ∈ xs, m.Foreign hosts x := by
  unfold bindCaught
  split
  · exact .pure (by simp)
  · rename_i v hv
    refine Provides.bind (P := m.Foreign hosts) (ref_gives (hc v hv)) fun a ha => ?_
    refine Provides.bind (P := m.Foreign hosts) (ref_gives hex) fun b hb => (coerce_gives hb).bind fun c hc => ?_
    exact (assign_gives ha hc).bind fun d hd => .pure (by simpa using hd)

/-- The test of a filter leaves the machine alone where the filter does. -/
theorem filterGuard_gives (hc : ∀ v, c.var = some v → m.Plain v.id) (hf : m.Foreign hosts c.filter)
    (hex : m.Plain ex.id) (hskip : m.Plain skip.id) :
    Provides m (filterGuard c ex skip) (m.Foreign hosts) := by
  have href : ∀ {v : Var}, m.Plain v.id → Provides m (ref v) (m.Foreign hosts) := ref_gives
  have hbool : ∀ b, Provides m (constBool b) (m.Foreign hosts) := constBool_gives
  have hbind : Provides m (bindCaught c ex) fun xs => ∀ x ∈ xs, m.Foreign hosts x := bindCaught_gives hc hex
  unfold filterGuard
  refine hbind.bind fun bind hbind => (newVar_gives _ _).bind fun raised hraised => ?_
  refine Provides.bind (P := m.Foreign hosts) (typedBlock_gives (by simp) fun x hx => ?_) fun body hbody => ?_
  · obtain hx | hx := List.mem_append.mp hx
    · exact hbind x hx
    · cases List.mem_singleton.mp hx
      exact hf
  refine (href hex).bind fun a ha => (href hraised.1).bind fun b hb => ?_
  refine (assign_gives ha hb).bind fun replace hreplace => ?_
  refine (href hskip).bind fun a ha => (hbool true).bind fun b hb => ?_
  refine (assign_gives ha hb).bind fun set hset => (hbool false).bind fun c hc => ?_
  refine Provides.bind (P := m.Foreign hosts) (typedBlock_gives (by simp) (by simp [hreplace, hset, hc]))
    fun block hblock => ?_
  exact catchAll_gives hraised.1 hbody hblock

end

/-- Routing an error past one handler keeps to states that are known. -/
theorem routeHandler_orders (hV : V.Sees m p) {caught ex : Var} {c : Catch} {skip : Option Var} {r : Routing}
    (hc : c.Known m V) (hcaught : m.Plain caught.id) (hex : m.Plain ex.id)
    (hskip : ∀ v, skip = some v → m.Plain v.id) (hr : r.Known m V) :
    Orders m V p (routeHandler caught ex c skip r) fun q =>
      (∀ v, q.1 = some v → m.Plain v.id) ∧ q.2.Known m V := by
  unfold routeHandler
  extract_lets plain add
  -- the action belongs to the machine when the parts of the handler do
  have hadd : ∀ (test : Expr) (skip : Option Var) (r : Routing), V.Value m test →
      (∀ v, skip = some v → m.Plain v.id) → r.Known m V →
      Orders m V p (add (test, skip, r)) fun q => (∀ v, q.1 = some v → m.Plain v.id) ∧ q.2.Known m V := by
    intro test skip r htest hskip hr
    have hbind : Provides m (bindCaught c ex) fun xs => ∀ x ∈ xs, V.Value m x := bindCaught_gives hc.var hex
    refine (ref_value hV hcaught).bind fun a ha => (ref_value hV hex).bind fun b hb => ?_
    refine (store_value hV ha hb).bind fun keep hkeep => (Orders.build hV hbind).bind fun bind hbind => ?_
    refine (setState_orders hV hc.state.listed).bind fun move hmove => ?_
    have hxs : ∀ x ∈ keep :: bind ++ [move], V.Steady m x := by
      intro x hx
      simp only [List.cons_append, List.mem_cons, List.mem_append, List.not_mem_nil, or_false] at hx
      obtain rfl | hx | rfl := hx
      · exact Outlook.Value.steady hkeep hV.alone
      · exact Outlook.Value.steady (hbind x hx) hV.alone
      · exact hmove.2 hc.state
    refine (Orders.build hV (steadyBlock_gives hxs)).bind fun action haction => .pure ⟨hskip, ?_⟩
    refine ⟨fun a ha => ?_, hr.skips⟩
    obtain ha | ha := List.mem_append.mp ha
    · exact hr.arms a ha
    · cases List.mem_singleton.mp ha
      exact ⟨htest, haction⟩
  split
  rename_i fresh seen _
  extract_lets r' guarded
  have hr' : r'.Known m V := ⟨hr.arms, hr.skips⟩
  have hguarded : ∀ (test : Expr), V.Value m test →
      Orders m V p (guarded test) fun q => (∀ v, q.1 = some v → m.Plain v.id) ∧ q.2.Known m V := by
    intro test htest
    unfold guarded
    split
    · exact hadd _ _ _ htest hskip hr'
    · extract_lets filtered
      -- a filter with the flag that says whether it failed
      have hfiltered : ∀ (v : Var) (r : Routing), m.Plain v.id → r.Known m V →
          Orders m V p (filtered (v, r)) fun q =>
            (∀ v, q.1 = some v → m.Plain v.id) ∧ q.2.Known m V := by
        intro v r hv hr
        refine (Orders.value hV (filterGuard_gives hc.var hc.filter hex hv)).andThen fun a ha => ?_
        refine (Orders.value hV (binary_gives htest ha)).bind fun b hb => hadd _ _ _ hb ?_ ⟨hr.arms, hr.skips⟩
        rintro _ ⟨⟩
        exact hv
      split
      · exact hfiltered _ _ (hskip _ rfl) hr'
      · refine (Orders.build hV (newVar_gives _ _)).andThen fun v hv => hfiltered _ _ hv.1 ⟨hr'.arms, ?_⟩
        intro w hw
        obtain hw | hw := List.mem_append.mp hw
        · exact hr'.skips w hw
        · cases List.mem_singleton.mp hw
          exact hv.1
  split
  · exact .pure ⟨hskip, hr'⟩
  · refine (ref_value hV hex).andThen fun a ha => (Orders.value hV (typeIs_gives ha)).andThen fun test htest => ?_
    split
    · refine (ref_value hV (hskip _ rfl)).andThen fun a ha => (Orders.value hV (not_gives ha)).andThen fun b hb => ?_
      exact (Orders.value hV (binary_gives hb htest)).andThen fun c hc => hguarded _ hc
    · exact hguarded _ htest

/-- The tests and actions of the handlers of a region are known to the machine. -/
theorem routeHandlers_orders (hV : V.Sees m p) {caught ex : Var} {cs : List Catch} {skip : Option Var}
    {r : Routing} (hcs : ∀ c ∈ cs, c.Known m V) (hcaught : m.Plain caught.id) (hex : m.Plain ex.id)
    (hskip : ∀ v, skip = some v → m.Plain v.id) (hr : r.Known m V) :
    Orders m V p (routeHandlers caught ex cs skip r) (·.Known m V) := by
  induction cs generalizing skip r with
  | nil => exact .pure hr
  | cons c cs ih =>
    unfold routeHandlers
    refine (routeHandler_orders hV (hcs c List.mem_cons_self) hcaught hex hskip hr).bind fun q hq => ?_
    exact ih (fun c hc => hcs c (List.mem_cons_of_mem _ hc)) hq.1 hq.2

/-- Routing an error through regions keeps to states that are known. -/
theorem routeGuards_orders (hV : V.Sees m p) {ex : Var} {context : List GuardRef} {r : Routing}
    (hex : m.Plain ex.id) (hr : r.Known m V) :
    Orders m V p (routeGuards ex context r) fun q => q.1.Known m V ∧ ∀ x, q.2 = some x → V.Steady m x := by
  induction context generalizing r with
  | nil => exact .pure ⟨hr, by simp⟩
  | cons g outer ih =>
    unfold routeGuards
    refine .guard fun info q hinfo => (caughtVar_orders hinfo).andThen fun caught hcaught => ?_
    have hcs : ∀ c ∈ info.handlers, c.Known m V := fun c hc =>
      ⟨(hinfo.handlers c hc).1, (hinfo.handlers c hc).2.1, (hinfo.handlers c hc).2.2⟩
    refine (routeHandlers_orders hV hcs hcaught hex (by simp) hr).andThen fun r' hr' => ?_
    split
    · exact ih hr'
    · rename_i cleanup hcleanup
      refine (ref_value hV hcaught).bind fun a ha => (ref_value hV hex).bind fun b hb => ?_
      refine (store_value hV ha hb).bind fun keep hkeep => (propagateState_orders hV g).bind fun n hn => ?_
      refine (setResume_orders hV hn).bind fun resume hgo => ?_
      refine (setState_orders hV (hinfo.cleanup _ hcleanup)).bind fun move hgo' => ?_
      obtain ⟨hresume, haims⟩ := hgo
      have hmove := hgo'.1
      have hkeep' := Outlook.Value.steady hkeep hV.alone
      -- the place to go on is stored right before the cleanup block is entered
      have hlist : V.Listing m false false [keep, resume, move] := by
        refine ⟨by simpa using ⟨hkeep'.obeys, hresume.obeys, hmove.obeys⟩, ?_⟩
        exact ⟨.any (hkeep'.plain _), .any (hresume.plain _), hmove.fits fun ho => .inl (haims ho), trivial⟩
      refine (Orders.build hV ((block_part (by simp) hlist).mono fun _ h => h.steady)).bind fun x hx => ?_
      exact .pure ⟨hr', by simpa using hx⟩

/-- The tests of a routing are asked in order. -/
theorem routeArms_orders (hV : V.Sees m p) {arms : List (Expr × Expr)}
    (harms : ∀ a ∈ arms, V.Value m a.1 ∧ V.Steady m a.2) (hx : V.Steady m x) :
    Orders m V p (arms.foldrM (fun (test, action) rest =>
      (Build.ifThenElse test action rest : Split Expr)) x) (V.Steady m) := by
  induction arms with
  | nil => exact .pure hx
  | cons a arms ih =>
    rw [List.foldrM_cons]
    refine (ih fun a ha => harms a (List.mem_cons_of_mem _ ha)).bind fun rest hrest => ?_
    obtain ⟨htest, haction⟩ := harms a List.mem_cons_self
    exact .build hV (ifThenElse_steady hV htest haction hrest)

/-- What a state does with an error is code of the machine. -/
theorem dispatch_orders (hV : V.Sees m p) {context : List GuardRef} {ex : Var} (hex : m.Plain ex.id) :
    Orders m V p (dispatch context ex) (V.Steady m) := by
  unfold dispatch
  refine (routeGuards_orders hV hex ⟨by simp, by simp⟩).andThen fun q hq => ?_
  obtain ⟨r, rest⟩ := q
  obtain ⟨hr, hrest⟩ := hq
  dsimp -zeta only at hr hrest ⊢
  extract_lets tail
  have htail : ∀ x, V.Steady m x → Orders m V p (tail x) (V.Steady m) := by
    intro x hx
    refine (routeArms_orders hV hr.arms hx).bind fun routed hrouted => ?_
    split
    · exact .pure hrouted
    · refine .build hV ((block_part (fun v hv => (hr.skips v hv).declarable) (.of_steady ?_)).mono
        fun _ h => h.steady)
      simpa using hrouted
  split
  · rename_i x
    exact htail x (hrest x rfl)
  · split
    · refine .read ((ref_value hV hV.excVar).andThen fun a ha => (ref_value hV hex).andThen fun b hb => ?_)
      refine (store_value hV ha hb).bind fun keep hkeep => (rethrowState_orders hV).bind fun n hn => ?_
      refine (setState_orders hV hn.listed).bind fun move hmove => ?_
      refine (Orders.build hV (steadyBlock_gives ?_)).bind fun x hx => htail x hx
      simpa using ⟨Outlook.Value.steady hkeep hV.alone, hmove.2 hn⟩
    · exact (Orders.value hV empty_gives).bind fun x hx => htail x (Outlook.Value.steady hx hV.alone)

/-! ### Closing an enumeration -/

theorem Outlook.Steady.value (h : V.Steady m x) (ho : V.own = false) : V.Value m x := by
  have := h.obeys
  rwa [V.role_other (by simp [ho])] at this

theorem Outlook.Moving.value (h : V.Moving m x) (ho : V.own = false) : V.Value m x := by
  have := h.obeys
  rwa [V.role_other (by simp [ho])] at this

/-- What leads a machine that is left into its cleanup blocks is code outside a machine of another kind. -/
theorem disposeRoute_orders (hV : V.Sees m p) (ho : V.own = false) {context : List GuardRef} :
    Orders m V p (disposeRoute context) fun xs => ∀ x ∈ xs, V.Value m x := by
  induction context with
  | nil =>
    unfold disposeRoute
    refine (setStateId_orders hV _).bind fun a ha => (Orders.value hV (constBool_gives _)).bind fun z hz => ?_
    refine (leaveDispatch_orders hV hz).bind fun b hb => .pure ?_
    simpa using ⟨ha.other ho, hb.1⟩
  | cons g outer ih =>
    unfold disposeRoute
    refine .guard fun info q hinfo => ?_
    split
    · exact ih
    · rename_i cleanup hcleanup
      extract_lets tail
      -- the three statements that enter the cleanup block
      have htail : ∀ r, V.Target r → Orders m V p (tail r) fun xs => ∀ x ∈ xs, V.Value m x := by
        intro r hr
        refine (setResume_orders hV hr).bind fun a ha => ?_
        refine (setState_orders hV (hinfo.cleanup _ hcleanup)).bind fun b hb => ?_
        refine (continueDispatch_orders hV).bind fun c hc => .pure ?_
        simpa using ⟨ha.1.value ho, hb.1.value ho, hc⟩
      split
      · rename_i r hr
        exact htail r (hinfo.disposeExit r hr)
      · refine (newStateIn_orders hV info.outer .disposeExit .absent .void (by simp)).andThen fun r hnew => ?_
        obtain ⟨hlisted, hkind⟩ := hnew
        have hr : V.Target r := ⟨hlisted, fun hc => by simp [Outlook.Clean, hkind] at hc⟩
        refine Orders.bind (P := fun _ => True) ?_ fun _ _ => ih.bind fun route hroute => ?_
        · refine modifyGuard_orders fun i q hi => { hi with disposeExit := fun k hk => ?_ }
          cases hk
          exact hr
        · refine (setStmts_orders (.of_steady fun x hx => ?_)).bind fun _ _ => htail r hr
          exact Outlook.Value.steady (hroute x hx) hV.alone

/-- What asks whether the machine is left is code outside a machine of another kind. -/
theorem disposeGate_orders (hV : V.Sees m p) {context : List GuardRef} :
    Orders m V p (disposeGate context) fun xs => ∀ x ∈ xs, V.Value m x := by
  have htarget := hV.target
  unfold disposeGate
  refine .read ?_
  split
  · exact .pure (by simp)
  · rename_i shape params dispose current heq
    rw [heq] at htarget
    obtain ⟨ho, -, hdispose, -⟩ := htarget
    refine (ref_value hV hdispose.plain).bind fun test htest => (disposeRoute_orders hV ho).bind fun route hroute => ?_
    refine (Orders.build hV (steadyBlock_gives (V := V) fun x hx => ?_)).bind fun block hblock => ?_
    · exact Outlook.Value.steady (hroute x hx) hV.alone
    refine (Orders.build hV (ifThen_steady hV htest hblock)).bind fun x hx => .pure ?_
    simpa using hx.value ho

/-! ### Cases -/

/-- Where no handler is around, more is allowed. -/
theorem Obeys.bare {armed bare : Bool} (h : Obeys m (.inside armed bare) x) :
    Obeys m (.inside armed true) x := by
  cases h with
  | user h => exact .user h
  | raw h => exact .raw h
  | hand ha hk => exact .hand ha hk
  | block hg hv hx hs => exact .block hg hv hx (hs.loosen fun _ => rfl)
  | conditional ht ha hsa hb hsb => exact .conditional ht ha hsa hb hsb
  | switch hv ht ha hs ho hso => exact .switch hv ht ha hs ho hso
  | protect hb hsb hex hh hsh => exact .protect hb hsb hex hh hsh

theorem Outlook.Part.bare {armed bare : Bool} (h : V.Part m armed bare x) : V.Part m armed true x where
  obeys := by
    have hx := h.obeys
    by_cases ho : V.own = true
    · rw [V.role_own ho] at hx ⊢
      exact hx.bare
    · rw [V.role_other ho] at hx ⊢
      exact hx
  plain := h.plain

/-- The case of a state is a list of statements of the machine. -/
theorem caseBody_orders (hV : V.Sees m p) (r : StateRef) :
    Orders m V p (caseBody r) (V.Part m (V.kindOf r == .cleanup) true) := by
  unfold caseBody
  refine .state (k := fun _ => by
    repeat' first | infer_instance | split | dsimp +zetaDelta only | refine .seq ?_ fun _ => ?_)
    fun st hst hshows => .read ?_
  extract_lets body
  have hbody : ∀ title, (∀ x ∈ title, V.Value m x) →
      Orders m V p (body title) (V.Part m (V.kindOf r == .cleanup) true) := by
    intro title htitle
    unfold body
    extract_lets rest
    have hrest : ∀ gate, (∀ x ∈ gate, V.Value m x) →
        Orders m V p (rest gate) (V.Part m (V.kindOf r == .cleanup) true) := by
      intro gate hgate
      refine (transition_orders hV r).bind fun move ⟨hmove, hshape⟩ => ?_
      have hstmts : m.Shape (V.kindOf r == .cleanup) (V.kindOf r == .rethrow) .absent st.stmts.toList := by
        obtain ⟨-, hkind⟩ | rfl := hshows
        · exact hkind ▸ hst.shape
        · trivial
      have hlist : V.Listing m (V.kindOf r == .cleanup) (V.kindOf r == .rethrow)
          (title ++ gate ++ st.stmts.toList ++ move) := by
        refine ⟨fun x hx => ?_, ?_⟩
        · simp only [List.mem_append, Array.mem_toList_iff] at hx
          obtain ((hx | hx) | hx) | hx := hx
          · exact Outlook.Value.obeys (htitle x hx) _ _ hV.alone
          · exact Outlook.Value.obeys (hgate x hx) _ _ hV.alone
          · exact hst.stmts x hx
          · exact hmove x hx
        · refine Watch.Shape.append (Watch.Shape.append (.of_plain fun x hx => ?_) hstmts.of_absent)
            (hshape _ _ _)
          obtain hx | hx := List.mem_append.mp hx
          · exact (htitle x hx).not_special
          · exact (hgate x hx).not_special
      refine (Orders.build hV (block_part (by simp) hlist)).bind fun block hblock => ?_
      split
      · exact .pure hblock.bare
      · rename_i hcontext
        refine Orders.bind (P := fun _ => True) ?_ fun safe _ => ?_
        · unfold isSafe
          split
          · exact .pure trivial
          · exact .throw _
        split
        · exact .pure hblock.bare
        · -- the state that fails the machine stands outside every region
          have hkind : (V.kindOf r == .rethrow) = false := by
            obtain ⟨-, hkind⟩ | rfl := hshows
            · rw [beq_eq_false_iff_ne]
              intro heq
              exact hcontext (by rw [hst.bare (hkind.trans heq)]; rfl)
            · exact absurd rfl hcontext
          rw [hkind] at hblock
          refine (Orders.build hV (newVar_gives _ _)).bind fun ex hex => ?_
          refine (dispatch_orders hV hex.1).bind fun route hroute => ?_
          exact .build hV (catchAll_part hblock hex.1 hroute)
    split
    · exact (disposeGate_orders hV).bind fun gate hgate => hrest gate hgate
    · exact hrest [] (by simp)
  split
  · exact (Orders.value hV (const_gives _)).andThen fun a ha => hbody [a] (by simpa using ha)
  · exact hbody [] (by simp)

theorem announce_orders (r : StateRef) : Orders m V p (announce r) fun _ => True := by
  unfold announce
  refine .read ?_
  extract_lets options
  split
  · refine Orders.bind (P := fun _ => True) (modifyState_orders fun _ h => { h with }) fun _ _ => ?_
    split
    · refine .state fun st _ _ => .read (modify_orders fun s hs => ?_)
      exact hs.beside rfl (.refl _) hs.labels hs.rethrow hs.caught hs.vars
    · exact .pure trivial
  · exact .pure trivial

end

end Resumable
