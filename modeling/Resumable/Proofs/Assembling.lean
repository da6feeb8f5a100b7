import Resumable.Proofs.Covering

/-!
# `Proofs.Assembling`: the block that opens an instance of a machine

The cases become the arms of the switch in the dispatch loop, one for each number that a state has; the
loop becomes the function that an instance is driven by, and a block sets up an instance and runs it for
the first time.

**Contents**
* `emitCases_orders`, `emitDispatch_orders`: the dispatch loop.
* `guarded_gives`: the handler around it.
* `opening_orders`: the block that opens an instance.
-/

namespace Resumable

open Resumable.Expr Split Build

section
variable {m : Watch} {V : Outlook} {p : Plan} {x : Expr}

instance (fuel i : Nat) : Frugal (emitCases fuel i) := by
  induction fuel generalizing i with
  | zero => exact @Frugal.idle _ _ (Idle.pure [])
  | succ fuel ih =>
    unfold emitCases
    repeat' first | infer_instance | split | refine @Frugal.bind _ _ _ _ ?_ fun _ => ?_

/-- The arm of a state: the number that the state has in the end, and a body that may be what the kind
of the state asks for. -/
structure Outlook.ArmOf (V : Outlook) (m : Watch) (r : StateRef) (arm : List Expr × Expr) : Prop where
  listed : V.Listed r
  test : ∃ x, arm.1 = [x] ∧ Watch.Number (· = (V.last.graph.state r).id) x ∧ V.Value m x
  body : V.Part m (V.kindOf r == .cleanup) true arm.2

theorem getElem?_of_registered {s s' : Splitter} {i : Nat} {r : StateRef} (h : Spends s s')
    (hr : s.states[i]? = some r) : s'.states[i]? = some r := by
  obtain ⟨t, ht⟩ := h.registered
  obtain ⟨hlt, -⟩ := Array.getElem?_eq_some_iff.mp hr
  rw [← Array.getElem?_toList, ← ht, List.getElem?_append_left (by simpa using hlt)]
  simpa using hr

/-- There is an arm for every state from the `i`-th on, and no other. -/
theorem emitCases_orders (hV : V.Sees m p) (fuel i : Nat) {s : Splitter} (hs : Orderly m V s)
    (hp : s.Placed) : Toward V p s (emitCases fuel i) fun cs s' =>
      (Orderly m V s' ∧ Spends s s') ∧ (∀ arm ∈ cs, ∃ r, V.ArmOf m r arm) ∧
        (s.due ≤ i + fuel → ∀ j r, i ≤ j → s'.states[j]? = some r → ∃ arm ∈ cs, V.ArmOf m r arm) := by
  have hnone : ∀ {s : Splitter} {i j : Nat} {r : StateRef}, s.states.size ≤ i → i ≤ j →
      s.states[j]? ≠ some r := by
    intro s i j r hle hij heq
    have := (Array.getElem?_eq_some_iff.mp heq).1
    omega
  -- the fuel bounds the states that are still to be emitted: those there are, and those that emitting may add
  induction fuel generalizing i s with
  | zero =>
    refine .pure ⟨⟨hs, (Alike.refl s).spends⟩, by simp, fun hdue j r hij hr => ?_⟩
    exact absurd hr (hnone (Nat.le_trans (by unfold Splitter.due; omega) hdue) hij)
  | succ fuel ih =>
    unfold emitCases
    refine Toward.after (R := fun s₁ s' => s₁ = s ∧ s' = s) (Ensures.of_run rfl ⟨rfl, rfl⟩) ?_
    rintro _ _ ⟨rfl, rfl⟩
    split
    · rename_i hget
      refine .pure ⟨⟨hs, (Alike.refl _).spends⟩, by simp, fun _ j r hij hr => ?_⟩
      exact absurd hr (hnone (Array.getElem?_eq_none_iff.mp hget) hij)
    · rename_i r hr
      refine ((announce_orders r _ hs).ensuring (Idle.alike p _)).bind fun _ s₁ ⟨⟨_, h1⟩, h01⟩ => ?_
      refine ((caseBody_orders hV r s₁ h1).ensuring (Frugal.spends p s₁)).bind
        fun body s₂ ⟨⟨hbody, h2⟩, h12⟩ => Toward.before fun hlast => ?_
      have h02 := h01.spends.trans h12
      have hr2 := getElem?_of_registered h02 hr
      have hmem : r ∈ s₂.states := Array.mem_of_getElem? hr2
      have hlt : r < s₂.graph.states.size := h02.placed hp r hmem
      refine Toward.after (R := fun st s' => st = s₂.graph.state r ∧ s' = s₂)
        (Ensures.of_run rfl ⟨rfl, rfl⟩) ?_
      rintro _ _ ⟨rfl, rfl⟩
      refine ((constInt_orders hV _ _ h2).ensuring (Idle.alike p _)).bind
        fun test s₃ ⟨⟨⟨htest, hvalue⟩, h3⟩, h23⟩ => ?_
      refine (ih (i + 1) h3 (h23.placed (h02.placed hp))).bind fun cs s₄ ⟨⟨h4, h34⟩, hcs, hall⟩ => ?_
      have harm : V.ArmOf m r ([test], body) := by
        refine ⟨hlast.registered r hmem, ⟨test, rfl, ?_, hvalue⟩, hbody⟩
        exact htest.mono fun _ h => h.trans (hlast.state r hlt).1.symm
      refine .pure ⟨⟨h4, h02.trans (h23.spends.trans h34)⟩, fun arm harm' => ?_, fun hdue j q hij hq => ?_⟩
      · obtain rfl | harm' := List.mem_cons.mp harm'
        · exact ⟨r, harm⟩
        · exact hcs arm harm'
      · -- the state at the index has the new arm, those behind it have theirs by induction
        obtain rfl | hlt := Nat.eq_or_lt_of_le hij
        · have := getElem?_of_registered (h23.spends.trans h34) hr2
          rw [hq] at this
          cases this
          exact ⟨_, List.mem_cons_self, harm⟩
        · have hdue' : s₃.due ≤ i + 1 + fuel := by
            have := (h02.trans h23.spends).due
            omega
          obtain ⟨arm, harm', h⟩ := hall hdue' j q hlt hq
          exact ⟨arm, List.mem_cons_of_mem _ harm', h⟩

/-! ### The loop -/

theorem throw_shape (x : Expr) (t : Ty) : Provides m (throwAs x t) fun y => ∃ i r, y = .node i r t (.throw x) := by
  unfold throwAs
  split
  · exact Provides.bind (Provides.throw (P := fun _ => False) _) fun _ h => h.elim
  · exact .of_eq fun q a q' heq => by cases heq; exact ⟨_, _, rfl⟩

/-- A number that no state has is reported together with the number. -/
theorem unknownState_orders (hV : V.Sees m p) : Orders m V p unknownState fun x =>
    (V.own = true → Obeys m .unknown x) ∧ (V.own = false → V.Value m x) := by
  have htarget := hV.target
  unfold unknownState
  refine .read ?_
  split
  · refine .read ((ref_orders hV p.stateVar).bind fun a ha => ?_)
    obtain ⟨⟨i, r, rfl⟩, hvalue⟩ := ha
    refine Orders.bind (P := fun y => (V.own = false → V.Value m y) ∧ ∃ i' r' t' f, V.Value m f ∧
      y = .node i' r' t' (.call f [.node i r p.stateVar.type (.var p.stateVar)]))
      (.build hV (.and (.imp fun ho => ?_) ?_)) fun y hy => ?_
    · exact callLibrary_gives (by simpa using hvalue (hV.stateVar.other ho))
    · unfold callLibrary callFunc
      refine Provides.bind (P := V.Value m) (const_gives _) fun f hf => (call_shape _ _).mono ?_
      rintro _ ⟨i', r', t', rfl⟩
      exact ⟨i', r', t', f, hf, rfl⟩
    · refine (Orders.build hV ((throw_shape y .void).and (.imp fun ho => raise_gives (hy.1 ho)))).mono ?_
      obtain ⟨-, i', r', t', f, hf, rfl⟩ := hy
      rintro _ ⟨⟨i'', r'', rfl⟩, hother⟩
      refine ⟨fun ho => ?_, hother⟩
      rw [hV.stateVar.own ho]
      exact .unknown (.reporting (hV.alone ho ▸ hf))
  · rename_i heq
    rw [heq] at htarget
    refine (Orders.value hV (constBool_gives _)).bind fun z hz => (leaveDispatch_orders hV hz).mono fun y hy => ?_
    exact ⟨fun ho => by simp [htarget.1] at ho, fun _ => hy.1⟩

/-- The arms of the switch have the numbers of the states, and where the resume slot is known to hold a
state the number is that of a cleanup block. -/
theorem choosing_of_arms (hV : V.Sees m p) (ho : V.own = true) {cs : List (List Expr × Expr)} {other : Expr}
    (hcs : ∀ arm ∈ cs, ∃ r, V.ArmOf m r arm) (hother : Obeys m .unknown other)
    (hall : ∀ n, m.Known n → ∃ r, (V.last.graph.state r).id = n ∧ ∃ arm ∈ cs, V.ArmOf m r arm)
    (i r i' r' : Nat) (t : Ty) :
    Obeys m .choosing (.node i r t (.switch (.node i' r' .int (.var m.state)) cs other none)) := by
  classical
  let armed (arm : List Expr × Expr) : Bool := ∃ r, V.ArmOf m r arm ∧ V.Clean r
  -- an arm is armed when it is that of a cleanup state
  have hpart : ∀ arm ∈ cs, V.Part m (armed arm) true arm.2 := by
    intro arm harm
    by_cases h : ∃ r, V.ArmOf m r arm ∧ V.Clean r
    · obtain ⟨r, hr, hclean⟩ := h
      have hbody := hr.body
      rw [show armed arm = true from decide_eq_true ⟨r, hr, hclean⟩]
      rwa [show (V.kindOf r == .cleanup) = true from beq_iff_eq.mpr hclean] at hbody
    · obtain ⟨r, hr⟩ := hcs arm harm
      have hbody := hr.body
      rw [show armed arm = false from decide_eq_false h]
      rwa [show (V.kindOf r == .cleanup) = false from beq_eq_false_iff_ne.mpr fun hc => h ⟨r, hr, hc⟩] at hbody
  refine @Obeys.choosing m i r i' r' t cs other armed (fun arm harm => ?_) (fun arm harm => ?_)
    (fun arm harm => ?_) (fun n hn => ?_) hother
  · by_cases h : ∃ r, V.ArmOf m r arm ∧ V.Clean r
    · obtain ⟨r, hr, hclean⟩ := h
      obtain ⟨x, hx, hnumber, -⟩ := hr.test
      exact ⟨_, x, hx, hnumber, fun _ => hV.clean ho r hr.listed hclean⟩
    · obtain ⟨r, hr⟩ := hcs arm harm
      obtain ⟨x, hx, hnumber, -⟩ := hr.test
      exact ⟨_, x, hx, hnumber, fun ha => absurd (of_decide_eq_true ha) h⟩
  · have := (hpart arm harm).obeys
    rwa [V.role_own ho] at this
  · exact (hpart arm harm).plain _
  · obtain ⟨r, rfl, arm, harm, hr⟩ := hall n hn
    obtain ⟨x, hx, hnumber, -⟩ := hr.test
    exact ⟨arm, harm, x, hx, hnumber⟩

/-- What the watch knows about the dispatch loop of the machine that is split. -/
structure Outlook.Loops (V : Outlook) (m : Watch) (p : Plan) : Prop where
  label : V.own = true → p.brk.type = .void
  known : V.own = true → ∀ n, m.Known n → ∃ r, V.Listed r ∧ (V.last.graph.state r).id = n

/-- The arms of a machine that is not watched are code outside the watched one. -/
theorem Outlook.ArmOf.loose (ho : V.own = false) {cs : List (List Expr × Expr)}
    (hcs : ∀ arm ∈ cs, ∃ r, V.ArmOf m r arm) : LooseCases m V.hosts cs := by
  intro arm harm
  obtain ⟨r, hr⟩ := hcs arm harm
  obtain ⟨x, hx, -, hvalue⟩ := hr.test
  refine ⟨by rw [hx]; simpa using hvalue, ?_⟩
  have := hr.body.obeys
  rwa [V.role_other (by simp [ho])] at this

/-- There is an arm for every state, and the loop is left by the label that the watch knows. -/
theorem turning_orders (hV : V.Sees m p) (hL : V.Loops m p) {cs : List (List Expr × Expr)}
    {slot other : Expr} (hcs : ∀ arm ∈ cs, ∃ r, V.ArmOf m r arm)
    (hslot : (∃ i r, slot = .node i r p.stateVar.type (.var p.stateVar)) ∧
      (m.Plain p.stateVar.id → V.Value m slot))
    (hother : (V.own = true → Obeys m .unknown other) ∧ (V.own = false → V.Value m other)) :
    Orders m V p (do
      let sw ← Build.switch .void slot other none cs
      Build.loop sw (some p.brk) (some p.cont)) fun x =>
        (V.own = true → (∀ r, V.Listed r → ∃ arm ∈ cs, V.ArmOf m r arm) → Obeys m .turning x) ∧
          (V.own = false → V.Value m x) := by
  obtain ⟨⟨i, r, rfl⟩, hslot⟩ := hslot
  have hswitch : V.own = false → Provides m
      (Build.switch .void (.node i r p.stateVar.type (.var p.stateVar)) other none cs) (V.Value m) := by
    intro ho
    exact node_gives (loose_switch (hslot (hV.stateVar.other ho)) (Outlook.ArmOf.loose ho hcs) (hother.2 ho))
  refine (Orders.build hV ((node_shape .void _).and (.imp hswitch))).bind fun sw hsw => ?_
  obtain ⟨⟨i', r', -, rfl⟩, hsw⟩ := hsw
  refine (Orders.build hV ((node_shape _ _).and (.imp fun ho => loop_gives (hsw ho)))).mono ?_
  rintro _ ⟨⟨i'', r'', -, rfl⟩, hloop⟩
  refine ⟨fun ho hall => ?_, hloop⟩
  have htype := hL.label ho
  simp only [Option.map_some, Option.getD_some, htype]
  refine .turning (hV.leave ho) ?_
  rw [hV.stateVar.own ho, (hV.fair ho).types.1]
  refine choosing_of_arms hV ho hcs (hother.1 ho) (fun n hn => ?_) _ _ _ _ _
  obtain ⟨q, hq, hid⟩ := hL.known ho n hn
  exact ⟨q, hid, hall q hq⟩

/-- The dispatch loop of a machine may stand where it is put, and the one of an iterator is a value. -/
theorem emitDispatch_orders (hV : V.Sees m p) (hL : V.Loops m p) {s : Splitter} (hs : Orderly m V s)
    (hp : s.Placed) : Toward V p s emitDispatch fun x s' => Orderly m V s' ∧
      (V.own = true → V.last.states = s'.states → Obeys m .turning x) ∧ (V.own = false → V.Value m x) := by
  unfold emitDispatch
  refine Toward.after (R := fun s₁ s' => s₁ = s ∧ s' = s) (Ensures.of_run rfl ⟨rfl, rfl⟩) ?_
  rintro _ _ ⟨rfl, rfl⟩
  refine (emitCases_orders hV _ 0 hs hp).bind fun cs s₁ ⟨⟨h1, _⟩, hcs, hall⟩ => ?_
  have hall' : ∀ r ∈ s₁.states, ∃ arm ∈ cs, V.ArmOf m r arm := by
    intro r hr
    obtain ⟨j, hj⟩ := Array.mem_iff_getElem?.mp hr
    exact hall (Nat.le_trans (due_le _) (by omega)) j r (Nat.zero_le j) hj
  refine Toward.after (R := fun p' s' => p' = p ∧ s' = s₁) (Ensures.of_run rfl ⟨rfl, rfl⟩) ?_
  rintro _ _ ⟨rfl, rfl⟩
  refine ((ref_orders hV _ _ h1).ensuring (Idle.alike _ _)).bind fun slot s₂ ⟨⟨hslot, h2⟩, h12⟩ => ?_
  refine ((unknownState_orders hV _ h2).ensuring (Idle.alike _ _)).bind fun other s₃ ⟨⟨hother, h3⟩, h23⟩ => ?_
  refine ((turning_orders hV hL hcs hslot hother _ h3).ensuring (Idle.alike _ _)).mono
    fun x s₄ ⟨⟨⟨hown, hvalue⟩, h4⟩, h34⟩ => ⟨h4, fun ho hlast => hown ho fun r hr => hall' r ?_, hvalue⟩
  rw [← (h12.trans (h23.trans h34)).states, ← hlast]
  exact hr

/-! ### The block that opens an instance -/

/-- The variables and the statements of the block that opens an instance. -/
def Split.opening (backend : Backend) (cell continuation : Var) (loop : Expr) :
    Split (List Var × List Expr) := do
  let plan ← read
  let ex ← Build.newVar "ex" .error
  let reset ← setStateId (-1)
  let fail ← backend.setException (← Build.ref cell) (← Build.ref ex)
  let guarded ← Build.catchAll loop ex (← Build.typedBlock .void [] [reset, fail])
  let vars := (← get).vars.toList ++ [plan.stateVar, plan.resumeVar, plan.excVar, cell, continuation]
  let start ← setStateId 0
  let resume ← Build.assign (← Build.ref plan.resumeVar) (← Build.constInt (-1))
  let create ← Build.assign (← Build.ref cell) (← backend.create)
  let closure ← Build.assign (← Build.ref continuation)
    (← Build.lambda "continuation" false [] guarded)
  let run ← Build.call (← Build.ref continuation) []
  return (vars, [start, resume, create, closure, run, ← backend.awaitable (← Build.ref cell)])

theorem assembleAsync_eq (backend : Backend) (cell continuation : Var) (loop : Expr) :
    assembleAsync backend cell continuation loop = (do
      let (vars, xs) ← Split.opening backend cell continuation loop
      Build.block vars xs) := by
  simp only [assembleAsync, Split.opening, bind_assoc, pure_bind]

instance (backend : Backend) (cell continuation : Var) (loop : Expr) :
    Keeps (Split.opening backend cell continuation loop) := by
  unfold Split.opening
  repeat' first | infer_instance | split | refine .seq ?_ fun _ => ?_

instance (backend : Backend) (cell continuation : Var) (loop : Expr) :
    Idle (Split.opening backend cell continuation loop) := by
  unfold Split.opening
  repeat' first | infer_instance | split | refine @Idle.bind _ _ _ _ ?_ fun _ => ?_

theorem lambda_shape (name : String) (fallible : Bool) (params : List Var) (body : Expr) :
    Provides m (Build.lambda name fallible params body) fun y =>
      ∃ i r t, y = .node i r t (.lambda name params body .plain fallible) := by
  unfold Build.lambda
  refine (Provides.any _).bind fun t _ => ?_
  unfold lambdaOf
  extract_lets outs fits
  split
  · exact .of_eq fun q a q' heq => by cases heq; exact ⟨_, _, _, rfl⟩
  · exact .throw _

theorem callLibrary_shape (f : Library) (xs : List Expr) : Provides m (callLibrary f xs) fun y =>
    ∃ i r t g, y = .node i r t (.call g xs) := by
  unfold callLibrary callFunc
  refine (Provides.any _).bind fun g _ => (call_shape g xs).mono ?_
  rintro _ ⟨i, r, t, rfl⟩
  exact ⟨i, r, t, g, rfl⟩

theorem create_shape {b : Backend} : Provides m b.create fun x => x.hasKind .call = true := by
  have hcall : ∀ f, Provides m (callLibrary f []) fun x => x.hasKind .call = true := fun f =>
    (callLibrary_shape f []).mono fun _ ⟨_, _, _, _, h⟩ => h ▸ rfl
  cases b <;> exact hcall _

/-- The handle is read off the cell, or asked for by a call. -/
theorem awaitable_simple {b : Backend} {cell : Expr} (hc : Watch.Simple cell) :
    Provides m (b.awaitable cell) Watch.Simple := by
  cases b with
  | task t => exact .pure hc
  | future => exact .pure hc
  | valueTask t =>
    refine (methodCall_shape _ _ _).mono ?_
    rintro _ ⟨i, r, t, rfl⟩
    trivial
  | valueFuture =>
    refine (Provides.any _).bind fun x _ => (callLibrary_shape _ _).mono ?_
    rintro _ ⟨i, r, t, g, rfl⟩
    trivial

/-- The handler of what leaves the loop marks the machine as over and fails the cell. -/
theorem failing_gives {reset fail : Expr} (hreset : V.Stores m m.state (Watch.Number (· = -1)) reset)
    (hfail : V.Value m fail) (hquits : V.own = true → m.Quits fail) (ha : V.own = true → V.hosts = false) :
    Provides m (typedBlock .void [] [reset, fail]) fun x =>
      (V.own = true → Obeys m .failing x) ∧ (V.own = false → V.Value m x) := by
  have hvalue : V.own = false → Provides m (typedBlock .void [] [reset, fail]) (V.Value m) := fun ho =>
    typedBlock_gives (by simp) (by simpa using ⟨hreset.other ho, hfail⟩)
  refine ((node_shape .void _).and (.imp hvalue)).mono ?_
  rintro _ ⟨⟨i, r, hr, rfl⟩, hother⟩
  refine ⟨fun ho => ?_, hother⟩
  obtain ⟨hcalls, i', r', t', receiver, name, args, rfl, -⟩ := hquits ho
  exact .failing hr (by simp) (hreset.own ho) (ha ho ▸ hfail) trivial hcalls

/-- The dispatch loop inside the handler that makes the cell fail. -/
theorem guarded_gives {loop handler : Expr} {ex : Var} (hex : m.Plain ex.id)
    (hloop : (V.own = true → Obeys m .turning loop) ∧ (V.own = false → V.Value m loop))
    (hhandler : (V.own = true → Obeys m .failing handler) ∧ (V.own = false → V.Value m handler)) :
    Provides m (catchAll loop ex handler) fun x =>
      (V.own = true → Obeys m .guarded x) ∧ (V.own = false → V.Value m x) := by
  refine Provides.and (.imp fun ho => ?_) (.imp fun ho => catchAll_gives hex (hloop.2 ho) (hhandler.2 ho))
  unfold catchAll protect
  refine (Provides.any _).bind fun t _ => (node_shape t _).mono ?_
  rintro _ ⟨i, r, -, rfl⟩
  exact .guarded (hloop.1 ho) hex (hhandler.1 ho)

/-- The block that opens an instance, but for the node itself. -/
structure Outlook.Opens (V : Outlook) (m : Watch) (vars : List Var) (xs : List Expr) : Prop where
  own : V.own = true → (∀ i, ¬ m.gone i) → ∀ i r t, r ≤ m.limit.refs → m.copies r →
    Obeys m .opening (.node i r t (.block vars xs))
  other : V.own = false → (∀ v ∈ vars, m.Declarable v) ∧ ∀ x ∈ xs, V.Value m x

/-- **The block that opens an instance** sets up its slots, makes the function that runs the loop and calls it
once. -/
theorem opening_orders (hV : V.Sees m p) {backend : Backend} {cell continuation : Var}
    (htarget : p.target = .async backend cell continuation) {loop : Expr}
    (hloop : (V.own = true → Obeys m .turning loop) ∧ (V.own = false → V.Value m loop)) :
    Orders m V p (Split.opening backend cell continuation loop) fun q => V.Opens m q.1 q.2 := by
  have hknown := hV.target
  rw [htarget] at hknown
  obtain ⟨hcell, hown, hcont⟩ := hknown
  -- the dispatch loop inside the handler that makes the cell fail
  unfold Split.opening
  refine .read ((Orders.build hV (newVar_gives _ _)).andThen fun ex hex => ?_)
  refine (setStateId_orders hV _).andThen fun reset hreset => ?_
  refine (ref_orders hV cell).andThen fun c hc => (ref_orders hV ex).andThen fun err herr => ?_
  refine (Orders.build hV ((Backend.setException_gives (hc.2 hcell) (herr.2 hex.1)).and
    (.imp (c := V.own = true) fun ho => setException_quits (m := m) ?_ ?_))).andThen fun fail hfail => ?_
  · obtain ⟨⟨i, r, rfl⟩, -⟩ := hc
    rw [hown ho]
    rfl
  · obtain ⟨⟨i, r, rfl⟩, -⟩ := herr
    rfl
  refine (Orders.build hV (failing_gives hreset hfail.1 hfail.2 hV.alone)).andThen fun handler hhandler => ?_
  refine (Orders.build hV (guarded_gives hex.1 hloop hhandler)).andThen fun guarded hguarded => .get fun s hs => ?_
  -- the statements that set up an instance and run it for the first time
  extract_lets vars
  refine (setStateId_orders hV 0).andThen fun start hstart => (ref_orders hV _).andThen fun a ha => ?_
  refine (constInt_orders hV _).andThen fun b hb => ?_
  refine (stores_orders hV hV.resumeVar ha.1 ha.2 hb.1 fun _ => hb.2).andThen fun resume hresume => ?_
  refine (ref_value hV hcell).andThen fun c hc => ?_
  have hmake : Provides m backend.create (V.Value m) := Backend.create_gives
  refine (Orders.build hV (hmake.and create_shape)).andThen fun d hd => ?_
  refine (Orders.build hV ((assign_gives hc hd.1).and (assign_shape c d))).bind fun create hcreate => ?_
  refine (ref_orders hV continuation).bind fun k hk => ?_
  refine (Orders.build hV ((lambda_shape _ _ _ _).and (.imp (c := V.own = false) fun ho =>
    lambda_gives (by simp) (hguarded.2 ho)))).bind fun run hrun => ?_
  refine (Orders.build hV ((assign_shape k run).and (.imp (c := V.own = false) fun ho =>
    assign_gives (hk.2 (hcont.other ho)) (hrun.2 ho)))).bind fun closure hclosure => ?_
  refine (ref_orders hV continuation).bind fun k' hk' => ?_
  refine (Orders.build hV ((call_shape k' []).and (.imp (c := V.own = false) fun ho =>
    call_gives (hk'.2 (hcont.other ho)) (by simp)))).bind fun go hgo => ?_
  refine (ref_orders hV cell).bind fun c' hc' => ?_
  refine (Orders.build hV ((Backend.awaitable_gives (hc'.2 hcell)).and (awaitable_simple ?_))).bind
    fun handle hhandle => .pure ⟨fun ho hgone i r t hr hcopy => ?_, fun ho => ⟨?_, ?_⟩⟩
  · obtain ⟨⟨i, r, rfl⟩, -⟩ := hc'
    trivial
  · -- for its own machine the block opens an instance
    obtain ⟨⟨i₁, r₁, rfl⟩, -⟩ := hk
    obtain ⟨⟨i₂, r₂, rfl⟩, -⟩ := hk'
    obtain ⟨⟨i₃, r₃, t₃, rfl⟩, -⟩ := hrun
    obtain ⟨⟨i₄, r₄, t₄, rfl⟩, -⟩ := hclosure
    obtain ⟨⟨i₅, r₅, t₅, rfl⟩, -⟩ := hgo
    have hfalse := hV.alone ho
    have hstate := hV.stateVar.own ho
    have hresumeVar := hV.resumeVar.own ho
    have hcontVar := hcont.own ho
    have hnotOpens : ∀ {y : Expr}, m.Foreign V.hosts y → ¬ m.Opens y := by
      rintro y hy (h | h)
      · exact (hy.not_puts h).foreign (.inl rfl)
      · exact (hy.not_puts h).foreign (.inr (.inl rfl))
    obtain ⟨hcreate, i₆, r₆, t₆, rfl⟩ := hcreate
    show Obeys m .opening (.node i r t (.block vars ([start, resume, _] ++ _ :: [_, handle])))
    refine .opening hr hcopy (fun v hv => ?_) ?_ ?_ (fun _ => ⟨start, by simp, hstart.own ho⟩)
      (fun _ => ⟨resume, by simp, hresume.own ho⟩) ⟨i₄, r₄, t₄, i₁, r₁, _, by rw [← hcontVar]⟩
      (.running (hguarded.1 ho)) ?_ ?_ ⟨_, List.mem_cons_self, hcontVar⟩
    · simp only [vars, List.mem_append, Array.mem_toList_iff, List.mem_cons, List.not_mem_nil, or_false] at hv
      obtain hv | rfl | rfl | rfl | rfl | rfl := hv
      · exact .inl (hs.vars v hv)
      · exact .inr ⟨.inl hstate, hgone _⟩
      · exact .inr ⟨.inr (.inl hresumeVar), hgone _⟩
      · exact .inl hV.excVar.declarable
      · exact .inl hcell.declarable
      · exact .inr ⟨.inr (.inr hcontVar), hgone _⟩
    · simp only [List.mem_cons, List.not_mem_nil, or_false, forall_eq_or_imp, forall_eq]
      exact ⟨.inl (.inl (hstart.own ho)), .inl (.inr (hresume.own ho)), .inr (.inl hd.2)⟩
    · simp only [List.mem_cons, List.not_mem_nil, or_false, forall_eq_or_imp, forall_eq]
      exact ⟨fun h => absurd (.inl (hstart.own ho)) h, fun h => absurd (.inr (hresume.own ho)) h,
        fun _ => hfalse ▸ hcreate⟩
    · simp only [List.mem_cons, List.not_mem_nil, or_false, forall_eq_or_imp, forall_eq]
      exact ⟨trivial, hhandle.2⟩
    · simp only [List.mem_cons, List.not_mem_nil, or_false, forall_eq_or_imp, forall_eq]
      exact ⟨fun h => absurd hcontVar h, fun _ => hfalse ▸ hhandle.1⟩
  · -- for any other machine it is code outside
    intro v hv
    simp only [vars, List.mem_append, Array.mem_toList_iff, List.mem_cons, List.not_mem_nil, or_false] at hv
    obtain hv | rfl | rfl | rfl | rfl | rfl := hv
    · exact hs.vars v hv
    · exact (hV.stateVar.other ho).declarable
    · exact (hV.resumeVar.other ho).declarable
    · exact hV.excVar.declarable
    · exact hcell.declarable
    · exact (hcont.other ho).declarable
  · simp only [List.mem_cons, List.not_mem_nil, or_false, forall_eq_or_imp, forall_eq]
    exact ⟨hstart.other ho, hresume.other ho, hcreate.1, hclosure.2 ho, hgo.2 ho, hhandle.1⟩

end

end Resumable
