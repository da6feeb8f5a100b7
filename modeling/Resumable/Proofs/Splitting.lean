import Resumable.Proofs.Ordering
import Resumable.Proofs.Visit

/-!
# `Proofs.Splitting`: splitting a body keeps the splitter in order

Every case of splitting turns a tree that treats the machine as it should into statements that do, and
gives a value that does. Visiting the operands is given for each case; the whole visit follows by
induction on the height.

**Contents**
* `VisitsWell`: what visiting a tree keeps and gives.
* One lemma for each case, and `visit_orders` for all of them.
-/

namespace Resumable

open Resumable.Expr Split Build

/-- Visiting a tree of code outside the machine keeps the splitter in order and gives such code. -/
structure VisitsWell (m : Watch) (V : Outlook) (p : Plan) (visit : Expr → Split Expr) : Prop where
  keeps : ∀ e, Keeps (visit e)
  orders : ∀ e, V.Value m e → Orders m V p (visit e) (V.Value m)

section
variable {m : Watch} {V : Outlook} {p : Plan} {visit : Expr → Split Expr} {e x y : Expr} {i r : Nat} {t : Ty}
  {d : Data Expr} {v : Var}

theorem Outlook.Value.operand {c : Expr} (h : V.Value m (.node i r t d)) (hd : d.kind ≠ .lambda)
    (hc : c ∈ operands d) : V.Value m c := (h.ordinary hd).2 c hc

/-! ### Operators and blocks -/

/-- Operands that are spilled and read again are code outside the machine. -/
theorem visitOperands_orders (hV : V.Sees m p) (hv : VisitsWell m V p visit) (xs : List Expr)
    (hxs : ∀ x ∈ xs, V.Value m x) :
    Orders m V p (visitOperands visit xs) fun rs => ∀ r ∈ rs, V.Value m r := by
  have := hv.keeps
  induction xs with
  | nil => exact .pure (by simp)
  | cons x xs ih =>
    have hrest : ∀ v, V.Value m v → Orders m V p (do return v :: (← visitOperands visit xs))
        fun rs => ∀ r ∈ rs, V.Value m r := by
      intro v hval
      refine (ih fun y hy => hxs y (List.mem_cons_of_mem _ hy)).bind fun rs hrs => .pure ?_
      simpa [hval] using hrs
    unfold visitOperands
    refine (hv.orders x (hxs x List.mem_cons_self)).bind fun v hval => .anyNeeds fun b => ?_
    extract_lets tail
    split
    · exact (spill_orders hV hval).bind hrest
    · exact hrest v hval

/-- The statements of a block are added to the current state. -/
theorem visitBlock_orders (hV : V.Sees m p) (hv : VisitsWell m V p visit) {vars : List Var}
    {xs : List Expr} (h : V.Value m (.node i r t (.block vars xs))) :
    Orders m V p (visitBlock visit (.node i r t (.block vars xs)) vars xs) (V.Value m) := by
  have := hv.keeps
  obtain ⟨⟨hvars, -⟩, hxs⟩ := h.ordinary (by simp [Data.kind])
  unfold visitBlock
  refine .modify (fun s hs => hs.beside rfl (.refl _) hs.labels hs.rethrow hs.caught fun w hw => ?_) ?_
  · obtain hw | hw := Array.mem_append.mp hw
    · exact hs.vars w hw
    · exact hvars w (List.mem_toArray.mp hw)
  · cases hlast : xs.getLast? with
    | none => exact .build hV (default_gives _)
    | some last =>
      refine Orders.bind (P := fun _ => True) ?_ fun _ _ => ?_
      · refine (Orders.forIn (I := fun rest _ => ∀ x ∈ rest, V.Value m x)
          (fun x hx => hxs x (List.dropLast_subset _ hx)) fun x rest _ hrest => ?_).mono fun _ _ => trivial
        refine (hv.orders x (hrest x List.mem_cons_self)).bind fun v hval => ?_
        refine (emitValue_orders hV hval).bind fun _ _ => .pure ⟨_, rfl, ?_⟩
        exact fun y hy => hrest y (List.mem_cons_of_mem _ hy)
      · refine (hv.orders last (hxs last (List.mem_of_getLast? hlast))).bind fun v hval => ?_
        split
        · exact (emitValue_orders hV hval).bind fun _ _ => .build hV empty_gives
        · exact .build hV (coerce_gives hval)

/-- A node that is rebuilt around the value of one operand. -/
theorem visitOne_orders (hV : V.Sees m p) (hv : VisitsWell m V p visit) (hx : V.Value m x)
    {f : Expr → Data Expr} (hf : ∀ v, V.Value m v → Loose m V.hosts (f v)) :
    Orders m V p (do Build.withData e (f (← visit x))) (V.Value m) := by
  have := hv.keeps
  exact (hv.orders x hx).bind fun v hval => .build hV (withData_gives (hf v hval))

/-- Only variables and fields are stored into. -/
theorem assign_target {target value : Expr} {s : Splitter} : Ensures p s (liftM (assign target value) : Split Expr)
    fun _ _ => target.hasKind .variable = true ∨ target.hasKind .field = true := by
  intro a s' hrun
  cases target with
  | absent => cases hrun
  | node i r t d => cases d <;> first | exact .inl rfl | exact .inr rfl | cases hrun

/-- A variable that is stored into is code outside the machine. -/
theorem Outlook.Value.target {op : AssignOp} {target value : Expr}
    (h : V.Value m (.node i r t (.assign op target value)))
    (ht : target.hasKind .variable = true ∨ target.hasKind .field = true) : V.Value m target := by
  obtain ⟨hvar, hops⟩ := h.ordinary (by simp [Data.kind])
  obtain hk | hk := ht
  · cases target with
    | absent => cases hk
    | node ti tr tt td =>
      cases td with
      | var w => exact .node (by simp [operands]) (hvar w rfl) (by simp [operands])
      | _ => cases hk
  · exact hops target (mem_operands_assign.mpr (.inl ⟨hk, rfl⟩))

/-- A store in the source is code outside the machine, whatever becomes of its parts. -/
theorem visitAssign_orders (hV : V.Sees m p) (hv : VisitsWell m V p visit) {op : AssignOp}
    {target value : Expr} (h : V.Value m (.node i r t (.assign op target value))) :
    Orders m V p (visitAssign visit (.node i r t (.assign op target value)) op target value)
      (V.Value m) := by
  have := hv.keeps
  obtain ⟨hvar, hops⟩ := h.ordinary (by simp [Data.kind])
  have hvalue : V.Value m value := hops value (mem_operands_assign.mpr (.inr rfl))
  unfold visitAssign
  refine .needs fun splits => ?_
  split
  · rename_i ti tr tt object name
    have hobject : V.Value m object := (h.target (.inr rfl)).operand (by simp [Data.kind]) (by simp [operands])
    refine (hv.orders object hobject).andThen fun ob hob => ?_
    extract_lets tail
    have htail : ∀ ob, V.Value m ob → Orders m V p (tail ob) (V.Value m) := by
      intro ob hob
      have hfield : Loose m V.hosts (.field ob name) := ⟨fun _ _ => trivial, by simpa [operands] using hob⟩
      refine (Orders.value hV (withData_gives hfield)).andThen fun target ht => ?_
      split
      · exact .value hV (withData_gives (loose_assign ht hvalue))
      · split
        · refine (spill_orders hV ht).bind fun old hold => (hv.orders value hvalue).bind fun w hw => ?_
          refine (Orders.value hV (binary_gives hold hw)).bind fun b hb => ?_
          exact store_value hV ht hb
        · refine (hv.orders value hvalue).bind fun w hw => ?_
          exact .value hV (withData_gives (loose_assign ht hw))
    split
    · exact (spill_orders hV hob).andThen htail
    · exact htail ob hob
  · split
    · -- nothing is left to show when the store is refused in the end
      by_cases ht : target.hasKind .variable = true ∨ target.hasKind .field = true
      · have htarget := h.target ht
        refine (spill_orders hV htarget).bind fun old hold => (hv.orders value hvalue).bind fun w hw => ?_
        refine (Orders.value hV (binary_gives hold hw)).bind fun b hb => ?_
        exact store_value hV htarget hb
      · have hany : ∀ {β : Type} {s : Splitter} {x : Split β}, Ensures p s x fun _ _ => True :=
          fun _ _ _ => trivial
        refine fun s _ => Toward.after hany fun old s₁ _ => Toward.after hany fun w s₂ _ => ?_
        refine Toward.after hany fun b s₃ _ => ?_
        exact .of_ensures (assign_target.mono fun _ _ hk => absurd hk ht)
    · refine (hv.orders value hvalue).bind fun w hw => ?_
      refine .value hV (withData_gives ⟨fun _ _ => hvar, fun c hc => ?_⟩)
      obtain ⟨hf, rfl⟩ | rfl := mem_operands_assign.mp hc
      · exact hops c (mem_operands_assign.mpr (.inl ⟨hf, rfl⟩))
      · exact hw

/-- A throw, or a throw again of what was caught. -/
theorem visitThrow_orders (hV : V.Sees m p) (hv : VisitsWell m V p visit) {value : Expr}
    (h : V.Value m (.node i r t (.throw value))) :
    Orders m V p (visitThrow visit (.node i r t (.throw value)) value) (V.Value m) := by
  have := hv.keeps
  unfold visitThrow
  split
  · exact visitOne_orders hV hv (h.operand (by simp [Data.kind]) (by simp [operands])) fun v hval =>
      ⟨fun _ _ => trivial, by simpa [operands] using hval⟩
  · refine .get fun s hs => ?_
    split
    · exact .pure h
    · rename_i v hcaught
      exact (ref_value hV (hs.caught v hcaught)).bind fun a ha => .build hV (throwAs_gives ha)

/-! ### Arms that meet -/

variable {merge : StateRef}

theorem branch_orders (hV : V.Sees m p) (hv : VisitsWell m V p visit) (hx : V.Value m x)
    (hm : V.Target merge) : Orders m V p (branch visit x merge) (V.Steady m) := by
  have := hv.keeps
  unfold branch
  refine .get fun s _ => newInlined_orders.bind fun entry hentry => ?_
  refine (goOnIn_orders entry).bind fun _ _ => (hv.orders x hx).bind fun v hval => ?_
  refine (assignResult_orders hV hval).bind fun _ _ => (closeWith_orders hm).bind fun _ _ => ?_
  exact (goOnIn_orders s.current).bind fun _ _ => inlineState_orders hV hentry

/-- A part in a state of its own, which goes on to a given one. -/
theorem standalone_orders (hV : V.Sees m p) (hv : VisitsWell m V p visit) (hx : V.Value m x)
    (hm : V.Target merge) {kind : StateKind} (hkind : kind ≠ .cleanup) (hbare : kind ≠ .rethrow) :
    Orders m V p (standalone visit kind x merge) V.Target := by
  have := hv.keeps
  unfold standalone
  refine .get fun s _ => (newState_orders hV kind x .void hkind hbare).bind fun entry hentry => ?_
  refine (goOnIn_orders entry).bind fun _ _ => (hv.orders x hx).bind fun v hval => ?_
  refine (assignResult_orders hV hval).bind fun _ _ => (closeWith_orders hm).bind fun _ _ => ?_
  exact (goOnIn_orders s.current).bind fun _ _ => .pure hentry

/-- A conditional becomes a move to one of two states. -/
theorem visitConditional_orders (hV : V.Sees m p) (hv : VisitsWell m V p visit) {test a b : Expr}
    (h : V.Value m (.node i r t (.conditional test a b))) :
    Orders m V p (visitConditional visit (.node i r t (.conditional test a b)) test a b) (V.Value m) := by
  have := hv.keeps
  have hop : ∀ c ∈ [test, a, b], V.Value m c := fun c hc => h.operand (by simp [Data.kind]) hc
  unfold visitConditional
  refine (hv.orders test (hop _ (by simp))).bind fun test' ht => .needs fun _ => .needs fun _ => ?_
  split
  · exact .build hV (withData_gives ⟨fun _ _ => trivial, by
      simpa [operands] using ⟨ht, hop a (by simp), hop b (by simp)⟩⟩)
  · refine (newState_orders hV .merge _ _ (by decide) (by decide)).bind fun merge hm => ?_
    refine (branch_orders hV hv (hop a (by simp)) hm).bind fun a' ha => ?_
    refine (branch_orders hV hv (hop b (by simp)) hm).bind fun b' hb => ?_
    refine (Orders.build hV (ifThenElse_steady hV ht ha hb)).bind fun s hs => ?_
    exact (splitAt_orders hs).bind fun _ _ => resultRef_orders hV merge _

/-- A logical operation becomes a move to one of two states. -/
theorem visitLogical_orders (hV : V.Sees m p) (hv : VisitsWell m V p visit) {op : BinaryOp}
    {left right : Expr} (hl : V.Value m left) (hr : V.Value m right) :
    Orders m V p (visitLogical visit e op left right) (V.Value m) := by
  have := hv.keeps
  unfold visitLogical
  refine (hv.orders left hl).andThen fun left' hl' => .needs fun _ => ?_
  split
  · exact .build hV (withData_gives ⟨fun _ _ => trivial, by simpa [operands] using ⟨hl', hr⟩⟩)
  · refine (newState_orders hV .merge _ _ (by decide) (by decide)).andThen fun merge hm => ?_
    refine (resultRef_orders hV merge _).bind fun target htarget => ?_
    refine (Orders.value hV (constBool_gives _)).bind fun c hc => ?_
    refine (store_value hV htarget hc).bind fun keep hkeep => ?_
    refine (setState_orders hV hm.listed).bind fun move hmove => ?_
    have hsteady : ∀ x ∈ [keep, move], V.Steady m x := by
      simpa using ⟨Outlook.Value.steady hkeep hV.alone, hmove.2 hm⟩
    refine (Orders.build hV (steadyBlock_gives hsteady)).bind fun short hshort => ?_
    refine (branch_orders hV hv hr hm).bind fun long hlong => ?_
    split
    · refine (Orders.build hV (ifThenElse_steady hV hl' hshort hlong)).bind fun s hs => ?_
      exact (splitAt_orders hs).bind fun _ _ => resultRef_orders hV merge _
    · refine (Orders.build hV (ifThenElse_steady hV hl' hlong hshort)).bind fun s hs => ?_
      exact (splitAt_orders hs).bind fun _ _ => resultRef_orders hV merge _

/-- Operators, also those that may skip their second operand. -/
theorem visitBinary_orders (hV : V.Sees m p) (hv : VisitsWell m V p visit) {op : BinaryOp}
    {left right : Expr} {method : Option Native}
    (h : V.Value m (.node i r t (.binary op left right method))) :
    Orders m V p (visitBinary visit (.node i r t (.binary op left right method)) op left right method)
      (V.Value m) := by
  have := hv.keeps
  have hop : ∀ c ∈ [left, right], V.Value m c := fun c hc => h.operand (by simp [Data.kind]) hc
  unfold visitBinary
  split
  · exact visitLogical_orders hV hv (hop _ (by simp)) (hop _ (by simp))
  · refine (visitOperands_orders hV hv _ hop).andThen fun rs hrs => ?_
    split
    · exact .build hV (withData_gives ⟨fun _ _ => trivial, by simpa [operands] using hrs⟩)
    · exact .pure h

/-! ### Switches -/

/-- A switch whose bodies need splitting becomes a move to one of their states. -/
theorem switchBodies_orders (hV : V.Sees m p) (hv : VisitsWell m V p visit) {value value' other : Expr}
    {cases : List (List Expr × Expr)} {comparer : Option Native} (hvalue : V.Value m value')
    (h : V.Value m (.node i r t (.switch value cases other comparer))) :
    Orders m V p (switchBodies visit (.node i r t (.switch value cases other comparer)) value' cases other
      comparer) (V.Value m) := by
  have := hv.keeps
  have hops := fun c hc => h.operand (c := c) (by simp [Data.kind]) (mem_operands_switch.mpr hc)
  unfold switchBodies
  refine (newState_orders hV .merge _ _ (by decide) (by decide)).andThen fun merge hm => ?_
  extract_lets arms out
  -- the arms that were made so far are steady, and so are the cases with their arms
  refine Orders.andThen (Orders.forIn (I := fun rest (st : List (Expr × Expr) × List (List Expr × Expr)) =>
    (∀ arm ∈ rest, arm ∈ cases) ∧ (∀ q ∈ st.1, V.Steady m q.2) ∧
      ∀ arm ∈ st.2, (∀ x ∈ arm.1, V.Value m x) ∧ V.Steady m arm.2)
    ⟨fun _ h => h, by simp [arms], by simp [out]⟩ ?_ (k := fun _ _ => by dsimp only; split <;> infer_instance))
    ?_
  · rintro ⟨tests, body⟩ rest ⟨arms, out⟩ ⟨hrest, harms, hout⟩
    have hmem := hrest _ List.mem_cons_self
    have hnext : ∀ arm, V.Steady m arm → ∀ c ∈ out ++ [(tests, arm)],
        (∀ x ∈ c.1, V.Value m x) ∧ V.Steady m c.2 := by
      intro arm harm c hc
      obtain hc | hc := List.mem_append.mp hc
      · exact hout c hc
      · cases List.mem_singleton.mp hc
        exact ⟨fun x hx => hops x (.inr (.inl ⟨_, hmem, .inl hx⟩)), harm⟩
    dsimp only
    split
    · -- the very body of an earlier case: its arm is used again
      rename_i arm hlook
      obtain ⟨q, hq, -, rfl⟩ := exists_mem_of_lookupSame hlook
      exact .pure ⟨_, rfl, fun c hc => hrest c (List.mem_cons_of_mem _ hc), harms, hnext _ (harms q hq)⟩
    · refine (branch_orders hV hv (hops body (.inr (.inl ⟨_, hmem, .inr rfl⟩))) hm).bind fun arm harm => ?_
      refine .pure ⟨_, rfl, fun c hc => hrest c (List.mem_cons_of_mem _ hc), fun q hq => ?_, hnext _ harm⟩
      obtain rfl | hq := List.mem_cons.mp hq
      · exact harm
      · exact harms q hq
  · rintro ⟨arms, out⟩ ⟨-, -, hout⟩
    extract_lets out' tail
    have htail : ∀ x, V.Value m x → Orders m V p (tail x) (V.Value m) := by
      intro x hx
      refine (branch_orders hV hv hx hm).bind fun fallback hfallback => ?_
      refine (Orders.build hV (switch_steady hV hvalue hout hfallback)).bind fun s hs => ?_
      exact (splitAt_orders hs).bind fun _ _ => resultRef_orders hV merge _
    split
    · exact (Orders.value hV (default_gives _)).bind htail
    · exact htail other (hops other (.inr (.inr rfl)))

theorem jumpTo_orders (hV : V.Sees m p) {n : StateRef} (hn : V.Target n) :
    Orders m V p (jumpTo n) (V.Steady m) := by
  unfold jumpTo
  refine (setState_orders hV hn.listed).bind fun a ha => (continueDispatch_orders hV).bind fun b hb => ?_
  exact .build hV (steadyBlock_gives (by simpa using ⟨ha.2 hn, Outlook.Value.steady hb hV.alone⟩))

theorem matchTest_gives {hosts : Bool} {comparer : Option Native} (hx : m.Foreign hosts x)
    (hy : m.Foreign hosts y) : Provides m (matchTest comparer x y) (m.Foreign hosts) := by
  unfold matchTest
  split
  · exact callFunc_gives (by simpa using ⟨hx, hy⟩)
  · exact binary_gives hx hy

/-- A test that was collected from the cases. -/
structure Outlook.Tests (V : Outlook) (m : Watch) (q : SwitchTest) : Prop where
  test : V.Value m q.test
  entry : V.Target q.entry

/-- The tests of one case. -/
theorem caseTests_orders (ts : List Expr) (entry : StateRef) (tests : List SwitchTest)
    (hts : ∀ x ∈ ts, V.Value m x) (he : V.Target entry) (htests : ∀ q ∈ tests, V.Tests m q) :
    Orders m V p (forIn ts tests fun t tests => do
        let b ← needs t
        pure (ForInStep.yield (tests ++ [(⟨t, entry, b⟩ : SwitchTest)])))
      fun out => ∀ q ∈ out, V.Tests m q := by
  refine (Orders.forIn (I := fun rest out => (∀ x ∈ rest, V.Value m x) ∧ ∀ q ∈ out, V.Tests m q)
    ⟨hts, htests⟩ ?_).mono fun _ h => h.2
  rintro x rest out ⟨hrest, hout⟩
  refine .needs fun b => .pure ⟨_, rfl, fun y hy => hrest y (List.mem_cons_of_mem _ hy), fun q hq => ?_⟩
  obtain hq | hq := List.mem_append.mp hq
  · exact hout q hq
  · cases List.mem_singleton.mp hq
    exact ⟨hrest x List.mem_cons_self, he⟩

/-- Tests that are split are compared one at a time. -/
theorem compareTests_orders (hV : V.Sees m p) (hv : VisitsWell m V p visit) {value : Expr}
    {comparer : Option Native} (hvalue : V.Value m value) (run : List SwitchTest)
    (hrun : ∀ q ∈ run, V.Tests m q) :
    Orders m V p (forIn run PUnit.unit fun q _ => do
        let r ← visit q.test
        emit (← Build.ifThen (← matchTest comparer value r) (← jumpTo q.entry))
        pure (ForInStep.yield PUnit.unit)) fun _ => True := by
  have := hv.keeps
  refine (Orders.forIn (I := fun rest _ => ∀ q ∈ rest, V.Tests m q) hrun ?_).mono fun _ _ => trivial
  intro q rest _ hrest
  have hq := hrest q List.mem_cons_self
  refine (hv.orders q.test hq.test).bind fun r hr => ?_
  refine (Orders.value hV (matchTest_gives hvalue hr)).bind fun a ha => ?_
  refine (jumpTo_orders hV hq.entry).bind fun b hb => ?_
  refine (Orders.build hV (ifThen_steady hV ha hb)).bind fun c hc => (emit_orders hc).bind fun _ _ => ?_
  exact .pure ⟨_, rfl, fun q hq => hrest q (List.mem_cons_of_mem _ hq)⟩

/-- A switch whose tests need splitting becomes a chain of moves, one test after the other. -/
theorem switchTests_orders (hV : V.Sees m p) (hv : VisitsWell m V p visit) {value value' other : Expr}
    {cases : List (List Expr × Expr)} {comparer : Option Native} (hvalue : V.Value m value')
    (h : V.Value m (.node i r t (.switch value cases other comparer))) :
    Orders m V p (switchTests visit (.node i r t (.switch value cases other comparer)) value' cases other
      comparer) (V.Value m) := by
  have := hv.keeps
  have hops := fun c hc => h.operand (c := c) (by simp [Data.kind]) (mem_operands_switch.mpr hc)
  unfold switchTests
  refine (newState_orders hV .merge _ _ (by decide) (by decide)).andThen fun merge hm => ?_
  refine (Orders.build hV (Provides.any _)).andThen fun d _ => ?_
  extract_lets kind entries tests tail
  -- what is tested is a value for the machine, whether it was kept or not
  have htail : ∀ x, V.Value m x → Orders m V p (tail x) (V.Value m) := by
    intro x hx
    -- the states of the bodies can be gone to, and the collected tests lead to them
    refine Orders.andThen (Orders.forIn (I := fun rest (st : List (Expr × StateRef) × List SwitchTest) =>
      (∀ arm ∈ rest, arm ∈ cases) ∧ (∀ q ∈ st.1, V.Target q.2) ∧ ∀ q ∈ st.2, V.Tests m q)
      ⟨fun _ h => h, by simp [entries], by simp [tests]⟩ ?_ (k := fun _ _ => by
        dsimp only; split <;> infer_instance)) ?_
    · rintro ⟨ts, body⟩ rest ⟨entries, tests⟩ ⟨hrest, hentries, htests⟩
      have hmem := hrest _ List.mem_cons_self
      have hnext : ∀ entry, V.Target entry → Orders m V p (do
          let tests ← forIn ts tests fun t tests => do
            let b ← needs t
            pure (ForInStep.yield (tests ++ [(⟨t, entry, b⟩ : SwitchTest)]))
          pure (ForInStep.yield ((body, entry) :: entries, tests))) fun step =>
            ∃ st : List (Expr × StateRef) × List SwitchTest, step = .yield st ∧
              (∀ arm ∈ rest, arm ∈ cases) ∧ (∀ q ∈ st.1, V.Target q.2) ∧ ∀ q ∈ st.2, V.Tests m q := by
        intro entry he
        refine (caseTests_orders ts entry tests (fun x hx => hops x (.inr (.inl ⟨_, hmem, .inl hx⟩))) he
          htests).bind fun tests' htests' => ?_
        refine .pure ⟨_, rfl, fun c hc => hrest c (List.mem_cons_of_mem _ hc), fun q hq => ?_, htests'⟩
        obtain rfl | hq := List.mem_cons.mp hq
        · exact he
        · exact hentries q hq
      dsimp only
      split
      · rename_i entry hlook
        obtain ⟨q, hq, -, rfl⟩ := exists_mem_of_lookupSame hlook
        exact hnext q.2 (hentries q hq)
      · exact (standalone_orders hV hv (hops body (.inr (.inl ⟨_, hmem, .inr rfl⟩))) hm (by decide)
          (by decide)).bind hnext
    · rintro ⟨entries, tests⟩ ⟨-, -, htests⟩
      extract_lets entries' tests' last
      -- the runs of tests one after the other, and then the fallback
      have hlast : ∀ fb, V.Target fb → Orders m V p (last fb) (V.Value m) := by
        intro fb hfb
        refine Orders.bind (P := fun _ => True) ?_ fun _ _ => ?_
        · refine (Orders.forIn (I := fun rest _ => ∀ run ∈ rest, ∀ q ∈ run, V.Tests m q) ?_ ?_
            (k := fun _ _ => by split <;> infer_instance)).mono fun _ _ => trivial
          · intro run hrun q hq
            -- a test of a run is one of the collected tests
            refine htests q ?_
            rw [← List.flatten_splitBy (fun a b : SwitchTest => a.splits == b.splits) tests]
            exact List.mem_flatten.mpr ⟨run, hrun, hq⟩
          · intro run rest _ hrest
            have hrun := hrest run List.mem_cons_self
            have hstep : ∃ b', ForInStep.yield PUnit.unit = ForInStep.yield (b' : PUnit) ∧
                ∀ run ∈ rest, ∀ q ∈ run, V.Tests m q :=
              ⟨_, rfl, fun run h => hrest run (List.mem_cons_of_mem _ h)⟩
            split
            · exact (compareTests_orders hV hv hx run hrun).bind fun _ _ => .pure hstep
            · refine (Orders.mapM (P := fun arm => (∀ x ∈ arm.1, V.Value m x) ∧ V.Steady m arm.2)
                fun q hq => ?_).bind fun arms harms => ?_
              · refine (passThrough_orders hV (hrun q hq).test).bind fun a ha => ?_
                refine (jumpTo_orders hV (hrun q hq).entry).bind fun b hb => .pure ⟨?_, hb⟩
                simpa using ha
              · refine (Orders.build hV (switch_steady hV hx harms
                  (Outlook.Value.steady .absent hV.alone))).bind fun sw hsw => ?_
                exact (emit_orders hsw).bind fun _ _ => .pure hstep
        · refine .get fun s _ => (setNext_orders hfb).bind fun _ _ => ?_
          exact (goOnIn_orders merge).bind fun _ _ => resultRef_orders hV merge _
      split
      · exact (standalone_orders hV hv (hops other (.inr (.inr rfl))) hm (by decide) (by decide)).andThen hlast
      · refine .state (k := fun _ => by
          repeat' first
            | infer_instance | split | dsimp +zetaDelta only | refine .seq ?_ fun _ => ?_
            | refine .loop fun _ _ => ?_) fun st hst _ => ?_
        split
        · rename_i slot hslot
          refine (ref_value hV (hst.result slot hslot)).andThen fun a ha => ?_
          refine (Orders.value hV (default_gives _)).andThen fun b hb => ?_
          refine (store_value hV ha hb).andThen fun c hc => (emitValue_orders hV hc).andThen fun _ _ => ?_
          exact hlast merge hm
        · exact hlast merge hm
  split
  · exact htail value' hvalue
  · refine (newLocal_orders hV _ _).andThen fun tmp htmp => (ref_value hV htmp.1).andThen fun a ha => ?_
    refine (store_value hV ha hvalue).andThen fun b hb => (emitValue_orders hV hb).andThen fun _ _ => ?_
    exact (ref_value hV htmp.1).andThen htail

/-- A switch is split by its tests, by its bodies, or as operands only. -/
theorem visitSwitch_orders (hV : V.Sees m p) (hv : VisitsWell m V p visit) {value other : Expr}
    {cases : List (List Expr × Expr)} {comparer : Option Native}
    (h : V.Value m (.node i r t (.switch value cases other comparer))) :
    Orders m V p (visitSwitch visit (.node i r t (.switch value cases other comparer)) value cases other
      comparer) (V.Value m) := by
  have := hv.keeps
  have hops := fun c hc => h.operand (c := c) (by simp [Data.kind]) (mem_operands_switch.mpr hc)
  unfold visitSwitch
  refine .anyNeeds fun _ => .anyNeeds fun _ => (hv.orders value (hops _ (.inl rfl))).bind fun w hw => ?_
  split
  · exact switchTests_orders hV hv hw h
  · split
    · exact switchBodies_orders hV hv hw h
    · refine .value hV (withData_gives (loose_switch hw (fun arm harm => ⟨fun x hx => ?_, ?_⟩) ?_))
      · exact hops x (.inr (.inl ⟨arm, harm, .inl hx⟩))
      · exact hops arm.2 (.inr (.inl ⟨arm, harm, .inr rfl⟩))
      · exact hops other (.inr (.inr rfl))

/-! ### Loops, labels and jumps -/

theorem labelDepth_orders (l : Label) : Orders m V p (labelDepth? l) fun _ => True := by
  unfold labelDepth?
  refine .get fun _ _ => .read ?_
  split <;> exact .pure trivial

/-- The state of a label is one of the machine. -/
theorem labelState_orders (hV : V.Sees m p) (l : Label) (origin : Expr) :
    Orders m V p (labelState l origin) V.Target := by
  unfold labelState
  refine .get fun s hs => ?_
  split
  · rename_i r hr
    exact .pure (hs.labels l r hr)
  · refine (labelDepth_orders l).bind fun depth _ => ?_
    extract_lets context
    refine (newStateIn_orders hV context .label origin l.type fun h => by cases h).bind fun r hr => ?_
    refine Orders.bind (modifyState_orders (r := r) ?_) fun _ _ => ?_
    · exact fun _ h => { h with }
    have htarget : V.Target r := ⟨hr.1, fun hc => by cases hr.2.symm.trans hc⟩
    refine .modify (fun s hs => hs.beside rfl (.refl _) (fun k q hq => ?_) hs.rethrow hs.caught hs.vars)
      (.pure htarget)
    rw [List.lookup_cons] at hq
    split at hq
    · cases hq
      exact htarget
    · exact hs.labels k q hq

/-- A loop ends by a move to its own state. -/
theorem visitLoop_orders (hV : V.Sees m p) (hv : VisitsWell m V p visit) {body : Expr}
    {brk cont : Option Label} (h : V.Value m (.node i r t (.loop body brk cont))) :
    Orders m V p (visitLoop visit (.node i r t (.loop body brk cont)) body brk cont) (V.Value m) := by
  have := hv.keeps
  have hbody : V.Value m body := h.operand (by simp [Data.kind]) (by simp [operands])
  unfold visitLoop
  extract_lets tail
  have htail : ∀ l, Orders m V p (tail l) (V.Value m) := by
    intro l
    refine (labelState_orders hV l _).andThen fun entry he => .get fun _ _ => ?_
    refine (setNext_orders he).andThen fun _ _ => (goOnIn_orders entry).andThen fun _ _ => ?_
    refine Orders.andThen (P := fun _ => True) ?_ fun exit _ => ?_
    · cases brk with
      | none => exact .pure trivial
      | some l => exact .map ((labelState_orders hV l _).mono fun _ _ => trivial)
    · refine (hv.orders body hbody).andThen fun w hw => (emitValue_orders hV hw).andThen fun _ _ => ?_
      refine (closeWith_orders he).andThen fun _ _ => ?_
      split
      · refine newDead_orders.bind fun r _ => (goOnIn_orders r).bind fun _ _ => ?_
        exact .value hV (default_gives _)
      · exact (goOnIn_orders _).bind fun _ _ => resultRef_orders hV _ _
  split
  · exact htail _
  · exact (Orders.build hV (Provides.any _)).andThen fun l _ => htail l

/-- A label opens the state that its jumps lead to. -/
theorem visitLabel_orders (hV : V.Sees m p) (hv : VisitsWell m V p visit) {l : Label} {value : Expr}
    (h : V.Value m (.node i r t (.label l value))) :
    Orders m V p (visitLabel visit (.node i r t (.label l value)) l value) (V.Value m) := by
  have := hv.keeps
  have hvalue : V.Value m value := h.operand (by simp [Data.kind]) (by simp [operands])
  unfold visitLabel
  refine (labelState_orders hV l _).bind fun r hr => ?_
  extract_lets tail
  have htail : Orders m V p (tail ()) (V.Value m) :=
    (closeWith_orders hr).bind fun _ _ => (goOnIn_orders r).bind fun _ _ => resultRef_orders hV r _
  split
  · exact (hv.orders value hvalue).bind fun w hw => (assignResult_orders hV hw).bind fun _ _ => htail
  · exact htail

/-- A jump out of regions with cleanup blocks aims at its target and enters the first of them. -/
theorem leaveThrough_orders (hV : V.Sees m p) {target : StateRef} (ht : V.Target target)
    {finals : List Guard} (hfinals : ∀ g ∈ finals, ∀ r, g.cleanup = some r → V.Listed r) :
    Orders m V p (leaveThrough e target finals) V.Target := by
  unfold leaveThrough
  have hzip : ∀ q ∈ finals.zip (finals.drop 1), q.2 ∈ finals := fun q hq =>
    List.mem_of_mem_drop (List.of_mem_zip hq).2
  generalize finals.zip (finals.drop 1) = pairs at hzip
  induction pairs with
  | nil => exact .pure ht
  | cons q pairs ih =>
    rw [List.foldrM_cons]
    refine (ih fun q hq => hzip q (List.mem_cons_of_mem _ hq)).andThen fun next hnext => ?_
    refine (newStateIn_orders hV _ .leave e .void fun h => by cases h).andThen fun r hr => ?_
    have htarget : V.Target r := ⟨hr.1, fun hc => by cases hr.2.symm.trans hc⟩
    split
    · rename_i c hc
      rw [← bind_assoc]
      exact (setResumeNext_orders hnext (hfinals q.2 (hzip q List.mem_cons_self) c hc)).bind
        fun _ _ => .pure htarget
    · refine Orders.bind (modifyState_orders (r := r) ?_) fun _ _ => .pure htarget
      exact fun st hst => hst.resumeIn hnext

theorem guard_orders (g : GuardRef) : Orders m V p (guard g) fun i => ∃ q, Kempt m V q i :=
  fun _ hs => .of_ensures (Ensures.of_run rfl ⟨⟨_, hs.guards g⟩, hs⟩)

/-- A jump is a move to the state of its label. -/
theorem visitGoto_orders (hV : V.Sees m p) (hv : VisitsWell m V p visit) {k : GotoKind} {l : Label}
    {value : Expr} (h : V.Value m (.node i r t (.goto k l value))) :
    Orders m V p (visitGoto visit (.node i r t (.goto k l value)) l value) (V.Value m) := by
  have := hv.keeps
  have hvalue : V.Value m value := h.operand (by simp [Data.kind]) (by simp [operands])
  unfold visitGoto
  refine (labelState_orders hV l _).andThen fun target ht => ?_
  extract_lets last dispatch tail
  have hlast : Orders m V p (last ()) (V.Value m) :=
    endWithJump_orders.bind fun _ _ => .value hV (default_gives _)
  -- every jump ends with a new turn, and what follows it is dead
  have hdispatch : Orders m V p (dispatch ()) (V.Value m) :=
    (continueDispatch_orders hV).bind fun c hc => (emitValue_orders hV hc).bind fun _ _ => hlast
  have htail : Orders m V p (tail ()) (V.Value m) := by
    refine .get fun _ _ => (labelDepth_orders l).andThen fun depth _ => ?_
    split
    · exact (report_orders _ _ _).bind fun _ _ => hlast
    · extract_lets crossed
      split
      · exact (report_orders _ _ _).bind fun _ _ => hlast
      · refine (Orders.mapM fun g _ => guard_orders g).andThen fun finals hfinals => ?_
        -- the cleanup states on the way are registered
        have hlisted : ∀ g ∈ finals, ∀ r, g.cleanup = some r → V.Listed r := fun g hg r hr => by
          obtain ⟨q, hq⟩ := hfinals g hg
          exact hq.cleanup r hr
        split
        · refine (setState_orders hV ht.listed).bind fun a ha => ?_
          exact (emit_orders (ha.2 ht)).bind fun _ _ => hdispatch
        · rename_i first hfirst
          obtain ⟨g, hg, hcleanup⟩ := Option.bind_eq_some_iff.mp hfirst
          refine (leaveThrough_orders hV ht hlisted).andThen fun next hnext => ?_
          exact enter_orders hV hnext (hlisted g (List.mem_of_mem_head? hg) first hcleanup) hdispatch
  split
  · exact (hv.orders value hvalue).andThen fun w hw => (assignResult_orders hV hw).andThen fun _ _ => htail
  · exact htail

end

end Resumable
