import Resumable.Proofs.Orderly

/-!
# `Proofs.Ordering`: the steps of splitting keep a splitter in order

The steps that the cases of splitting are put together from. The stores of the machine's own variables
are looked at here: a store into the state slot leads to a state of the loop, and one that enters a
cleanup block stands next to the one that says where that block goes on.

**Contents**
* `setState_orders`, `setResume_orders`, `enter_orders`: the stores of the machine.
* `block_part`, `conditional_steady`, `switch_steady`, `catchAll_part`: statements put together.
* `newStateIn_orders`, `setNext_orders`, `transition_orders`, `inlineState_orders`: states and how they go
  on.
* `assignResult_orders`, `spill_orders`, `passThrough_orders`: values.
-/

namespace Resumable

open Resumable.Expr Split Build

variable {m : Watch} {V : Outlook}

section
variable {p : Plan} {r n t : StateRef} {x y z value : Expr} {v : Var}

/-! ### Stores of the machine -/

namespace Provides

variable {x : Build α} {P P' : α → Prop}

/-- What a construction gives when it succeeds, whatever numbers it takes. -/
theorem of_eq (h : ∀ q a q', x q = .ok a q' → P a) : Provides m x P := fun q a q' heq _ => h q a q' heq

theorem and (h : Provides m x P) (h' : Provides m x P') : Provides m x fun a => P a ∧ P' a :=
  fun q a q' heq hclear => ⟨h q a q' heq hclear, h' q a q' heq hclear⟩

/-- A property that rests on a condition. -/
theorem imp {c : Prop} (h : c → Provides m x P) : Provides m x fun a => c → P a :=
  fun q a q' heq hclear hc => h hc q a q' heq hclear

end Provides

theorem ref_shape (v : Var) : Provides m (ref v) fun x => ∃ i r, x = .node i r v.type (.var v) :=
  .of_eq fun q a q' heq => by cases heq; exact ⟨_, _, rfl⟩

theorem constInt_shape (n : Int) : Provides m (constInt n) (Watch.Number (· = n)) :=
  .of_eq fun q a q' heq => by cases heq; exact ⟨rfl, rfl, rfl⟩

theorem assign_shape (target value : Expr) : Provides m (assign target value) fun x =>
    ∃ i r t, x = .node i r t (.assign .plain target value) := by
  unfold assign assignWith
  refine (Provides.any _).bind fun d _ => ?_
  extract_lets k tail
  split
  · exact Provides.bind (Provides.throw (P := fun _ => False) _) fun _ h => h.elim
  · exact .of_eq fun q a q' heq => by cases heq; exact ⟨_, _, _, rfl⟩

theorem Watch.Number.mono {P P' : Int → Prop} (h : Watch.Number P x) (hP : ∀ n, P n → P' n) :
    Watch.Number P' x := by
  unfold Watch.Number at h ⊢
  split at h
  · exact ⟨h.1, h.2.1, hP _ h.2.2⟩
  · cases h

theorem Watch.Puts.mono {P P' : Expr → Prop} (h : Watch.Puts v P x) (hP : ∀ x, P x → P' x) :
    Watch.Puts v P' x := by
  unfold Watch.Puts at h ⊢
  split at h
  · exact ⟨h.1, hP _ h.2⟩
  · cases h

/-- A store into the variable `v` of the machine that is split, which the watch knows as `w`. -/
structure Outlook.Stores (V : Outlook) (m : Watch) (w : Var) (P : Expr → Prop) (x : Expr) : Prop where
  own : V.own = true → Watch.Puts w P x
  other : V.own = false → V.Value m x

theorem ref_orders (hV : V.Sees m p) (v : Var) : Orders m V p (liftM (ref v)) fun x =>
    (∃ i r, x = .node i r v.type (.var v)) ∧ (m.Plain v.id → V.Value m x) :=
  .build hV ((ref_shape v).and (.imp ref_gives))

theorem stores_orders (hV : V.Sees m p) {w : Var} (hv : V.Matches m v w) {P : Expr → Prop}
    (hx : ∃ i r, x = .node i r v.type (.var v)) (hx' : m.Plain v.id → V.Value m x) (hy : P y)
    (hy' : V.own = false → V.Value m y) :
    Orders m V p (liftM (assign x y)) (V.Stores m w P) := by
  refine (Orders.build hV ((assign_shape x y).and
    (.imp (c := V.own = false) fun ho => assign_gives (hx' (hv.other ho)) (hy' ho)))).mono ?_
  obtain ⟨i, r, rfl⟩ := hx
  rintro _ ⟨⟨i', r', t', rfl⟩, hother⟩
  exact ⟨fun ho => ⟨hv.own ho, hy⟩, hother⟩

theorem constInt_orders (hV : V.Sees m p) (n : Int) : Orders m V p (liftM (constInt n)) fun x =>
    Watch.Number (· = n) x ∧ V.Value m x :=
  .build hV ((constInt_shape n).and (constInt_gives n))

theorem setStateId_orders (hV : V.Sees m p) (n : Int) :
    Orders m V p (setStateId n) (V.Stores m m.state (Watch.Number (· = n))) := by
  unfold setStateId
  refine .read ((ref_orders hV _).bind fun a ha => (constInt_orders hV n).bind fun b hb => ?_)
  exact stores_orders hV hV.stateVar ha.1 ha.2 hb.1 fun _ => hb.2

theorem Outlook.role_own (h : V.own = true) (armed bare : Bool) : V.role armed bare = .inside armed bare :=
  if_pos h

theorem Outlook.role_other (h : ¬ V.own = true) (armed bare : Bool) : V.role armed bare = .outside V.hosts :=
  if_neg h

theorem Outlook.Stores.obeys {w : Var} {P : Expr → Prop} (h : V.Stores m w P x)
    (hraw : V.own = true → Watch.Puts w P x → m.Raw x) (armed bare : Bool) :
    Obeys m (V.role armed bare) x := by
  by_cases hown : V.own = true
  · rw [V.role_own hown]
    exact .raw (hraw hown (h.own hown))
  · rw [V.role_other hown]
    exact h.other (Bool.eq_false_iff.mpr hown)

theorem Outlook.Stores.plain {w : Var} {P : Expr → Prop} (h : V.Stores m w P x) {armed : Bool}
    (hplain : V.own = true → Watch.Puts w P x → ¬ m.Special armed x) : ¬ m.Special armed x := by
  by_cases hown : V.own = true
  · exact hplain hown (h.own hown)
  · exact (h.other (Bool.eq_false_iff.mpr hown)).not_special

/-- Which stores may not stand just anywhere. -/
theorem Watch.Special.of_puts {armed : Bool} {P : Expr → Prop} (hs : m.Special armed x)
    (hx : Watch.Puts v P x) :
    (v = m.state ∧ ∃ y, P y ∧ (Watch.Number m.clean y ∨ Watch.Number (· = -1) y ∨
      armed = false ∧ Watch.Reads m.resume y)) ∨
    (m.Parked v ∧ armed = false ∧ ∃ y, P y ∧ Watch.Reads m.resume y) := by
  cases hs with
  | enters h =>
    obtain ⟨rfl, y, hy, hc⟩ := hx.both h
    exact .inl ⟨rfl, y, hy, .inl hc⟩
  | ends h =>
    obtain ⟨rfl, y, hy, hc⟩ := hx.both h
    exact .inl ⟨rfl, y, hy, .inr (.inl hc)⟩
  | resumes h ha =>
    obtain ⟨rfl, y, hy, hc⟩ := hx.both h
    exact .inl ⟨rfl, y, hy, .inr (.inr ⟨ha, hc⟩)⟩
  | parks h ha =>
    obtain ⟨w, hw, h⟩ := h
    obtain ⟨rfl, y, hy, hc⟩ := hx.both h
    exact .inr ⟨hw, ha, y, hy, hc⟩
  | hands h =>
    unfold Watch.Puts at hx
    split at hx
    · exact h.elim
    · cases hx

variable {armed : Bool}

/-- Going on where the exit was parked is a plain statement. -/
theorem Watch.Moves.plain (hm : m.Fair) (h : m.Moves x) : ¬ m.Special armed x := by
  intro hs
  obtain ⟨-, y, hy, hc | he | ⟨-, hr⟩⟩ | ⟨-, -, y, hy, hr⟩ := hs.of_puts h
  · obtain ⟨n, hgood, hclean⟩ := hy.both hc
    exact hm.disjoint n hgood hclean
  · obtain ⟨n, hgood, rfl⟩ := hy.both he
    exact hm.minus (.inl hgood)
  · exact hy.not_reads hr
  · exact hy.not_reads hr

theorem Watch.Aims.plain (hm : m.Fair) (h : m.Aims x) : ¬ m.Special armed x := by
  intro hs
  obtain ⟨heq, -⟩ | ⟨-, -, y, hy, hr⟩ := hs.of_puts h
  · have := hm.apart
    rw [heq] at this
    simp at this
  · exact hy.not_reads hr

/-- Going back to the parked state may stand anywhere in a list. -/
theorem Watch.Returns.plain (hm : m.Fair) (h : m.Returns x) : ¬ m.Special armed x := by
  intro hs
  have hreads : ∀ {y : Expr}, (∃ v, m.Parked v ∧ Watch.Reads v y) → ¬ Watch.Reads m.resume y := by
    rintro y ⟨v, hv, hy⟩ hr
    unfold Watch.Reads at hy hr
    split at hy
    · rw [← hy.1, hr.1] at hv
      exact hm.parked _ hv.parked (.inr (.inl rfl))
    · cases hy
  have hnumber : ∀ {y : Expr} {P : Int → Prop}, (∃ v, m.Parked v ∧ Watch.Reads v y) →
      ¬ Watch.Number P y := by
    rintro y P ⟨v, -, hy⟩ hn
    exact hn.not_reads hy
  obtain ⟨-, y, hy, hc | he | ⟨-, hr⟩⟩ | ⟨-, -, y, hy, hr⟩ := hs.of_puts h
  · exact hnumber hy hc
  · exact hnumber hy he
  · exact hreads hy hr
  · exact hreads hy hr

/-- A place that holds no state as yet has the number of the entry state. -/
theorem Outlook.Shows.good (hV : V.Sees m p) (hown : V.own = true) (hr : V.Target r) {st : State}
    (h : V.Shows r st) : m.good st.id := by
  obtain ⟨hid, -⟩ | rfl := h
  · exact hid ▸ hV.good hown r hr
  · exact (hV.fair hown).start

/-- A store of the number of a state into the state slot. -/
theorem Outlook.Stores.steady_of_good (hV : V.Sees m p) {i : Int} (hi : V.own = true → m.good i)
    (h : V.Stores m m.state (Watch.Number (· = i)) x) : V.Steady m x := by
  have hmoves : V.own = true → Watch.Puts m.state (Watch.Number (· = i)) x → m.Moves x :=
    fun hown h => h.mono fun _ hn => hn.mono fun _ heq => heq ▸ hi hown
  exact ⟨h.obeys (fun hown hx => .moves (hmoves hown hx)) _ _,
    fun _ => h.plain fun hown hx => (hmoves hown hx).plain (hV.fair hown)⟩

/-- In a cleanup block the resume slot may be parked. -/
theorem Watch.Parks.plain (hm : m.Fair) (h : m.Parks x) : ¬ m.Special true x := by
  intro hs
  obtain ⟨v, hv, hx⟩ := h
  obtain ⟨rfl, -⟩ | ⟨-, ha, -⟩ := hs.of_puts hx
  · exact hm.parked _ hv.parked (.inl rfl)
  · cases ha

/-- A store into the state slot may stand anywhere, unless it enters a cleanup block. -/
theorem setState_orders (hV : V.Sees m p) (hr : V.Listed r) : Orders m V p (setState r) fun x =>
    V.Moving m x ∧ (V.Target r → V.Steady m x) := by
  unfold setState
  refine .state fun st _ hst => (setStateId_orders hV st.id).mono fun x hx => ?_
  by_cases hclean : V.Clean r
  · refine ⟨?_, fun ht => absurd hclean ht.plain⟩
    obtain ⟨hid, -⟩ | rfl := hst
    · have henters : V.own = true → Watch.Puts m.state (Watch.Number (· = st.id)) x → m.Enters x :=
        fun hown h => h.mono fun _ hn => hn.mono fun _ heq => heq ▸ hid ▸ hV.clean hown r hr hclean
      refine ⟨hx.obeys (fun hown h => .enters (henters hown h)) _ _, fun armed hs => ?_⟩
      by_contra hnot
      exact hx.plain (fun hown h _ => hnot (henters hown h)) hs
    · exact (hx.steady_of_good hV fun hown => (hV.fair hown).start).moving
  · have hsteady := hx.steady_of_good hV fun hown => hst.good hV hown ⟨hr, hclean⟩
    exact ⟨hsteady.moving, fun _ => hsteady⟩

/-- A store into the resume slot says where a cleanup block goes on. -/
theorem setResume_orders (hV : V.Sees m p) (hr : V.Target r) : Orders m V p (setResume r) fun x =>
    V.Steady m x ∧ (V.own = true → m.Aims x) := by
  unfold setResume
  refine .read ((ref_orders hV _).bind fun a ha => .state fun st _ hst => ?_)
  refine (constInt_orders hV st.id).bind fun b hb => ?_
  refine (stores_orders hV hV.resumeVar ha.1 ha.2 hb.1 fun _ => hb.2).mono fun x hx => ?_
  have haims : V.own = true → Watch.Puts m.resume (Watch.Number (· = st.id)) x → m.Aims x :=
    fun hown h => h.mono fun _ hn => hn.mono fun _ heq => heq ▸ hst.good hV hown hr
  exact ⟨⟨hx.obeys (fun hown h => .aims (haims hown h)) _ _,
    fun _ => hx.plain fun hown h => (haims hown h).plain (hV.fair hown)⟩,
    fun hown => haims hown (hx.own hown)⟩

theorem continueDispatch_orders (hV : V.Sees m p) : Orders m V p continueDispatch (V.Value m) :=
  .read (.build hV (jump_gives .absent))

theorem jump_shape (k : GotoKind) (l : Label) (value : Expr) :
    Provides m (jump k l value) fun x => ∃ i r t, x = .node i r t (.goto k l value) :=
  .of_eq fun q a q' heq => by cases heq; exact ⟨_, _, _, rfl⟩

theorem leaveDispatch_orders (hV : V.Sees m p) (hx : V.Value m x) :
    Orders m V p (leaveDispatch x) fun y =>
      V.Value m y ∧ (V.own = true → x = .absent → m.Leaves y) := by
  unfold leaveDispatch
  refine .read ((Orders.build hV ((jump_gives hx).and (jump_shape _ _ _))).mono ?_)
  rintro y ⟨hy, i, r, t, rfl⟩
  exact ⟨hy, fun hown habs => ⟨hV.leave hown, habs⟩⟩

/-! ### Statements that are put together -/

theorem node_shape (t : Ty) (d : Data Expr) :
    Provides m (node t d) fun x => ∃ i r, m.Ground r ∧ x = .node i r t d := by
  intro q a q' heq hclear
  cases heq
  exact ⟨_, _, hclear.refs _ (Nat.lt_succ_self _) (Nat.le_refl _), rfl⟩

theorem Watch.not_special_of_kind {i r : Nat} {t : Ty} {d : Data Expr} (ha : d.kind ≠ .assign)
    (hc : d.kind ≠ .methodCall) : ¬ m.Special armed (.node i r t d) := by
  intro h
  obtain ⟨i', r', t', ⟨op, target, value, heq⟩ | ⟨receiver, name, args, heq⟩⟩ := h.shape
  · cases heq
    exact ha rfl
  · cases heq
    exact hc rfl

/-- Statements that may stand in a list of their own. -/
structure Outlook.Listing (V : Outlook) (m : Watch) (armed bare : Bool) (xs : List Expr) : Prop where
  obeys : ∀ x ∈ xs, Obeys m (V.role false false) x
  shape : m.Shape armed bare .absent xs

theorem Outlook.Listing.of_steady {xs : List Expr} {bare : Bool} (h : ∀ x ∈ xs, V.Steady m x) :
    V.Listing m armed bare xs :=
  ⟨fun x hx => (h x hx).obeys, .of_plain fun x hx => (h x hx).plain armed⟩

/-- A statement whose own list is known to the role that it plays. -/
structure Outlook.Part (V : Outlook) (m : Watch) (armed bare : Bool) (x : Expr) : Prop where
  obeys : Obeys m (V.role armed bare) x
  plain : ∀ armed, ¬ m.Special armed x

theorem Outlook.Part.steady (h : V.Part m false false x) : V.Steady m x := ⟨h.obeys, h.plain⟩

variable {bare : Bool}

/-- A block whose statements fit together is part of a state. -/
theorem block_part {t : Ty} {vs : List Var} {xs : List Expr}
    (hv : ∀ v ∈ vs, m.Declarable v) (hxs : V.Listing m armed bare xs) :
    Provides m (typedBlock t vs xs) (V.Part m armed bare) := by
  refine (node_shape t (.block vs xs)).mono ?_
  rintro _ ⟨i, r, hr, rfl⟩
  refine ⟨?_, fun _ => Watch.not_special_of_kind (by simp [Data.kind]) (by simp [Data.kind])⟩
  by_cases hown : V.own = true
  · have hobeys := hxs.obeys
    simp only [V.role_own hown] at hobeys ⊢
    exact .block hr hv hobeys hxs.shape
  · have hobeys := hxs.obeys
    simp only [V.role_other hown] at hobeys ⊢
    exact .node (fun _ => hr) ⟨hv, hr⟩ hobeys

theorem steadyBlock_gives {t : Ty} {xs : List Expr} (h : ∀ x ∈ xs, V.Steady m x) :
    Provides m (typedBlock t [] xs) (V.Steady m) :=
  (block_part (by simp) (.of_steady h)).mono fun _ hx => hx.steady

theorem Outlook.Value.part (h : V.Value m x) (hV : V.Sees m p) : V.Part m armed bare x :=
  ⟨h.obeys _ _ hV.alone, fun _ => h.not_special⟩

/-- A conditional with steady branches is steady. -/
theorem conditional_steady (hV : V.Sees m p) {t : Ty} {test a b : Expr} (ht : V.Value m test)
    (ha : V.Steady m a) (hb : V.Steady m b) :
    Provides m (typedCondition t test a b) (V.Steady m) := by
  refine (node_shape t (.conditional test a b)).mono ?_
  rintro _ ⟨i, r, hr, rfl⟩
  refine ⟨?_, fun _ => Watch.not_special_of_kind (by simp [Data.kind]) (by simp [Data.kind])⟩
  have ha' := ha.obeys
  have hb' := hb.obeys
  by_cases hown : V.own = true
  · simp only [V.role_own hown] at ha' hb' ⊢
    exact .conditional (hV.alone hown ▸ ht) ha' (ha.plain _) hb' (hb.plain _)
  · simp only [V.role_other hown] at ha' hb' ⊢
    exact .node (fun _ => hr) trivial (by simp [operands, ha', hb', show m.Foreign _ _ from ht])

theorem ifThenElse_steady (hV : V.Sees m p) {test a b : Expr} (ht : V.Value m test)
    (ha : V.Steady m a) (hb : V.Steady m b) :
    Provides m (ifThenElse test a b) (V.Steady m) := conditional_steady hV ht ha hb

theorem ifThen_steady (hV : V.Sees m p) {test a : Expr} (ht : V.Value m test) (ha : V.Steady m a) :
    Provides m (ifThen test a) (V.Steady m) :=
  empty_gives.bind fun _ he => conditional_steady hV ht ha (Outlook.Value.steady he hV.alone)

/-- A switch outside the machine in which every arm is steady. -/
theorem switch_steady (hV : V.Sees m p) {t : Ty} {value other : Expr} {cases : List (List Expr × Expr)}
    {comparer : Option Native} (hv : V.Value m value)
    (hc : ∀ arm ∈ cases, (∀ x ∈ arm.1, V.Value m x) ∧ V.Steady m arm.2) (ho : V.Steady m other) :
    Provides m (switch t value other comparer cases) (V.Steady m) := by
  refine (node_shape t (.switch value cases other comparer)).mono ?_
  rintro _ ⟨i, r, hr, rfl⟩
  refine ⟨?_, fun _ => Watch.not_special_of_kind (by simp [Data.kind]) (by simp [Data.kind])⟩
  have ho' := ho.obeys
  have hc' := fun arm harm => (hc arm harm).2.obeys
  by_cases hown : V.own = true
  · have halone := hV.alone hown
    simp only [V.role_own hown] at ho' hc' ⊢
    exact .switch (halone ▸ hv) (fun arm harm x hx => halone ▸ (hc arm harm).1 x hx) hc'
      (fun arm harm => (hc arm harm).2.plain _) ho' (ho.plain _)
  · simp only [V.role_other hown] at ho' hc' ⊢
    have hloose := @loose_switch m V.hosts value other cases comparer hv
      (fun arm harm => ⟨(hc arm harm).1, hc' arm harm⟩) ho'
    exact .node (fun _ => hr) (hloose.1 r hr) hloose.2

/-- A list of statements, protected by one handler. -/
theorem catchAll_part {body handler : Expr} (hb : V.Part m armed false body)
    (hv : m.Plain v.id) (hh : V.Steady m handler) :
    Provides m (catchAll body v handler) (V.Part m armed bare) := by
  unfold catchAll protect
  refine (Provides.any _).bind fun t _ => (node_shape t _).mono ?_
  rintro _ ⟨i, r, hr, rfl⟩
  refine ⟨?_, fun _ => Watch.not_special_of_kind (by simp [Data.kind]) (by simp [Data.kind])⟩
  have hb' := hb.obeys
  have hh' := hh.obeys
  by_cases hown : V.own = true
  · simp only [V.role_own hown] at hb' hh' ⊢
    exact .protect hb' (hb.plain _) hv hh' (hh.plain _)
  · simp only [V.role_other hown] at hb' hh' ⊢
    refine .node (fun _ => hr) (fun h hmem u hu => ?_) ?_
    · cases List.mem_singleton.mp hmem
      cases hu
      exact hv
    · simp [operands, hb', hh', Obeys.absent]

/-! ### Statements of a state -/

/-- The last statement of the current state. -/
def Split.lastStatement (s : Splitter) : Expr :=
  (s.graph.state s.current).stmts.toList.getLast?.getD .absent

/-- A state stays neat when a statement that fits its last one comes after it. -/
theorem Neat.push {st : State} (h : Neat m V st) (hx : Obeys m (V.role false false) x)
    (hfit : m.Fits (st.kind == .cleanup) (st.kind == .rethrow) (st.stmts.toList.getLast?.getD .absent) x []) :
    Neat m V { st with stmts := st.stmts.push x } :=
  { h with
    stmts := fun y hy => by
      obtain hy | rfl := Array.mem_push.mp hy
      · exact h.stmts y hy
      · exact hx
    shape := by
      show m.Shape _ _ .absent (st.stmts.push x).toList
      rw [Array.toList_push]
      exact h.shape.append ⟨hfit, trivial⟩ }

/-- A statement that fits behind the last one. -/
theorem emit_ensures_orderly {s : Splitter} (hs : Orderly m V s) (hx : Obeys m (V.role false false) x)
    (hfit : s.current < s.graph.states.size → m.Fits ((s.graph.state s.current).kind == .cleanup)
      ((s.graph.state s.current).kind == .rethrow) (lastStatement s) x []) :
    Ensures p s (emit x) fun _ s' => Orderly m V s' := by
  unfold emit
  split
  · exact Ensures.of_run rfl (hs.modifyState fun hlt => (hs.states _).push hx (hfit hlt))
  · exact Ensures.pure hs

theorem emit_orders (hx : V.Steady m x) : Orders m V p (emit x) fun _ => True :=
  fun _ hs => .of_ensures
    ((emit_ensures_orderly hs hx.obeys fun _ => .any (hx.plain _)).mono fun _ _ h => ⟨trivial, h⟩)

theorem emitValue_orders (hV : V.Sees m p) (hx : V.Value m x) : Orders m V p (emit x) fun _ => True :=
  emit_orders (Outlook.Value.steady hx hV.alone)

/-- A statement that is not left out is the last one afterwards. -/
theorem emit_last {s : Splitter} (habs : x.isAbsent = false) (hinert : x.isInert = false) :
    Ensures p s (emit x) fun _ s' => s'.current < s'.graph.states.size → lastStatement s' = x := by
  unfold emit
  rw [habs, hinert]
  refine Ensures.of_run rfl fun hlt => ?_
  have hsize : s.current < s.graph.states.size := Nat.lt_of_lt_of_eq hlt (by simp [Graph.modifyState])
  show ((s.graph.modifyState s.current _).state s.current).stmts.toList.getLast?.getD .absent = x
  rw [state_modifyState, if_pos ⟨rfl, hsize⟩]
  simp

theorem Watch.Puts.kept {P : Expr → Prop} (h : Watch.Puts v P x) : x.isAbsent = false ∧ x.isInert = false := by
  unfold Watch.Puts at h
  split at h
  · exact ⟨rfl, rfl⟩
  · cases h

/-- Entering a cleanup block fits before a store that says where it goes on, and behind one. -/
theorem Outlook.Moving.fits (hx : V.Moving m x) {prev : Expr} {rest : List Expr}
    (h : V.own = true → m.Aims prev ∨ ∃ y ys, rest = y :: ys ∧ m.Aims y) :
    m.Fits armed bare prev x rest := by
  by_cases hspecial : m.Special armed x
  · by_cases hown : V.own = true
    · obtain hp | ⟨y, ys, rfl, hy⟩ := h hown
      · exact .aimed hp (hx.enters _ hspecial)
      · exact .enter (hx.enters _ hspecial) hy
    · exact absurd hspecial (Obeys.not_special (V.role_other hown _ _ ▸ hx.obeys))
  · exact .any hspecial

/-- Going on in a cleanup block: where it goes on is said right before. -/
theorem enter_orders (hV : V.Sees m p) (hn : V.Target n) (hr : V.Listed r) {k : Unit → Split β}
    {R : β → Prop} (hk : Orders m V p (k ()) R) [l : ∀ u, Keeps (k u)] :
    Orders m V p (do emit (← setResume n); emit (← setState r); k ()) R := by
  intro s hs
  refine (setResume_orders hV hn s hs).bind fun a s₁ ⟨⟨ha, haims⟩, h1⟩ => ?_
  have hemit : Ensures p s₁ (emit a) fun _ s₂ => V.own = true →
      s₂.current < s₂.graph.states.size → lastStatement s₂ = a := by
    by_cases hown : V.own = true
    · have hkept := Watch.Puts.kept (haims hown)
      exact (emit_last hkept.1 hkept.2).mono fun _ _ h _ => h
    · exact fun _ _ _ h => absurd h hown
  refine ((emit_orders ha s₁ h1).ensuring hemit).bind fun _ s₂ ⟨⟨_, h2⟩, hlast⟩ => ?_
  refine ((setState_orders hV hr s₂ h2).ensuring (setState_makes r)).bind
    fun b s₃ ⟨⟨⟨hb, _⟩, h3⟩, _, q, _, hsame⟩ => ?_
  refine (Toward.of_ensures (emit_ensures_orderly h3 hb.obeys fun hlt => hb.fits fun hown => ?_)).bind
    fun _ s₄ h4 => hk s₄ h4
  subst hsame
  exact .inl ((hlast hown hlt).symm ▸ haims hown)

/-! ### States and their transitions -/

theorem modify_orders {f : Splitter → Splitter} (hf : ∀ s, Orderly m V s → Orderly m V (f s)) :
    Orders m V p (modify f) fun _ => True :=
  fun s hs => .of_ensures (Ensures.of_run rfl ⟨trivial, hf s hs⟩)

theorem goOnIn_orders (r : StateRef) : Orders m V p (goOnIn r) fun _ => True :=
  modify_orders fun _ hs => hs.beside rfl (.refl _) hs.labels hs.rethrow hs.caught hs.vars

theorem modifyState_orders {f : State → State} (hf : ∀ st, Neat m V st → Neat m V (f st)) :
    Orders m V p (modifyState r f) fun _ => True :=
  modify_orders fun _ hs => hs.modifyState fun _ => hf _ (hs.states r)

theorem modifyGuard_orders {g : GuardRef} {f : Guard → Guard}
    (hf : ∀ i q, Kempt m V q i → Kempt m V q (f i)) : Orders m V p (modifyGuard g f) fun _ => True :=
  modify_orders fun _ hs => hs.modifyGuard (hf _ _ (hs.guards g))

/-- A state that has no statements as yet. -/
theorem neat_new {st : State} (hs : st.stmts = #[]) (hn : st.next = none) (hr : st.resume = none)
    (hbare : st.kind = .rethrow → st.context = []) (hres : ∀ v, st.result = some v → m.Plain v.id) :
    Neat m V st where
  stmts x hx := absurd (hs ▸ hx) (Array.not_mem_empty x)
  shape := by rw [hs]; trivial
  bare := hbare
  next n h := by rw [hn] at h; cases h
  resume t h := by rw [hr] at h; cases h
  result := hres

/-- A new variable of the machine is a plain one, of its type. -/
theorem newLocal_orders (hV : V.Sees m p) (name : String) (t : Ty) :
    Orders m V p (newLocal name t) fun v => m.Plain v.id ∧ v.type = t := by
  unfold newLocal
  refine (Orders.build hV (newVar_gives name t)).bind fun v hv => ?_
  refine .modify (fun s hs => hs.beside rfl (.refl _) hs.labels hs.rethrow hs.caught fun w hw => ?_)
    (.pure hv)
  obtain hw | rfl := Array.mem_push.mp hw
  · exact hs.vars w hw
  · exact hv.1.declarable

/-- A new state of the loop is a state of the loop at the end, of the same kind. -/
theorem newStateIn_orders (hV : V.Sees m p) (context : List GuardRef) (kind : StateKind) (origin : Expr)
    (t : Ty) (hbare : kind = .rethrow → context = []) :
    Orders m V p (newStateIn context kind origin t) fun r => V.Listed r ∧ V.kindOf r = kind := by
  unfold newStateIn
  extract_lets tail
  have htail : ∀ slot, (∀ v, slot = some v → m.Plain v.id) →
      Orders m V p (tail slot) fun r => V.Listed r ∧ V.kindOf r = kind := by
    intro slot hslot s hs r s' hrun hb
    cases hrun
    have h1 := hs.addState (neat_new rfl rfl rfl hbare hslot : Neat m V
      ⟨s.states.size, kind, origin.id, "", "", #[], slot, context, s.cleanups > 0, none, none, false, false,
        false, false⟩)
    refine ⟨⟨hb.registered _ (Array.mem_push.mpr (.inr rfl)), ?_⟩, ?_⟩
    · have hkind := (hb.state s.graph.states.size ?_).2
      · exact hkind.trans (congrArg State.kind (state_push_self s.graph _))
      · exact Nat.lt_of_lt_of_eq (Nat.lt_succ_self _) (Array.size_push _).symm
    · exact h1.beside rfl (.refl _) h1.labels h1.rethrow h1.caught h1.vars
  split
  · exact htail none fun v h => by cases h
  · refine Orders.bind (P := fun slot => ∀ v, slot = some v → m.Plain v.id) ?_ htail
      (k := fun _ => keeps_register fun _ => rfl)
    refine .map ((newLocal_orders hV _ _).mono fun v hv w hw => ?_)
    cases hw
    exact hv.1

theorem newState_orders (hV : V.Sees m p) (kind : StateKind) (origin : Expr) (t : Ty)
    (hkind : kind ≠ .cleanup) (hbare : kind ≠ .rethrow) :
    Orders m V p (newState kind origin t) V.Target := by
  unfold newState
  refine .get fun s _ => (newStateIn_orders hV s.context kind origin t fun h => absurd h hbare).mono ?_
  exact fun r hr => ⟨hr.1, fun hc => hkind (hr.2.symm.trans hc)⟩

/-- The start of an arm belongs to no cleanup block of its own. -/
theorem newInlined_orders : Orders m V p newInlined fun r => V.kindOf r = .branch := by
  intro s hs r s' hrun hb
  cases hrun
  refine ⟨?_, hs.addState (neat_new rfl rfl rfl (fun h => by cases h) fun v h => by cases h)⟩
  have hkind := (hb.state s.graph.states.size ?_).2
  · exact hkind.trans (congrArg State.kind (state_push_self s.graph _))
  · exact Nat.lt_of_lt_of_eq (Nat.lt_succ_self _) (Array.size_push _).symm

theorem newDead_orders : Orders m V p newDead fun _ => True :=
  .get fun _ _ s hs => .of_ensures (Ensures.of_run rfl
    ⟨trivial, hs.addState (neat_new rfl rfl rfl (fun h => by cases h) fun v h => by cases h)⟩)

theorem Neat.goOn {st : State} (h : Neat m V st) (hn : V.Listed n) (hr : V.Clean n → st.resume.isSome = true) :
    Neat m V { st with next := some n } :=
  { h with
    next := fun k hk => by
      cases hk
      exact ⟨hn, hr⟩ }

theorem Neat.resumeIn {st : State} (h : Neat m V st) (ht : V.Target t) :
    Neat m V { st with resume := some t } :=
  { h with
    next := fun k hk => ⟨(h.next k hk).1, fun _ => rfl⟩
    resume := fun k hk => by
      cases hk
      exact ht }

theorem setNext_orders (hn : V.Target n) : Orders m V p (setNext r n) fun _ => True := by
  intro s hs _ s' hrun _
  obtain ⟨-, rfl⟩ := setNext_run hrun
  exact ⟨trivial, hs.modifyState fun _ => (hs.states r).goOn hn.listed fun hc => absurd hc hn.plain⟩

/-- Going on in a cleanup block, which goes on in `t`. -/
theorem setResumeNext_orders (ht : V.Target t) (hn : V.Listed n) :
    Orders m V p (do modifyState r fun st => { st with resume := some t }; setNext r n) fun _ => True := by
  intro s hs
  refine Toward.after (R := fun _ s' => s' =
    { s with graph := s.graph.modifyState r fun st => { st with resume := some t } })
    (Ensures.of_run rfl rfl) ?_
  rintro _ _ rfl _ s' hrun -
  obtain ⟨-, rfl⟩ := setNext_run hrun
  have heq := modifyState_modifyState s.graph r (fun st => { st with resume := some t })
    fun st => { st with next := some n }
  simp only [heq]
  exact ⟨trivial, hs.modifyState fun _ => ((hs.states r).resumeIn ht).goOn hn fun _ => rfl⟩

theorem closeWith_orders (hn : V.Target n) : Orders m V p (closeWith n) fun _ => True := by
  unfold closeWith
  refine .current fun st _ => ?_
  split
  · exact .get fun s _ => setNext_orders hn
  · exact .pure trivial

theorem setTerminal_orders : Orders m V p setTerminal fun _ => True :=
  .get fun _ _ => modifyState_orders fun _ h => { h with }

theorem endWithJump_orders : Orders m V p endWithJump fun _ => True := by
  unfold endWithJump
  exact setTerminal_orders.bind fun _ _ => newDead_orders.bind fun r _ => goOnIn_orders r

/-- A state ends with a statement that transfers. -/
theorem splitAt_orders (hx : V.Steady m x) : Orders m V p (splitAt x n) fun _ => True := by
  unfold splitAt
  exact (emit_orders hx).bind fun _ _ => setTerminal_orders.bind fun _ _ => goOnIn_orders n

/-- The transition of a state may follow any statement. -/
theorem transition_orders (hV : V.Sees m p) (r : StateRef) : Orders m V p (transition r) fun xs =>
    (∀ x ∈ xs, Obeys m (V.role false false) x) ∧ ∀ armed bare prev, m.Shape armed bare prev xs := by
  unfold transition
  refine .state ?_ (k := fun st => ?_)
  rotate_left
  · repeat' first | infer_instance | split
  intro st hst _
  split
  · exact .pure ⟨by simp, fun _ _ _ => trivial⟩
  · rename_i k hk
    obtain ⟨hlisted, hclean⟩ := hst.next k hk
    extract_lets tail
    have hkeeps : ∀ move, Keeps (tail move) := fun move => by unfold tail; split <;> infer_instance
    -- a store of a cleanup state has to be followed by one of the resume slot
    have htail : ∀ move : List Expr,
        (move = [] ∨ ∃ x, move = [x] ∧ V.Moving m x ∧ (V.Target k → V.Steady m x)) →
        Orders m V p (tail move) fun xs =>
          (∀ x ∈ xs, Obeys m (V.role false false) x) ∧ ∀ armed bare prev, m.Shape armed bare prev xs := by
      intro move hmove
      unfold tail
      split
      · rename_i t ht
        refine (setResume_orders hV (hst.resume t ht)).bind fun y hgo => .pure ?_
        obtain ⟨hy, haims⟩ := hgo
        obtain rfl | ⟨x, rfl, hx, -⟩ := hmove
        · exact ⟨by simpa using hy.obeys, fun _ _ _ => ⟨.any (hy.plain _), trivial⟩⟩
        · refine ⟨by simpa using ⟨hx.obeys, hy.obeys⟩, fun armed bare prev => ?_⟩
          exact ⟨hx.fits fun hown => .inr ⟨y, [], rfl, haims hown⟩, .any (hy.plain _), trivial⟩
      · rename_i hnone
        refine .pure ?_
        obtain rfl | ⟨x, rfl, hx, hsteady⟩ := hmove
        · exact ⟨by simp, fun _ _ _ => trivial⟩
        · have hplain : ¬ V.Clean k := fun hc => by simpa [hnone] using hclean hc
          have hx' := hsteady ⟨hlisted, hplain⟩
          exact ⟨by simpa using hx'.obeys, fun _ _ _ => ⟨.any (hx'.plain _), trivial⟩⟩
    split
    · exact htail [] (.inl rfl)
    · refine (setState_orders hV hlisted).bind fun x hx => htail [x] (.inr ⟨x, rfl, hx⟩)

/-- The statements of an arm that begins inside a state may stand anywhere. -/
theorem inlineState_orders (hV : V.Sees m p) (hr : V.kindOf r = .branch) :
    Orders m V p (inlineState r) (V.Steady m) := by
  unfold inlineState
  refine .state fun st hst hshows => (transition_orders hV r).bind fun xs ⟨hxs, hshape⟩ => ?_
  extract_lets stmts
  split
  · exact .build hV (empty_gives.mono fun x hx => Outlook.Value.steady hx hV.alone)
  · refine .build hV ((block_part (by simp) ⟨fun x hx => ?_, ?_⟩).mono fun x hx => hx.steady)
    · obtain hx | hx := List.mem_append.mp hx
      · exact hst.stmts x (Array.mem_toList_iff.mp hx)
      · exact hxs x hx
    · refine Watch.Shape.append ?_ (hshape _ _ _)
      have hkind : (st.kind == .cleanup) = false ∧ (st.kind == .rethrow) = false := by
        obtain ⟨-, hkind⟩ | rfl := hshows
        · rw [hkind, hr]
          exact ⟨rfl, rfl⟩
        · exact ⟨rfl, rfl⟩
      have hown := hst.shape
      rwa [hkind.1, hkind.2] at hown

/-! ### Values -/

theorem ref_value (hV : V.Sees m p) (hv : m.Plain v.id) : Orders m V p (liftM (ref v)) (V.Value m) :=
  .build hV (ref_gives hv)

/-- A store into a variable that is not the machine's. -/
theorem store_value (hV : V.Sees m p) (hx : V.Value m x) (hy : V.Value m y) :
    Orders m V p (liftM (assign x y)) (V.Value m) := .build hV (assign_gives hx hy)

/-- Storing a result is no statement of the machine. -/
theorem assignResult_orders (hV : V.Sees m p) (hx : V.Value m x) :
    Orders m V p (assignResult r x) fun _ => True := by
  unfold assignResult
  refine .state (k := fun st => by split <;> infer_instance) fun st hst _ => ?_
  split
  · rename_i slot hslot
    split
    · exact emitValue_orders hV hx
    · refine (ref_value hV (hst.result slot hslot)).bind fun a ha => ?_
      refine (Orders.build hV (coerce_gives hx)).bind fun b hb => ?_
      exact (store_value hV ha hb).bind fun c hc => emitValue_orders hV hc
  · exact emitValue_orders hV hx

theorem resultRef_orders (hV : V.Sees m p) (r : StateRef) (t : Ty) :
    Orders m V p (resultRef r t) (V.Value m) := by
  unfold resultRef
  refine .state (k := fun st => by split <;> infer_instance) fun st hst _ => ?_
  split
  · rename_i slot hslot
    exact ref_value hV (hst.result slot hslot)
  · exact .build hV (default_gives t)

theorem spill_orders (hV : V.Sees m p) (hx : V.Value m x) : Orders m V p (spill x) (V.Value m) := by
  unfold spill
  split
  · exact .pure hx
  · refine (newLocal_orders hV _ _).bind fun tmp htmp => ?_
    refine (ref_value hV htmp.1).bind fun a ha => (store_value hV ha hx).bind fun b hb => ?_
    exact (emitValue_orders hV hb).bind fun _ _ => ref_value hV htmp.1

theorem passThrough_orders (hV : V.Sees m p) (hx : V.Value m x) :
    Orders m V p (passThrough x) (V.Value m) := by
  unfold passThrough
  refine .get fun s hs => ?_
  split
  · exact .pure hx
  · rename_i v hv
    exact .build hV (bindRethrow_gives (hs.caught v hv) hx)

theorem report_orders (code : Code) (e : Expr) (msg : String) :
    Orders m V p (report code e msg) fun _ => True :=
  fun _ hs => .of_ensures (Ensures.of_run rfl
    ⟨trivial, hs.beside rfl (.refl _) hs.labels hs.rethrow hs.caught hs.vars⟩)

end

end Resumable
