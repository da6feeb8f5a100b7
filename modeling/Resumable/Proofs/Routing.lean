import Resumable.Proofs.Filtering

/-!
# `Proofs.Routing`: the handlers of a region, one test after the other

Routing leaves a list of tests with actions, and goes on to the next test when one fails. Handlers that are
covered by earlier ones have no test, as long as no filter has been met; a region whose filter has failed is
marked by a flag that the later tests of the region ask. Handler by handler, the tests that are added come to
what the search says about the handler: `Added` is what one handler adds, `Added.serves` that this is right,
and `routeHandlers_draws` the same of all handlers of a region.

**Contents**
* `Falls`, `Takes`, `Chain`: tests one after the other.
* `Draws`: computations that only hand out names, and succeed.
* `Arrival.Gates`, `Probes`, `Performs`: what the trees of a handler do.
* `routeHandler_draws`, `Added.serves`: one handler.
* `routeHandlers_draws`: the handlers of a region.
-/

namespace Resumable

open Run

/-! ### Tests one after the other -/

/-- The tests fail one after the other, and lead from one world to another. -/
inductive Falls (env : Env) : List (Expr × Expr) → World → World → Prop
  | nil (w : World) : Falls env [] w w
  | cons {test action : Expr} {arms : List (Expr × Expr)} {w w' w'' : World}
      (ht : Ends (fun c => evalBool c test env) w (.ok false w')) (h : Falls env arms w' w'') :
      Falls env ((test, action) :: arms) w w''

/-- A test holds after some have failed, and its action leads to a world. -/
inductive Takes (env : Env) : List (Expr × Expr) → World → World → Prop
  | here {test action : Expr} {arms : List (Expr × Expr)} {w w' w'' : World} {o : Option Value}
      (ht : Ends (fun c => evalBool c test env) w (.ok true w'))
      (ha : Ends (fun c => c.eval action env) w' (.ok o w'')) : Takes env ((test, action) :: arms) w w''
  | later {test action : Expr} {arms : List (Expr × Expr)} {w w' w'' : World}
      (ht : Ends (fun c => evalBool c test env) w (.ok false w')) (h : Takes env arms w' w'') :
      Takes env ((test, action) :: arms) w w''

/-- The tree asks the tests in order and goes on with `rest`. -/
inductive Chain (rest : Expr) : List (Expr × Expr) → Expr → Prop
  | nil : Chain rest [] rest
  | cons {test action x : Expr} {arms : List (Expr × Expr)} {i r : Nat} (h : Chain rest arms x) :
      Chain rest ((test, action) :: arms) (.node i r .void (.conditional test action x))

section
variable {env : Env} {arms more : List (Expr × Expr)} {rest x : Expr} {w w' w'' : World}

theorem Falls.append (h : Falls env arms w w') (h' : Falls env more w' w'') : Falls env (arms ++ more) w w'' := by
  induction h with
  | nil => exact h'
  | cons ht _ ih => exact .cons ht (ih h')

theorem Falls.takes (h : Falls env arms w w') (h' : Takes env more w' w'') : Takes env (arms ++ more) w w'' := by
  induction h with
  | nil => exact h'
  | cons ht _ ih => exact .later ht (ih h')

theorem Takes.append (h : Takes env arms w w') (more : List (Expr × Expr)) : Takes env (arms ++ more) w w' := by
  induction h with
  | here ht ha => exact .here ht ha
  | later ht _ ih => exact .later ht ih

/-- When a test takes the error, its action is all that is done. -/
theorem Chain.takes (h : Chain rest arms x) (ht : Takes env arms w w') :
    Ends (fun c => c.eval x env) w (.ok none w') := by
  induction ht generalizing x with
  | here ht ha =>
    cases h
    exact conditional_ends ht ha
  | later ht _ ih =>
    cases h with
    | cons h => exact conditional_ends ht (ih h)

/-- When every test fails, what is behind them is done. -/
theorem Chain.falls (h : Chain rest arms x) (hf : Falls env arms w w')
    (hr : Ends (fun c => c.eval rest env) w' (.ok none w'')) : Ends (fun c => c.eval x env) w (.ok none w'') := by
  induction hf generalizing x with
  | nil =>
    cases h
    exact hr
  | cons ht _ ih =>
    cases h with
    | cons h => exact conditional_ends ht (ih h hr)

end

/-! ### What routing is made of -/

namespace Split

/-- The computation succeeds, hands out names and does nothing else. What it ends with has a property, which
may speak of the names that are handed out then. -/
def Draws (p : Plan) (s : Splitter) (x : Split α) (P : α → Nat → Prop) : Prop :=
  Yields p s x fun a s' => ∃ q, s' = { s with supply := q } ∧ s.supply.names ≤ q.names ∧ P a q.names

namespace Draws

variable {p : Plan} {s : Splitter} {x : Split α} {P Q : α → Nat → Prop} {R : β → Nat → Prop}

theorem pure {a : α} (h : P a s.supply.names) : Draws p s (pure a) P :=
  Yields.pure ⟨s.supply, rfl, le_rfl, h⟩

theorem bind {f : α → Split β} (hx : Draws p s x P) (hf : ∀ a q, s.supply.names ≤ q.names → P a q.names →
    Draws p { s with supply := q } (f a) R) : Draws p s (x >>= f) R := by
  refine Yields.bind hx ?_
  rintro a _ ⟨q, rfl, hle, ha⟩
  refine (hf a q hle ha).mono ?_
  rintro b _ ⟨q', rfl, hle', hb⟩
  exact ⟨q', rfl, hle.trans hle', hb⟩

theorem mono (hx : Draws p s x P) (h : ∀ a n, s.supply.names ≤ n → P a n → Q a n) : Draws p s x Q := by
  refine Yields.mono hx ?_
  rintro a _ ⟨q, rfl, hle, ha⟩
  exact ⟨q, rfl, hle, h a q.names hle ha⟩

theorem build {x : Build α} {P : α → Prop} (hx : Forms s.supply.names x P) :
    Draws p s (liftM x) fun a _ => P a := by
  obtain ⟨a, q, hrun, hle, ha⟩ := hx s.supply le_rfl
  refine ⟨a, { s with supply := q }, ?_, q, rfl, hle, ha⟩
  show Split.build x p s = _
  unfold Split.build
  rw [hrun]

theorem newVar (name : String) (t : Ty) : Draws p s (liftM (Build.newVar name t)) fun v n =>
    v.type = t ∧ s.supply.names < v.id ∧ v.id ≤ n :=
  Yields.of_run rfl ⟨_, rfl, Nat.le_succ _, rfl, Nat.lt_succ_self _, le_rfl⟩

theorem read {f : Plan → Split β} (h : Draws p s (f p) R) : Draws p s (MonadReader.read >>= f) R := h

theorem state {r : StateRef} {f : State → Split β} (h : Draws p s (f (s.graph.state r)) R) :
    Draws p s (Split.state r >>= f) R := h

end Draws

/-- Looking at a region changes nothing. -/
theorem yields_guard {p : Plan} {s : Splitter} {g : GuardRef} {f : Guard → Split β} {Q : β → Splitter → Prop}
    (h : Yields p s (f (s.graph.guard g)) Q) : Yields p s (Split.guard g >>= f) Q := h

variable {p : Plan} {s : Splitter}

theorem setStateId_draws (k : Int) (hv : p.stateVar.type = .int) :
    Draws p s (setStateId k) fun x _ => ∀ ex e, Writes ex e (p.stateVar, .ofInt k) x := by
  unfold setStateId
  refine .read ((Draws.build (.ref _)).bind ?_)
  rintro _ q - ⟨i, r, rfl⟩
  refine (Draws.build (.constInt k)).bind ?_
  rintro _ q - ⟨j, l, rfl⟩
  have hint : (Value.ofInt k).typeOf = p.stateVar.type := hv.symm
  exact .build (.storeConstant hint (by rw [hv]; rfl))

theorem setState_draws (r : StateRef) (hv : p.stateVar.type = .int) :
    Draws p s (setState r) fun x _ => ∀ ex e, Writes ex e (p.stateVar, .ofInt (s.graph.idOf r)) x := by
  unfold setState
  exact .state (setStateId_draws _ hv)

theorem setResume_draws (r : StateRef) (hv : p.resumeVar.type = .int) :
    Draws p s (setResume r) fun x _ => ∀ ex e, Writes ex e (p.resumeVar, .ofInt (s.graph.idOf r)) x := by
  unfold setResume
  refine .read ((Draws.build (.ref _)).bind ?_)
  rintro _ q - ⟨i, r, rfl⟩
  refine .state ((Draws.build (.constInt _)).bind ?_)
  rintro _ q - ⟨j, l, rfl⟩
  have hint : ∀ k, (Value.ofInt k).typeOf = p.resumeVar.type := fun _ => hv.symm
  exact .build (.storeConstant (hint _) (by rw [hv]; rfl))

end Split

/-! ### Handlers -/

namespace Arrival

variable {σ : Type} {A : Arrival σ} {env : Env} {vs : List Var} {y : Way σ} {w w' : World} {h : Catch}
  {hs : List Catch} {skip skip' : Option Var} {k caught : Var} {n n' : Nat}

/-- Whether the region has not failed and the handler accepts the error. -/
def Way.open (y : Way σ) (skip : Option Var) (h : Catch) : Bool :=
  !(skip.any y.failed) && y.err.typeOf.assignableTo h.test

/-- The search among handlers of a region of which a filter may have failed. -/
def Way.searched (y : Way σ) (F : Filters σ) (skip : Option Var) (hs : List Catch) : Option Catch × Value × σ :=
  if skip.any y.failed then (none, y.err, y.st) else F.searchHandlers hs y.err y.st

/-- The stores for a handler. -/
def handlerStores (A : Arrival σ) (caught : Var) (h : Catch) (e : Value) : List (Var × Value) :=
  (caught, e.asError) :: h.binding e ++ [(A.plan.stateVar, .ofInt (A.splitter.graph.idOf h.state))]

/-- The tree tells whether the handler is open to the error. -/
def Gates (A : Arrival σ) (h : Catch) (skip : Option Var) (x : Expr) : Prop :=
  ∀ env vs y w, A.Stage env vs → (∀ k, skip = some k → k ∈ vs) → A.At env vs y w →
    Ends (fun c => c.eval x env) w (.ok (some (.ofBool (y.open skip h))) w)

/-- The tree tells whether the handler is open to the error and its filter lets the error through. -/
def Probes (A : Arrival σ) (h : Catch) (skip : Option Var) (k : Var) (x : Expr) : Prop :=
  ∀ env vs y w, A.Stage env vs → (∀ k, skip = some k → k ∈ vs) → k ∈ vs → A.At env vs y w →
    (y.open skip h = false → Ends (fun c => evalBool c x env) w (.ok false w)) ∧
    (y.open skip h = true → ∃ w',
      Ends (fun c => evalBool c x env) w (.ok (A.filters.answer h y.err y.st).1.isPass w') ∧
        A.At env vs (y.after k (A.filters.answer h y.err y.st)) w')

/-- For errors of some types the tree does these stores, and nothing else. -/
def Performs (A : Arrival σ) (ok : Value → Prop) (xs : Value → List (Var × Value)) (x : Expr) : Prop :=
  ∀ env vs y w, A.Stage env vs → A.At env vs y w → ok y.err →
    Ends (fun c => c.eval x env) w (.ok none (w.storeAll A.env (xs y.err)))

/-- The routing after a handler was added to it: nothing is added for a handler that an earlier one covers,
and a test with an action for any other. -/
inductive Added (A : Arrival σ) (caught : Var) (h : Catch) (n n' : Nat) (skip : Option Var) (r : Split.Routing) :
    Option Var → Split.Routing → Prop
  | covered (hf : h.filter.isAbsent = true) (hr : r.filtered = false) (hc : r.seen.contains h.test = true) :
      Added A caught h n n' skip r skip r
  | plain {test action : Expr} {r' : Split.Routing} (hf : h.filter.isAbsent = true) (ht : A.Gates h skip test)
      (ha : A.Performs (fun e => e.typeOf.assignableTo h.test = true) (A.handlerStores caught h) action)
      (arms : r'.arms = r.arms ++ [(test, action)]) (skips : r'.skips = r.skips)
      (filtered : r'.filtered = r.filtered) (seen : ∀ t ∈ r'.seen.types, t = h.test ∨ t ∈ r.seen.types) :
      Added A caught h n n' skip r skip r'
  | asked {test action : Expr} {r' : Split.Routing} {k : Var} (hf : h.filter.isAbsent = false)
      (ht : A.Probes h skip k test)
      (ha : A.Performs (fun e => e.typeOf.assignableTo h.test = true) (A.handlerStores caught h) action)
      (arms : r'.arms = r.arms ++ [(test, action)]) (filtered : r'.filtered = true)
      (seen : ∀ t ∈ r'.seen.types, t = h.test ∨ t ∈ r.seen.types)
      (flag : (skip = some k ∧ r'.skips = r.skips) ∨
        (skip = none ∧ r'.skips = r.skips ++ [k] ∧ k.type = .bool ∧ n < k.id ∧ k.id ≤ n')) :
      Added A caught h n n' skip r (some k) r'

/-- The flags of a routing are new variables, one for each name, and the current region's is one of them. The
types that are covered are types of handlers. -/
structure Tidy (A : Arrival σ) (n : Nat) (skip : Option Var) (r : Split.Routing) : Prop where
  named : A.splitter.supply.names ≤ n
  flags : ∀ k ∈ r.skips, k.type = .bool ∧ A.splitter.supply.names < k.id ∧ k.id ≤ n
  nodup : (r.skips.map Var.id).Nodup
  current : ∀ k, skip = some k → k ∈ r.skips ∧ r.filtered = true
  seen : ∀ t ∈ r.seen.types, A.types t

/-- The flags that are not handed out are not set, and the error is none that has been covered as long as
handlers are left out. -/
structure Fine (r : Split.Routing) (n : Nat) (y : Way σ) : Prop where
  unset : ∀ v : Var, n < v.id → y.failed v = false
  uncovered : r.filtered = false → ∀ t ∈ r.seen.types, y.err.typeOf.assignableTo t = false

theorem Tidy.mono {r : Split.Routing} (hr : A.Tidy n skip r) (hn : n ≤ n') : A.Tidy n' skip r :=
  { hr with
    named := hr.named.trans hn
    flags := fun k hk => ⟨(hr.flags k hk).1, (hr.flags k hk).2.1, (hr.flags k hk).2.2.trans hn⟩ }

theorem Fine.mono {r : Split.Routing} (hfine : Fine r n y) (hn : n ≤ n') : Fine r n' y :=
  { hfine with unset := fun v hv => hfine.unset v (Nat.lt_of_le_of_lt hn hv) }

end Arrival

namespace Split

variable {σ : Type} {A : Arrival σ} {p : Plan} {s : Splitter} {h : Catch} {caught : Var} {skip : Option Var}
  {r : Routing}

/-- Stores one after the other. -/
theorem performs_block {ok : Value → Prop} {xs : Value → List (Var × Value)} {trees : List Expr} {i l : Nat}
    (hA : A.Sound) (hxs : ∀ e, ∀ x ∈ xs e, A.Slotted x.1)
    (htrees : ∀ e : Value, e.Raisable → A.types e.typeOf → ok e → List.Forall₂ (Writes A.ex e) (xs e) trees) :
    A.Performs ok xs (.node i l .void (.block [] trees)) := by
  intro env vs y w hs hy hok
  obtain ⟨a, ha, -⟩ := hs.exSlot
  have hfind : ∀ x ∈ xs y.err, env.find? x.1 = A.env.find? x.1 := fun x hx => hs.known _ (hxs _ x hx).known
  have hslots : ∀ x ∈ xs y.err, ∃ b, env.find? x.1 = some b ∧ b ≠ a := by
    intro x hx
    obtain ⟨b, hb, hb'⟩ := hs.find?_slotted (hxs _ x hx)
    exact ⟨b, hb', hs.ne_of_known hA hb List.mem_cons_self ha⟩
  obtain ⟨o, hwalk⟩ := Writes.walk (htrees y.err hy.raisable hy.typed hok) ha hslots (hy.err a ha) none
  have hstores : w.storeAll env (xs y.err) = w.storeAll A.env (xs y.err) :=
    List.foldl_ext _ _ w fun w x hx => by rw [hfind x hx]
  rw [← hstores]
  exact block_ends rfl hwalk

theorem gates_typeIs {i l j m : Nat} :
    A.Gates h none (.node i l .bool (.typeIs (.node j m A.ex.type (.var A.ex)) h.test)) := by
  intro env vs y w hs _ hy
  obtain ⟨a, ha, -⟩ := hs.exSlot
  have href : Ends (fun c => c.eval (.node j m A.ex.type (.var A.ex)) env) w (.ok (some y.err.asError) w) :=
    hy.err a ha ▸ ref_ends ha
  exact typeIs_ends href

/-- A region whose flag is set has no handler for the error. -/
theorem gates_andAlso {k : Var} {i l j m i' l' : Nat} {t : Ty} {x : Expr} (hx : A.Gates h none x) :
    A.Gates h (some k) (.node i l .bool
      (.binary .andAlso (.node j m .bool (.unary .not (.node i' l' t (.var k)) none)) x none)) := by
  intro env vs y w hs hk hy
  have hmem : k ∈ vs := hk k rfl
  obtain ⟨a, ha, -⟩ := hs.own k (List.mem_cons_of_mem _ hmem)
  have href : Ends (fun c => c.eval (.node i' l' t (.var k)) env) w (.ok (some (.ofBool (y.failed k))) w) :=
    hy.failed k hmem a ha ▸ ref_ends ha
  have hnot := evalBool_ends (not_ends (i := j) (r := m) (t := .bool) href)
  have hopen : y.open (some k) h = (!y.failed k && y.err.typeOf.assignableTo h.test) := rfl
  rw [hopen]
  cases hfailed : y.failed k with
  | true =>
    rw [hfailed] at hnot
    exact andAlso_stops hnot
  | false =>
    rw [hfailed] at hnot
    exact andAlso_ends hnot (evalBool_ends (hx env vs y w hs (fun k hk => by cases hk) hy))

/-- A test behind a gate is asked only if the gate lets it. -/
theorem probes_andAlso {k : Var} {i l : Nat} {x z : Expr} (hx : A.Gates h skip x) (hz : A.Asks h k z) :
    A.Probes h skip k (.node i l .bool (.binary .andAlso x z none)) := by
  intro env vs y w hs hskip hk hy
  have hgate := evalBool_ends (hx env vs y w hs hskip hy)
  refine ⟨fun hopen => ?_, fun hopen => ?_⟩
  · rw [hopen] at hgate
    exact evalBool_ends (andAlso_stops hgate)
  · rw [hopen] at hgate
    have haccepts : y.err.typeOf.assignableTo h.test = true := by
      simp only [Arrival.Way.open, Bool.and_eq_true] at hopen
      exact hopen.2
    obtain ⟨w', hends, hat⟩ := hz env vs y w hs hk hy haccepts
    exact ⟨w', evalBool_ends (andAlso_ends hgate (evalBool_ends hends)), hat⟩

/-- A type that is added is covered by none of the set, and it is the only new one. -/
theorem seen_cases {plain filtered fresh : Bool} {seen seen' : TypeSet} {t : Ty}
    (h : (if plain && !filtered then seen.add t else (true, seen)) = (fresh, seen')) :
    (fresh = false → plain = true ∧ filtered = false ∧ seen.contains t = true ∧ seen' = seen) ∧
      ∀ u ∈ seen'.types, u = t ∨ u ∈ seen.types := by
  unfold TypeSet.add at h
  split at h
  · rename_i hplain
    split at h
    · rename_i hcontains
      cases h
      exact ⟨fun _ => ⟨by simp_all, by simp_all, hcontains, rfl⟩, fun u hu => Or.inr hu⟩
    · cases h
      refine ⟨fun hfresh => (by cases hfresh), fun u hu => ?_⟩
      obtain hu | hu := List.mem_append.mp hu
      · exact Or.inr (List.mem_of_mem_filter hu)
      · exact Or.inl (List.mem_singleton.mp hu)
  · cases h
    exact ⟨fun hfresh => (by cases hfresh), fun u hu => Or.inr hu⟩

theorem slotted_handlerStores (hA : A.Sound) (hh : A.Handler h) (hcaught : A.Slotted caught) (e : Value) :
    ∀ x ∈ A.handlerStores caught h e, A.Slotted x.1 := by
  intro x hx
  simp only [Arrival.handlerStores, Catch.binding, List.mem_cons, List.mem_append, Option.mem_toList,
    Option.map_eq_some_iff, List.not_mem_nil, or_false] at hx
  obtain (rfl | ⟨v, hv, rfl⟩) | rfl := hx
  · exact hcaught
  · exact (hA.handler h hh).slotted v hv
  · exact hA.stateVar.2

/-- Adding a handler of a region. -/
theorem routeHandler_draws (hA : A.Sound) (hh : A.Handler h) (hgraph : s.graph = A.splitter.graph)
    (hcaught : caught.type = .error ∧ A.Slotted caught) (hr : A.Tidy s.supply.names skip r) :
    Draws A.plan s (routeHandler caught A.ex h skip r) fun q n =>
      A.Added caught h s.supply.names n skip r q.1 q.2 := by
  unfold routeHandler
  extract_lets plain add
  -- the action stores the error and the number of the state of the handler
  have hadd : ∀ {s' : Splitter} {test : Expr} {skip' : Option Var} {r' : Routing},
      s'.graph = A.splitter.graph → Draws A.plan s' (add (test, skip', r')) fun q _ =>
        q.1 = skip' ∧ ∃ action, q.2 = { r' with arms := r'.arms ++ [(test, action)] } ∧
          A.Performs (fun e => e.typeOf.assignableTo h.test = true) (A.handlerStores caught h) action := by
    intro s' test skip' r' hs'
    refine (Draws.build (.ref caught)).bind ?_
    rintro _ q - ⟨i, l, rfl⟩
    refine (Draws.build (.ref A.ex)).bind ?_
    rintro _ q - ⟨j, m, rfl⟩
    refine (Draws.build (.storeError hcaught.1)).bind fun keep q _ hkeep => ?_
    refine (Draws.build (bindCaught_forms _ h A.ex)).bind fun bind q _ hbind => ?_
    refine (setState_draws h.state hA.stateVar.1).bind fun move q _ hmove => ?_
    refine (Draws.build (.node .void _)).bind ?_
    rintro _ q - ⟨i', l', rfl⟩
    refine .pure ⟨rfl, _, rfl, ?_⟩
    refine performs_block hA (slotted_handlerStores hA hh hcaught.2) fun e he ht haccepts => ?_
    have hid : s'.graph.idOf h.state = A.splitter.graph.idOf h.state := by rw [hs']
    refine .cons (hkeep e) (List.rel_append (hbind e he (hA.binds hh ht haccepts)) ?_)
    rw [← hid]
    exact .cons (hmove A.ex e) .nil
  split
  rename_i fresh seen hseen
  obtain ⟨hcovered, hadded⟩ := seen_cases hseen
  extract_lets r' guarded
  -- with a test, the handler is added with its filter or without
  have hguarded : ∀ {s' : Splitter} {test : Expr}, s'.graph = A.splitter.graph →
      s.supply.names ≤ s'.supply.names → test.isAbsent = false → A.Gates h skip test →
      Draws A.plan s' (guarded test) fun q n => A.Added caught h s.supply.names n skip r q.1 q.2 := by
    intro s' test hs' hle hpresent htest
    unfold guarded
    split
    · rename_i hplain
      refine (hadd hs').mono ?_
      rintro ⟨skip', r''⟩ n - ⟨rfl, action, rfl, haction⟩
      exact .plain hplain htest haction rfl rfl rfl hadded
    · rename_i hplain
      have hf : h.filter.isAbsent = false := by simpa [plain] using hplain
      extract_lets filtered
      -- a filter is asked behind the test, and says in the flag that it failed
      have hfiltered : ∀ {s' : Splitter} {k : Var} {r'' : Routing}, s'.graph = A.splitter.graph →
          s.supply.names ≤ s'.supply.names → r''.arms = r.arms → r''.seen = seen →
          k.type = .bool ∧ k.id ≤ s'.supply.names ∧ ((skip = some k ∧ r''.skips = r.skips) ∨
            (skip = none ∧ r''.skips = r.skips ++ [k] ∧ s.supply.names < k.id)) →
          Draws A.plan s' (filtered (k, r'')) fun q n => A.Added caught h s.supply.names n skip r q.1 q.2 := by
        intro s' k r'' hs' hle harms hseen hk
        have hex : A.ex.id ≤ s'.supply.names := hA.named.trans (hr.named.trans hle)
        refine (Draws.build (filterGuard_forms hA hh hf hk.1 hex hk.2.1)).bind fun z q hq hz => ?_
        refine (Draws.build (.andAlso hpresent z)).bind ?_
        rintro _ q' hq' ⟨i, l, rfl⟩
        rw [pure_bind]
        refine Draws.mono (hadd hs') ?_
        rintro ⟨skip', r₁⟩ n hn ⟨rfl, action, rfl, haction⟩
        refine .asked hf (probes_andAlso htest hz) haction (by rw [harms]) rfl (hseen ▸ hadded) ?_
        obtain ⟨hflag, hskips⟩ | ⟨hflag, hskips, hnew⟩ := hk.2.2
        · exact Or.inl ⟨hflag, hskips⟩
        · exact Or.inr ⟨hflag, hskips, hk.1, hnew, hk.2.1.trans (hq.trans (hq'.trans hn))⟩
      cases hskip : skip with
      | some k =>
        obtain ⟨hbool, -, hle'⟩ := hr.flags k (hr.current k hskip).1
        subst hskip
        exact hfiltered hs' hle rfl rfl ⟨hbool, hle'.trans hle, Or.inl ⟨rfl, rfl⟩⟩
      | none =>
        refine (Draws.newVar "filterFailed" .bool).bind ?_
        rintro k q hq ⟨hbool, hnew, hle'⟩
        subst hskip
        exact hfiltered hs' (hle.trans hq) rfl rfl ⟨hbool, hle', Or.inr ⟨rfl, rfl, Nat.lt_of_le_of_lt hle hnew⟩⟩
  split
  · -- an earlier handler accepts all of its errors
    rename_i hfresh
    obtain ⟨hplain, hfiltered, hcontains, rfl⟩ := hcovered (by simpa using hfresh)
    exact .pure (.covered hplain hfiltered hcontains)
  · refine (Draws.build (.ref A.ex)).bind ?_
    rintro _ q₁ hq₁ ⟨i, l, rfl⟩
    refine (Draws.build (.node .bool _)).bind ?_
    rintro _ q₂ hq₂ ⟨j, m, rfl⟩
    have hle : s.supply.names ≤ q₂.names := hq₁.trans hq₂
    -- behind a failed filter the test asks the flag first
    cases hskip : skip with
    | some k =>
      subst hskip
      refine (Draws.build (.ref k)).bind ?_
      rintro _ q₃ hq₃ ⟨i', l', rfl⟩
      refine (Draws.build (.node .bool _)).bind ?_
      rintro _ q₄ hq₄ ⟨j', m', rfl⟩
      refine (Draws.build (.andAlso rfl _)).bind ?_
      rintro _ q₅ hq₅ ⟨_, _, rfl⟩
      exact hguarded hgraph (hle.trans (hq₃.trans (hq₄.trans hq₅))) rfl (gates_andAlso gates_typeIs)
    | none =>
      subst hskip
      exact hguarded hgraph hle rfl gates_typeIs

end Split

/-! ### A handler in the search -/

namespace Arrival

variable {σ : Type} {A : Arrival σ} {F : Filters σ} {env : Env} {vs : List Var} {y : Way σ} {w w' w'' : World}
  {h : Catch} {hs : List Catch} {skip skip' : Option Var} {k caught : Var} {n n' : Nat} {r r' : Split.Routing}
  {arms more : List (Expr × Expr)}

/-- A handler that is not open to the error is passed by. -/
theorem Way.searched_of_not_open (ho : y.open skip h = false) :
    y.searched F skip (h :: hs) = y.searched F skip hs := by
  unfold Way.searched
  cases hfailed : skip.any y.failed with
  | true => rfl
  | false =>
    have hno : y.err.typeOf.assignableTo h.test = false := by simpa [Way.open, hfailed] using ho
    rw [Filters.searchHandlers, hno]
    rfl

/-- A handler without a filter that is open to the error takes it. -/
theorem Way.searched_of_plain (ho : y.open skip h = true) (hf : h.filter.isAbsent = true) :
    y.searched F skip (h :: hs) = (some h, y.err, y.st) := by
  obtain ⟨hfailed, haccepts⟩ : skip.any y.failed = false ∧ y.err.typeOf.assignableTo h.test = true := by
    simpa [Way.open] using ho
  unfold Way.searched
  rw [hfailed, Filters.searchHandlers, haccepts, hf]
  rfl

/-- So does one whose filter lets it through. -/
theorem Way.searched_of_pass (ho : y.open skip h = true) (hf : h.filter.isAbsent = false)
    (hpass : (F.answer h y.err y.st).1.isPass = true) (k : Var) : y.searched F skip (h :: hs) =
      (some h, (y.after k (F.answer h y.err y.st)).err, (y.after k (F.answer h y.err y.st)).st) := by
  obtain ⟨hfailed, haccepts⟩ : skip.any y.failed = false ∧ y.err.typeOf.assignableTo h.test = true := by
    simpa [Way.open] using ho
  unfold Way.searched
  rw [hfailed, Filters.searchHandlers, haccepts, hf]
  cases hanswer : F.answer h y.err y.st with
  | mk verdict st =>
    rw [hanswer] at hpass
    cases verdict with
    | passes => rfl
    | _ => cases hpass

/-- After any other answer the search goes on, unless the filter has failed. -/
theorem Way.searched_of_answer (ho : y.open skip h = true) (hf : h.filter.isAbsent = false)
    (hpass : (F.answer h y.err y.st).1.isPass = false) (hk : y.failed k = false) :
    y.searched F skip (h :: hs) = (y.after k (F.answer h y.err y.st)).searched F (some k) hs := by
  obtain ⟨hfailed, haccepts⟩ : skip.any y.failed = false ∧ y.err.typeOf.assignableTo h.test = true := by
    simpa [Way.open] using ho
  unfold Way.searched
  rw [hfailed, Filters.searchHandlers, haccepts, hf]
  cases hanswer : F.answer h y.err y.st with
  | mk verdict st =>
    rw [hanswer] at hpass
    cases verdict with
    | passes => cases hpass
    | rejects => simp [Way.after, hk]
    | fails e => simp [Way.after]

theorem Way.after_err_of_pass {a : Verdict × σ} (h : a.1.isPass = true) : (y.after k a).err = y.err := by
  obtain ⟨verdict, st⟩ := a
  cases verdict with
  | fails e => cases h
  | _ => rfl

theorem Way.after_failed_of_ne {a : Verdict × σ} {v : Var} (h : v ≠ k) : (y.after k a).failed v = y.failed v := by
  obtain ⟨verdict, st⟩ := a
  cases verdict with
  | fails e => exact Function.update_of_ne h _ _
  | _ => rfl

/-- A test holds, and its action leaves these stores. -/
def Took (A : Arrival σ) (env : Env) (arms : List (Expr × Expr)) (w : World) (st : σ) (xs : List (Var × Value)) :
    Prop :=
  ∃ w', A.Seen st w' ∧ Takes env arms w (w'.storeAll A.env xs)

/-- All tests fail, and the routing has come as far as `y`. -/
def Passed (A : Arrival σ) (env : Env) (vs : List Var) (arms : List (Expr × Expr)) (w : World) (y : Way σ) :
    Prop :=
  ∃ w', Falls env arms w w' ∧ A.At env vs y w'

/-- What the tests of a handler come to, beside what the search says about it. -/
inductive Serves (A : Arrival σ) (env : Env) (vs : List Var) (caught : Var) (arms : List (Expr × Expr)) (w : World)
    (r : Split.Routing) (n : Nat) (skip : Option Var) (hs : List Catch) : Option Catch × Value × σ → Prop
  | took {h : Catch} {e : Value} {st : σ} (ht : A.Took env arms w st (A.handlerStores caught h e)) :
      Serves A env vs caught arms w r n skip hs (some h, e, st)
  | passed (y : Way σ) (hp : A.Passed env vs arms w y) (hf : Fine r n y) :
      Serves A env vs caught arms w r n skip hs (y.searched A.filters skip hs)

/-- A handler that is left out would not have taken the error: the one that covers it would have. -/
theorem Fine.of_covered (hfine : Fine r n y) (hA : A.Sound) (hr : A.Tidy n skip r) (hy : A.types y.err.typeOf)
    (hfiltered : r.filtered = false) {u : Ty} (hu : A.types u) (hcovers : r.seen.contains u = true) :
    y.err.typeOf.assignableTo u = false := by
  obtain ⟨t, ht, hcover⟩ := List.any_eq_true.mp hcovers
  have hnot := hfine.uncovered hfiltered t ht
  rw [TypeSet.covers, Bool.or_eq_true] at hcover
  obtain heq | hle := hcover
  · rwa [← beq_iff_eq.mp heq]
  · cases haccepts : y.err.typeOf.assignableTo u with
    | false => rfl
    | true =>
      rw [hA.trans _ _ _ hy hu (hr.seen t ht) haccepts hle] at hnot
      cases hnot

namespace Added

/-- Adding a handler keeps the tests before it tidy. -/
theorem tidy (ha : A.Added caught h n n' skip r skip' r') (hA : A.Sound) (hh : A.Handler h)
    (hr : A.Tidy n skip r) (hn : n ≤ n') : A.Tidy n' skip' r' := by
  have hr' := hr.mono hn
  have htypes : (∀ t ∈ r'.seen.types, t = h.test ∨ t ∈ r.seen.types) → ∀ t ∈ r'.seen.types, A.types t := by
    intro hseen t ht
    obtain rfl | ht := hseen t ht
    · exact (hA.handler h hh).test
    · exact hr.seen t ht
  cases ha with
  | covered => exact hr'
  | plain _ _ _ _ hskips hfiltered hseen =>
    exact ⟨hr'.named, hskips ▸ hr'.flags, hskips ▸ hr.nodup, hskips ▸ hfiltered ▸ hr.current, htypes hseen⟩
  | @asked _ _ _ k _ _ _ _ hfiltered hseen hflag =>
    obtain ⟨hskip, hskips⟩ | ⟨-, hskips, htype, hnew, hle⟩ := hflag
    · refine ⟨hr'.named, hskips ▸ hr'.flags, hskips ▸ hr.nodup, fun j hj => ?_, htypes hseen⟩
      cases hj
      rw [hskips]
      exact ⟨(hr.current k hskip).1, hfiltered⟩
    · refine ⟨hr'.named, fun j hj => ?_, ?_, fun j hj => ?_, htypes hseen⟩
      · rw [hskips] at hj
        obtain hj | hj := List.mem_append.mp hj
        · exact hr'.flags j hj
        · cases List.mem_singleton.mp hj
          exact ⟨htype, Nat.lt_of_le_of_lt hr.named hnew, hle⟩
      · rw [hskips, List.map_append, List.nodup_append]
        refine ⟨hr.nodup, by simp, fun i hi j hj hij => ?_⟩
        obtain ⟨v, hv, rfl⟩ := List.mem_map.mp hi
        rw [List.map_singleton, List.mem_singleton] at hj
        exact absurd (hr.flags v hv).2.2 (by omega)
      · cases hj
        rw [hskips]
        exact ⟨List.mem_append_right _ (List.mem_singleton_self _), hfiltered⟩

theorem skips_subset (ha : A.Added caught h n n' skip r skip' r') : r.skips ⊆ r'.skips := by
  cases ha with
  | covered => exact List.Subset.refl _
  | plain _ _ _ _ hskips => rw [hskips]; exact List.Subset.refl _
  | asked _ _ _ _ _ _ hflag =>
    obtain ⟨-, hskips⟩ | ⟨-, hskips, -⟩ := hflag
    · rw [hskips]
      exact List.Subset.refl _
    · rw [hskips]
      exact List.subset_append_left _ _

/-- **One handler**: its test, if it has one, comes to what the search says about the handler. -/
theorem serves (ha : A.Added caught h n n' skip r skip' r') (hA : A.Sound) (hh : A.Handler h)
    (hr : A.Tidy n skip r) (hn : n ≤ n') : ∃ arms, r'.arms = r.arms ++ arms ∧ ∀ env vs y w hs,
      A.Stage env vs → r'.skips ⊆ vs → A.At env vs y w → Fine r n y →
        A.Serves env vs caught arms w r' n' skip' hs (y.searched A.filters skip (h :: hs)) := by
  have hcurrent : ∀ k, skip = some k → k ∈ r'.skips := fun k hk => ha.skips_subset (hr.current k hk).1
  cases ha with
  | covered hf hfiltered hcovers =>
    refine ⟨[], (List.append_nil _).symm, fun env vs y w hs _ _ hy hfine => ?_⟩
    -- the error would have been taken by the handler that covers this one
    have hno := hfine.of_covered hA hr hy.typed hfiltered (hA.handler h hh).test hcovers
    have hopen : y.open skip h = false := by simp [Way.open, hno]
    rw [Way.searched_of_not_open hopen]
    exact .passed y ⟨w, .nil w, hy⟩ (hfine.mono hn)
  | @plain test action _ hf htest haction harms hskips hfiltered hseen =>
    refine ⟨_, harms, fun env vs y w hs hstage hsub hy hfine => ?_⟩
    have hends := evalBool_ends (htest env vs y w hstage (fun k hk => hsub (hcurrent k hk)) hy)
    cases hopen : y.open skip h with
    | true =>
      rw [hopen] at hends
      rw [Way.searched_of_plain hopen hf]
      have haccepts : y.err.typeOf.assignableTo h.test = true := by
        simp only [Way.open, Bool.and_eq_true] at hopen
        exact hopen.2
      exact .took ⟨w, hy.seen hstage, .here hends (haction env vs y w hstage hy haccepts)⟩
    | false =>
      rw [hopen] at hends
      rw [Way.searched_of_not_open hopen]
      refine .passed y ⟨w, .cons hends (.nil w), hy⟩ ⟨(hfine.mono hn).unset, fun hr' t ht => ?_⟩
      rw [hfiltered] at hr'
      obtain rfl | ht := hseen t ht
      · cases hskip : skip with
        | none => simpa [Way.open, hskip] using hopen
        | some k =>
          rw [(hr.current k hskip).2] at hr'
          cases hr'
      · exact hfine.uncovered hr' t ht
  | @asked test action _ k hf htest haction harms hfiltered _ hflag =>
    refine ⟨_, harms, fun env vs y w hs hstage hsub hy hfine => ?_⟩
    have hmem : k ∈ r'.skips ∧ k.id ≤ n' := by
      obtain ⟨hskip, -⟩ | ⟨-, hskips, -, -, hle⟩ := hflag
      · exact ⟨hcurrent k hskip, (hr.flags k (hr.current k hskip).1).2.2.trans hn⟩
      · exact ⟨hskips ▸ List.mem_append_right _ (List.mem_singleton_self k), hle⟩
    -- the flag is the region's, or it is new and not set
    have hsame : skip.any y.failed = y.failed k := by
      obtain ⟨hskip, -⟩ | ⟨hskip, -, -, hnew, -⟩ := hflag
      · rw [hskip]
        rfl
      · rw [hskip, hfine.unset k hnew]
        rfl
    obtain ⟨hstop, hgo⟩ := htest env vs y w hstage (fun k hk => hsub (hcurrent k hk)) (hsub hmem.1) hy
    cases hopen : y.open skip h with
    | false =>
      have heq : y.searched A.filters skip hs = y.searched A.filters (some k) hs := by
        unfold Way.searched
        rw [hsame]
        rfl
      rw [Way.searched_of_not_open hopen, heq]
      refine .passed y ⟨w, .cons (hstop hopen) (.nil w), hy⟩ ⟨(hfine.mono hn).unset, fun hr' => ?_⟩
      rw [hfiltered] at hr'
      cases hr'
    | true =>
      obtain ⟨w', hends, hat⟩ := hgo hopen
      obtain ⟨hset, haccepts⟩ : y.failed k = false ∧ y.err.typeOf.assignableTo h.test = true := by
        simpa [Way.open, hsame] using hopen
      cases hpass : (A.filters.answer h y.err y.st).1.isPass with
      | true =>
        rw [hpass] at hends
        rw [Way.searched_of_pass hopen hf hpass k]
        have herr := Way.after_err_of_pass (y := y) (k := k) hpass
        exact .took ⟨w', hat.seen hstage, .here hends (haction env vs _ w' hstage hat (herr.symm ▸ haccepts))⟩
      | false =>
        rw [hpass] at hends
        rw [Way.searched_of_answer hopen hf hpass hset]
        refine .passed _ ⟨w', .cons hends (.nil w'), hat⟩ ⟨fun v hv => ?_, fun hr' => ?_⟩
        · have hne : v ≠ k := by
            rintro rfl
            exact absurd hmem.2 (Nat.not_le_of_lt hv)
          rw [Way.after_failed_of_ne hne]
          exact (hfine.mono hn).unset v hv
        · rw [hfiltered] at hr'
          cases hr'

end Added

/-- One test list after another. -/
theorem Serves.andThen {out : Option Catch × Value × σ} {n₀ : Nat} {r₀ : Split.Routing}
    (h : A.Serves env vs caught arms w r₀ n₀ skip hs out)
    (hmore : ∀ y w', A.At env vs y w' → Fine r₀ n₀ y →
      A.Serves env vs caught more w' r n none [] (y.searched A.filters skip hs)) :
    A.Serves env vs caught (arms ++ more) w r n none [] out := by
  cases h with
  | took ht =>
    obtain ⟨w', hsees, htakes⟩ := ht
    exact .took ⟨w', hsees, htakes.append more⟩
  | passed y hp hf =>
    obtain ⟨w', hfalls, hat⟩ := hp
    have hrest := hmore y w' hat hf
    generalize y.searched A.filters skip hs = out at hrest
    cases hrest with
    | took ht =>
      obtain ⟨w'', hsees, htakes⟩ := ht
      exact .took ⟨w'', hsees, hfalls.takes htakes⟩
    | passed y' hp hf' =>
      obtain ⟨w'', hfalls', hat'⟩ := hp
      exact .passed y' ⟨w'', hfalls.append hfalls', hat'⟩ hf'

end Arrival

namespace Split

variable {σ : Type} {A : Arrival σ} {p : Plan} {s : Splitter} {caught : Var}

/-- **The handlers of a region**: their tests come to what the search among them comes to. -/
theorem routeHandlers_draws (hA : A.Sound) (hcaught : caught.type = .error ∧ A.Slotted caught) {hs : List Catch}
    (hhs : ∀ h ∈ hs, A.Handler h) {skip : Option Var} {r : Routing} (hgraph : s.graph = A.splitter.graph)
    (hr : A.Tidy s.supply.names skip r) :
    Draws A.plan s (routeHandlers caught A.ex hs skip r) fun r' n => A.Tidy n none r' ∧ r.skips ⊆ r'.skips ∧
      ∃ arms, r'.arms = r.arms ++ arms ∧ ∀ env vs y w, A.Stage env vs → r'.skips ⊆ vs → A.At env vs y w →
        Arrival.Fine r s.supply.names y →
          A.Serves env vs caught arms w r' n none [] (y.searched A.filters skip hs) := by
  induction hs generalizing s skip r with
  | nil =>
    refine .pure ⟨⟨hr.named, hr.flags, hr.nodup, fun k hk => (by cases hk), hr.seen⟩, List.Subset.refl _, [],
      (List.append_nil _).symm, fun env vs y w _ _ hy hfine => ?_⟩
    -- at the end of a region its flag no longer matters
    have hnone : y.searched A.filters skip [] = y.searched A.filters none [] := by
      unfold Arrival.Way.searched
      split <;> rfl
    rw [hnone]
    exact .passed y ⟨w, .nil w, hy⟩ hfine
  | cons h hs ih =>
    unfold routeHandlers
    have hh := hhs h List.mem_cons_self
    -- one handler, then the rest from where it left the routing
    refine (routeHandler_draws hA hh hgraph hcaught hr).bind ?_
    rintro ⟨skip', r'⟩ q hq hadded
    have htidy := hadded.tidy hA hh hr hq
    refine Draws.mono (ih (fun h hmem => hhs h (List.mem_cons_of_mem _ hmem)) hgraph htidy) ?_
    rintro r'' n hn ⟨htidy', hsub, more, hmore, hserves⟩
    obtain ⟨arms, harms, hone⟩ := hadded.serves hA hh hr hq
    refine ⟨htidy', List.Subset.trans hadded.skips_subset hsub, arms ++ more, ?_, ?_⟩
    · rw [hmore, harms, List.append_assoc]
    · intro env vs y w hstage hvs hy hfine
      refine (hone env vs y w hs hstage (List.Subset.trans hsub hvs) hy hfine).andThen fun y' w' hy' hfine' => ?_
      exact hserves env vs y' w' hstage hvs hy' hfine'

end Split

end Resumable
