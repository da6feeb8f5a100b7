import Resumable.Proofs.Search
import Resumable.Proofs.Splitter

/-!
# `Proofs.Filtering`: stores, and the test that asks a filter

Routing is made of few forms: stores of the error and of numbers, tests of its type and of flags, and the
protected block that asks a filter. `Forms` says that a construction succeeds and what it makes, handing out
names from some number on; the rules for the forms then say what the trees do. `filterGuard_forms` is the main one: the
block that asks a filter comes to what the filter answers, and after an error of the filter the variable for
the error holds that one and the flag of the region is set.

**Contents**
* `Forms`: what a construction makes, and that names are new.
* `Writes`, `Writes.walk`: stores, and what several of them come to.
* `bindCaught_forms`, `filterGuard_forms`: the store of a handler's variable, and the block around a filter.
-/

namespace Resumable

open Resumable.Expr Run

/-! ### What constructions make -/

/-- Run from a supply that has handed out `n` names, the construction succeeds and makes something with the
property. -/
def Forms (n : Nat) (x : Build α) (P : α → Prop) : Prop :=
  ∀ q : Supply, n ≤ q.names → ∃ a q', x q = .ok a q' ∧ q.names ≤ q'.names ∧ P a

namespace Forms

variable {n : Nat} {x : Build α} {P : α → Prop} {R : β → Prop}

theorem pure {a : α} (h : P a) : Forms n (pure a) P := fun q _ => ⟨a, q, rfl, le_rfl, h⟩

theorem bind {f : α → Build β} (hx : Forms n x P) (hf : ∀ a, P a → Forms n (f a) R) :
    Forms n (x >>= f) R := by
  intro q hn
  obtain ⟨a, q₁, hrun, hle, ha⟩ := hx q hn
  obtain ⟨b, q₂, hrun', hle', hb⟩ := hf a ha q₁ (hn.trans hle)
  refine ⟨b, q₂, ?_, hle.trans hle', hb⟩
  change EStateM.bind x f q = _
  unfold EStateM.bind
  rw [hrun]
  exact hrun'

theorem mono (hx : Forms n x P) {Q : α → Prop} (h : ∀ a, P a → Q a) : Forms n x Q := by
  intro q hn
  obtain ⟨a, q', hrun, hle, ha⟩ := hx q hn
  exact ⟨a, q', hrun, hle, h a ha⟩

theorem newVar (name : String) (t : Ty) : Forms n (Build.newVar name t) fun v => v.type = t ∧ n < v.id :=
  fun _ hn => ⟨_, _, rfl, Nat.le_succ _, rfl, Nat.lt_succ_of_le hn⟩

theorem node (t : Ty) (d : Data Expr) : Forms n (Build.node t d) fun x => ∃ i r, x = .node i r t d :=
  fun _ _ => ⟨_, _, rfl, le_rfl, _, _, rfl⟩

theorem ref (v : Var) : Forms n (Build.ref v) fun x => ∃ i r, x = .node i r v.type (.var v) := node _ _

theorem constBool (b : Bool) :
    Forms n (Build.constBool b) fun x => ∃ i r, x = .node i r .bool (.constant (some (.ofBool b))) := node _ _

theorem constInt (k : Int) :
    Forms n (Build.constInt k) fun x => ∃ i r, x = .node i r .int (.constant (some (.ofInt k))) := node _ _

theorem assign {i r : Nat} {v : Var} {t : Ty} (value : Expr) : Forms n (Build.assign (.node i r t (.var v)) value)
    fun x => ∃ j s, x = .node j s t (.assign .plain (.node i r t (.var v)) value) :=
  fun _ _ => ⟨_, _, rfl, le_rfl, _, _, rfl⟩

theorem andAlso {x : Expr} (hx : x.isAbsent = false) (y : Expr) : Forms n (Build.binary .andAlso x y)
    fun z => ∃ i r, z = .node i r .bool (.binary .andAlso x y none) := by
  cases x with
  | absent => cases hx
  | node => exact fun _ _ => ⟨_, _, rfl, le_rfl, _, _, rfl⟩

theorem catchAll {i r : Nat} {t : Ty} {d : Data Expr} (v : Var) (y : Expr) :
    Forms n (Build.catchAll (.node i r t d) v y) fun x =>
      ∃ j s, x = .node j s t (.protect (.node i r t d) [⟨.error, some v, .absent, y⟩] .absent .absent) :=
  fun _ _ => ⟨_, _, rfl, le_rfl, _, _, rfl⟩

/-- A value is converted when its static type is another. -/
theorem coerce {i r : Nat} {t u : Ty} {d : Data Expr} :
    Forms n (Expr.coerce (.node i r t d) u) fun x => u.isVoid = false →
      (t = u ∧ x = .node i r t d) ∨ (t ≠ u ∧ ∃ j s, x = .node j s u (.unary .convert (.node i r t d) none)) := by
  unfold Expr.coerce
  by_cases hplain : t = u ∨ u.isVoid = true
  · rw [if_pos (by simpa [Expr.isAbsent, Expr.type] using hplain.symm)]
    exact .pure fun hu => Or.inl ⟨hplain.resolve_right (by simp [hu]), rfl⟩
  · rw [if_neg (by simpa [Expr.isAbsent, Expr.type, and_comm] using hplain)]
    exact (node u _).mono fun x hx _ => Or.inr ⟨fun htu => hplain (Or.inl htu), hx⟩

end Forms

/-! ### Stores -/

/-- While `ex` holds the error, the tree stores a value into the slot of a variable and does nothing else. -/
def Writes (ex : Var) (e : Value) (x : Var × Value) (tree : Expr) : Prop :=
  ∀ env a b w, env.find? ex = some a → w.inSlot a = e.asError → env.find? x.1 = some b →
    Ends (fun c => c.eval tree env) w (.ok (some x.2) (w.fill b x.2))

section
variable {n i r j s : Nat} {t : Ty} {ex v : Var} {u : Value}

namespace Forms

/-- Storing a constant. -/
theorem storeConstant (hu : u.typeOf = v.type) (hv : v.type.isVoid = false) :
    Forms n (Build.assign (.node i r v.type (.var v)) (.node j s u.typeOf (.constant (some u))))
      fun x => ∀ ex e, Writes ex e (v, u) x := by
  refine (Forms.assign _).mono ?_
  rintro _ ⟨k, l, rfl⟩ ex e env _ b w _ _ hb
  exact store_ends hb (evalAs_ends (const_ends rfl) (convertTo_typeOf hu hv w))

/-- Storing the error itself. -/
theorem storeError (hv : v.type = .error) :
    Forms n (Build.assign (.node i r v.type (.var v)) (.node j s ex.type (.var ex)))
      fun x => ∀ e, Writes ex e (v, e.asError) x := by
  refine (Forms.assign _).mono ?_
  rintro _ ⟨k, l, rfl⟩ e env a b w ha he hb
  refine store_ends hb (evalAs_ends (ref_ends ha) ?_)
  rw [he, hv]
  exact convertTo_typeOf rfl rfl w

/-- Storing the error as a value of the type of the variable. -/
theorem storeGiven {value : Expr} (hvalue : v.type.isVoid = false → (ex.type = v.type ∧
      value = .node j s ex.type (.var ex)) ∨ (ex.type ≠ v.type ∧
        ∃ k l, value = .node k l v.type (.unary .convert (.node j s ex.type (.var ex)) none))) :
    Forms n (Build.assign (.node i r v.type (.var v)) value) fun x => ∀ e : Value, e.Raisable →
      e.typeOf.assignableTo v.type = true → Writes ex e (v, e.given v.type) x := by
  refine (Forms.assign _).mono ?_
  rintro _ ⟨k, l, rfl⟩ e he hv env a b w ha hslot hb
  refine store_ends hb ?_
  have href : Ends (fun c => c.eval (.node j s ex.type (.var ex)) env) w (.ok (some e.asError) w) :=
    hslot ▸ ref_ends ha
  obtain ⟨-, rfl⟩ | ⟨-, k', l', rfl⟩ := hvalue (he.notVoid hv)
  · exact evalAs_ends href (he.convertTo_asError hv w)
  · refine evalAs_ends (convert_ends href (he.convertTo_asError hv w)) ?_
    exact convertTo_typeOf (he.typeOf_given _) (he.notVoid hv) w

end Forms

end

/-- Several stores, none of which is into the slot of the error. -/
theorem Writes.walk {ex : Var} {e : Value} {env : Env} {w : World} {a : Nat} {xs : List (Var × Value)}
    {trees : List Expr} (h : List.Forall₂ (Writes ex e) xs trees)
    (ha : env.find? ex = some a) (hslots : ∀ x ∈ xs, ∃ b, env.find? x.1 = some b ∧ b ≠ a)
    (hw : w.inSlot a = e.asError) (o : Option Value) :
    ∃ o', Walked env trees o w o' (w.storeAll env xs) := by
  induction h generalizing w o with
  | nil => exact ⟨o, .nil o w⟩
  | @cons x tree xs trees hx _ ih =>
    obtain ⟨b, hb, hne⟩ := hslots x List.mem_cons_self
    have hw' : (w.fill b x.2).inSlot a = e.asError := (World.inSlot_fill_ne hne).trans hw
    obtain ⟨o', hwalk⟩ := ih (fun x hmem => hslots x (List.mem_cons_of_mem _ hmem)) hw' (some x.2)
    refine ⟨o', .cons (hx env a b w ha hw hb) ?_⟩
    rw [World.storeAll, List.foldl_cons, hb]
    exact hwalk

namespace Split

variable {n : Nat} {h : Catch} {ex : Var}

/-- The variable of a handler, if it has one, takes the error. -/
theorem bindCaught_forms (n : Nat) (h : Catch) (ex : Var) :
    Forms n (bindCaught h ex) fun trees => ∀ e : Value, e.Raisable →
      (∀ v, h.var = some v → e.typeOf.assignableTo v.type = true) →
      List.Forall₂ (Writes ex e) (h.binding e) trees := by
  unfold bindCaught
  unfold Catch.binding
  cases hvar : h.var with
  | none => exact .pure fun e _ _ => .nil
  | some v =>
    refine (Forms.ref v).bind ?_
    rintro _ ⟨i, r, rfl⟩
    refine (Forms.ref ex).bind ?_
    rintro _ ⟨k, l, rfl⟩
    refine Forms.coerce.bind fun value hvalue => (Forms.storeGiven hvalue).bind fun tree htree => ?_
    exact .pure fun e he hle => .cons (htree e he (hle v rfl)) .nil

end Split

/-! ### Asking a filter -/

/-- Whether a verdict is that the handler is the one. -/
def Verdict.isPass : Verdict → Bool
  | .passes => true
  | _ => false

namespace Arrival

variable {σ : Type} {A : Arrival σ} {env : Env} {vs : List Var} {y : Way σ} {w w' : World} {h : Catch}
  {bind : List Expr} {n i r : Nat} {e : Value} {skip raised : Var}

/-- How far the routing has come when a filter has answered. -/
def Way.after (y : Way σ) (skip : Var) : Verdict × σ → Way σ
  | (.fails e, st) => ⟨e, st, Function.update y.failed skip true⟩
  | (_, st) => { y with st := st }

/-- The tree comes to what the filter of the handler answers. An error of the filter takes the place of the
error, and the flag is set. -/
def Asks (A : Arrival σ) (h : Catch) (skip : Var) (x : Expr) : Prop :=
  ∀ env vs y w, A.Stage env vs → skip ∈ vs → A.At env vs y w → y.err.typeOf.assignableTo h.test = true →
    ∃ w', Ends (fun c => c.eval x env) w (.ok (some (.ofBool (A.filters.answer h y.err y.st).1.isPass)) w') ∧
      A.At env vs (y.after skip (A.filters.answer h y.err y.st)) w'

/-- The variable of a handler takes every error that the handler accepts. -/
theorem Sound.binds (hA : A.Sound) (hh : A.Handler h) (ht : A.types e.typeOf)
    (haccepts : e.typeOf.assignableTo h.test = true) (v : Var) (hv : h.var = some v) :
    e.typeOf.assignableTo v.type = true :=
  hA.trans _ _ _ ht (hA.handler h hh).test ((hA.handler h hh).type v hv) haccepts
    ((hA.handler h hh).accepts v hv)

namespace At

/-- The variable of a handler holds the error after the store. -/
theorem binding (hy : A.At env vs y w) (hA : A.Sound) (hs : A.Stage env vs) (hh : A.Handler h) :
    A.At env vs y (w.storeAll env (h.binding y.err)) ∧
      ∀ v a, h.var = some v → A.env.find? v = some a →
        (w.storeAll env (h.binding y.err)).inSlot a = y.err.given v.type := by
  unfold Catch.binding
  cases hvar : h.var with
  | none => exact ⟨hy, fun v a hv => by cases hv⟩
  | some v =>
    obtain ⟨b, hb, hfind⟩ := hs.find?_slotted ((hA.handler h hh).slotted v hvar)
    have hstore : w.storeAll env [(v, y.err.given v.type)] = w.fill b (y.err.given v.type) := by
      rw [World.storeAll, List.foldl_cons, hfind]
      rfl
    show A.At env vs y (w.storeAll env [(v, y.err.given v.type)]) ∧ _
    rw [hstore]
    refine ⟨hy.bind hA hs hh hvar hb _, fun u a hu ha => ?_⟩
    cases hu
    rw [hb] at ha
    cases ha
    show (w.storeAll env [(v, y.err.given v.type)]).inSlot b = _
    rw [hstore]
    obtain ⟨c, hc, hle⟩ := hs.exSlot
    refine World.inSlot_fill_same ?_
    exact ((hA.scope v b hb).trans_le hle).trans (hy.hides _ List.mem_cons_self c hc).bounded

/-- Binding the error and evaluating the filter comes to its answer. -/
theorem guarded (hy : A.At env vs y w) (hA : A.Sound) (hs : A.Stage env vs) (hh : A.Handler h)
    (hf : h.filter.isAbsent = false) (haccepts : y.err.typeOf.assignableTo h.test = true)
    (hbind : List.Forall₂ (Writes A.ex y.err) (h.binding y.err) bind) :
    ∃ w', Ends (fun c => c.eval (.node i r .bool (.block [] (bind ++ [h.filter]))) env) w
        ((A.filters.answer h y.err y.st).1.result w') ∧
      A.At env vs { y with st := (A.filters.answer h y.err y.st).2 } w' := by
  obtain ⟨a, ha, -⟩ := hs.exSlot
  have hslots : ∀ x ∈ h.binding y.err, ∃ b, env.find? x.1 = some b ∧ b ≠ a := by
    intro x hx
    simp only [Catch.binding, Option.mem_toList, Option.map_eq_some_iff] at hx
    obtain ⟨v, hv, rfl⟩ := hx
    obtain ⟨b, hb, hfind⟩ := hs.find?_slotted ((hA.handler h hh).slotted v hv)
    exact ⟨b, hfind, hs.ne_of_known hA hb List.mem_cons_self ha⟩
  obtain ⟨o, hwalk⟩ := Writes.walk hbind ha hslots (hy.err a ha) none
  obtain ⟨hy', hbound⟩ := hy.binding hA hs hh
  obtain ⟨w', hends, hat⟩ := hy'.answer hA hs hh hf haccepts hbound
  refine ⟨w', boolBlock_ends hwalk hends fun l v w'' heq => ?_, hat⟩
  cases hverdict : (A.filters.answer h y.err y.st).1 <;> rw [hverdict] at heq <;> cases heq

/-- What is done about an error of a filter: it takes the place of the error, and the flag is set. -/
theorem excused (hy : A.At env vs y w) (hA : A.Sound) (hs : A.Stage env vs) (hv : skip ∈ vs)
    (hname : raised.id ≠ A.ex.id) (hname' : raised.id ≠ skip.id) (he : e.Raisable) (ht : A.types e.typeOf)
    {trees : List Expr} (htrees : List.Forall₂ (Writes raised e) [(A.ex, e.asError), (skip, .ofBool true)] trees)
    (i r j s : Nat) :
    ∃ w', Ends (fun c => c.eval (.node i r .bool (.block []
          (trees ++ [.node j s .bool (.constant (some (.ofBool false)))]))) (env.handling raised e w))
        (w.push raised e.asError) (.ok (some (.ofBool false)) w') ∧
      A.At env vs ⟨e, y.st, Function.update y.failed skip true⟩ w' := by
  obtain ⟨a, ha, -⟩ := hs.exSlot
  obtain ⟨b, hb, -⟩ := hs.own skip (List.mem_cons_of_mem _ hv)
  -- the scope of the handler hides neither the kept error nor the flag
  have hscope : ∀ v, raised.id ≠ v.id → (env.handling raised e w).find? v = env.find? v := fun v hne =>
    Env.find?_bind_of_ne _ _ hne
  have ha' := (hscope A.ex hname).trans ha
  have hb' := (hscope skip hname').trans hb
  have hnew : (env.handling raised e w).find? raised = some w.slots.size := Env.find?_bind_self _ _ _
  have hslot : (w.push raised e.asError).inSlot w.slots.size = e.asError := by
    simp [World.inSlot, World.push]
  -- the raised error has a slot of its own, behind all of the machine's
  have hbounded : ∀ v ∈ A.ex :: vs, ∀ c, env.find? v = some c → c ≠ w.slots.size := fun v hv c hc =>
    Nat.ne_of_lt (hy.hides v hv c hc).bounded
  have hslots : ∀ x ∈ [(A.ex, e.asError), (skip, Value.ofBool true)],
      ∃ c, (env.handling raised e w).find? x.1 = some c ∧ c ≠ w.slots.size := by
    intro x hx
    obtain rfl | hx := List.mem_cons.mp hx
    · exact ⟨a, ha', hbounded _ List.mem_cons_self a ha⟩
    · cases List.mem_singleton.mp hx
      exact ⟨b, hb', hbounded _ (List.mem_cons_of_mem _ hv) b hb⟩
  obtain ⟨o, hwalk⟩ := Writes.walk htrees hnew hslots hslot none
  have hfalse : Ends (fun c => evalAs c (.node j s .bool (.constant (some (.ofBool false)))) .bool
      (env.handling raised e w)) ((w.push raised e.asError).storeAll (env.handling raised e w)
        [(A.ex, e.asError), (skip, .ofBool true)]) (.ok (some (.ofBool false)) _) :=
    evalAs_ends (const_ends rfl) (convertTo_typeOf rfl rfl _)
  refine ⟨_, ⟨boolBlock_ends hwalk hfalse fun l v w'' heq => ?_, ?_⟩⟩
  · cases heq
  have hstore : (w.push raised e.asError).storeAll (env.handling raised e w)
      [(A.ex, e.asError), (skip, .ofBool true)] =
        ((w.push raised e.asError).fill a e.asError).fill b (.ofBool true) := by
    simp only [World.storeAll, List.foldl_cons, List.foldl_nil, ha', hb', Option.elim_some]
  rw [hstore]
  exact ((hy.push hA raised e.asError).replace hA hs ha he ht).skip hA hs hv hb

end At

end Arrival

namespace Split

variable {σ : Type} {A : Arrival σ} {n : Nat} {h : Catch} {skip : Var}

/-- **Asking a filter** comes to its answer. -/
theorem filterGuard_forms (hA : A.Sound) (hh : A.Handler h) (hf : h.filter.isAbsent = false)
    (hskip : skip.type = .bool) (hn : A.ex.id ≤ n) (hn' : skip.id ≤ n) :
    Forms n (filterGuard h A.ex skip) (A.Asks h skip) := by
  unfold filterGuard
  refine (bindCaught_forms n h A.ex).bind fun bind hbind => ?_
  refine (Forms.newVar "filterErr" .error).bind fun raised hraised => ?_
  refine (Forms.node .bool _).bind ?_
  rintro _ ⟨i, r, rfl⟩
  refine (Forms.ref A.ex).bind ?_
  rintro _ ⟨i₁, r₁, rfl⟩
  refine (Forms.ref raised).bind ?_
  rintro _ ⟨i₂, r₂, rfl⟩
  refine (Forms.storeError hA.ex).bind fun replace hreplace => ?_
  refine (Forms.ref skip).bind ?_
  rintro _ ⟨i₄, r₄, rfl⟩
  refine (Forms.constBool true).bind ?_
  rintro _ ⟨i₅, r₅, rfl⟩
  have hbool : (Value.ofBool true).typeOf = skip.type := hskip.symm
  refine (Forms.storeConstant hbool (by rw [hskip]; rfl)).bind fun set hset => ?_
  refine (Forms.constBool false).bind ?_
  rintro _ ⟨i₇, r₇, rfl⟩
  refine (Forms.node .bool _).bind ?_
  rintro _ ⟨i₈, r₈, rfl⟩
  refine (Forms.catchAll raised _).mono ?_
  rintro _ ⟨i₉, r₉, rfl⟩
  intro env vs y w hs hv hy haccepts
  have hbind := hbind y.err hy.raisable (hA.binds hh hy.typed haccepts)
  obtain ⟨w', hbody, hy'⟩ := hy.guarded (i := i) (r := r) hA hs hh hf haccepts hbind
  -- with a verdict nothing more is done, and an error of the filter is made the error that is looked after
  cases hanswer : A.filters.answer h y.err y.st with
  | mk verdict st =>
    rw [hanswer] at hbody hy'
    dsimp only at hbody hy'
    cases verdict with
    | passes => exact ⟨w', .eval (protect_ends hbody fun c => leave_bool c env true w'), hy'⟩
    | rejects => exact ⟨w', .eval (protect_ends hbody fun c => leave_bool c env false w'), hy'⟩
    | fails e =>
      obtain ⟨he, ht⟩ := hA.filters.fails h y.err y.st e (by rw [hanswer])
      have htrees : List.Forall₂ (Writes raised e) [(A.ex, e.asError), (skip, .ofBool true)] [replace, set] :=
        .cons (hreplace e) (.cons (hset raised e) .nil)
      obtain ⟨w'', hblock, hat⟩ := hy'.excused hA hs hv (Nat.ne_of_gt (Nat.lt_of_le_of_lt hn hraised.2))
        (Nat.ne_of_gt (Nat.lt_of_le_of_lt hn' hraised.2)) he ht htrees i₈ r₈ i₇ r₇
      exact ⟨w'', .eval (protect_handles he hraised.1 hbody hblock fun c => leave_bool c env false w''), hat⟩

end Split

end Resumable
