import Resumable.Proofs.Tree
import Resumable.Proofs.Walks

/-!
# `Proofs.Evaluating`: what a node does, given what its operands do

Some relations between the worlds before and after a computation are only known when something holds of the
world before: when what is in scope leads to the slots of its variables, say. Code of a kind keeps to such a
relation when all it declares, stores into and leaves footprints of keeps to it. Then a node of that kind
does so when its operands do, and a call of a lambda when its body does.

**Contents**
* `Persists`, `Lasts`: what outlasts a computation.
* `Conditional`, `Runs.bind_to`: relations with a precondition.
* `Terrain`: what code of a kind may declare, store into and note.
* `Treads`, `evalNode_treads`, `enter_treads`: nodes and lambdas.
* `callClosure_of`, `callFunc_of`: calls of closures.
-/

namespace Resumable

open Resumable.Expr

/-! ### What a computation returns -/

/-- Every value that the computation returns has the property. -/
def Run.Yields (x : Run α) (P : α → Prop) : Prop := ∀ w a w', x w = .ok a w' → P a

namespace Run.Yields

variable {x : Run α} {P Q : α → Prop}

theorem any (x : Run α) : Yields x fun _ => True := fun _ _ _ _ => trivial

theorem pure {a : α} (h : P a) : Yields (pure a) P := by
  intro w b w' hrun
  cases hrun
  exact h

theorem raise (e : Value) : Yields (Run.raise e : Run α) P := by
  intro w b w' hrun
  cases hrun

theorem bind {f : α → Run β} {P : β → Prop} (hx : Yields x Q) (hf : ∀ a, Q a → Yields (f a) P) :
    Yields (x >>= f) P := by
  intro w b w'' hrun
  change EStateM.bind x f w = _ at hrun
  unfold EStateM.bind at hrun
  split at hrun
  · rename_i a w' h
    exact hf a (hx w a w' h) w' b w'' hrun
  · cases hrun

end Run.Yields

/-! ### Preconditions -/

/-- The slot holds an integer with a property. -/
def World.Holds (w : World) (a : Nat) (P : Int → Prop) : Prop :=
  ∃ s n, w.slots[a]? = some s ∧ s.value = .int .int n ∧ P n

/-- The slot of the variable with a number. -/
def Env.slot? (env : Env) (x : Nat) : Option Nat := env.slots.lookup x

/-- A scope whose entries lead to the slots of their variables. -/
def Env.Leads (env : Env) (w : World) : Prop :=
  ∀ x a, env.slot? x = some a → ∃ s, w.slots[a]? = some s ∧ s.var = x

theorem Env.slot?_bind (env : Env) (v : Var) (a x : Nat) :
    (env.bind v a).slot? x = if x = v.id then some a else env.slot? x := by
  unfold Env.slot? Env.bind
  rw [List.lookup_cons]
  by_cases h : x = v.id
  · simp [h]
  · rw [if_neg h, beq_eq_false_iff_ne.mpr h]

theorem Env.Leads.bind {env : Env} {w : World} {v : Var} {a : Nat} {s : Slot} (h : env.Leads w)
    (ha : w.slots[a]? = some s) (hs : s.var = v.id) : (env.bind v a).Leads w := by
  intro x b hx
  rw [Env.slot?_bind] at hx
  split at hx
  · rename_i hxv
    cases hx
    exact ⟨s, ha, hs.trans hxv.symm⟩
  · exact h x b hx

/-- Every slot stays, and stays that of its variable. -/
def Persists (w w' : World) : Prop := ∀ (a : Nat) s, w.slots[a]? = some s → ∃ s', w'.slots[a]? = some s' ∧ s'.var = s.var

theorem Persists.of_slots {w w' : World} (h : w'.slots = w.slots) : Persists w w' := fun _ s ha => ⟨s, h ▸ ha, rfl⟩

theorem Persists.refl (w : World) : Persists w w := .of_slots rfl

theorem Persists.trans {w w' w'' : World} (h : Persists w w') (h' : Persists w' w'') : Persists w w'' := by
  intro a s ha
  obtain ⟨s', ha', hs'⟩ := h a s ha
  obtain ⟨s'', ha'', hs''⟩ := h' a s' ha'
  exact ⟨s'', ha'', hs''.trans hs'⟩

theorem Env.Leads.persists {env : Env} {w w' : World} (h : env.Leads w) (hw : Persists w w') : env.Leads w' := by
  intro x a hx
  obtain ⟨s, hs, hv⟩ := h x a hx
  obtain ⟨s', hs', hv'⟩ := hw a s hs
  exact ⟨s', hs', hv'.trans hv⟩

/-- A property of worlds that holds as long as the slots stay. -/
class Lasts (E : World → Prop) : Prop where
  persists : ∀ {w w'}, Persists w w' → E w → E w'

instance : Lasts fun _ => True := ⟨fun _ _ => trivial⟩

instance (env : Env) : Lasts env.Leads := ⟨fun hw h => h.persists hw⟩

instance {E F : World → Prop} [he : Lasts E] [hf : Lasts F] : Lasts fun w => E w ∧ F w :=
  ⟨fun hs h => ⟨he.persists hs h.1, hf.persists hs h.2⟩⟩

/-- A relation between worlds that is known when a property holds of the first one, and an invariant does that it
carries on. -/
class Conditional (K : (World → Prop) → World → World → Prop) where
  sound : World → Prop
  walk : ∀ (E : World → Prop) [Lasts E], Walk (K E)
  mono : ∀ {E F : World → Prop} {w w'}, (∀ w, F w → E w) → K E w w' → K F w w'
  trans_to : ∀ {E F : World → Prop} [Lasts E] {w w' w''}, K E w w' →
    (sound w → E w → sound w' → E w' → F w') → K F w' w'' → K E w w''
  vacuous : ∀ {E : World → Prop} {w w'}, Later w w' → ¬ E w → K E w w'

section
variable {K : (World → Prop) → World → World → Prop} [hK : Conditional K] {E F : World → Prop} {x : Run α}

theorem Runs.weaken (h : Runs (K E) x) (hE : ∀ w, F w → E w) : Runs (K F) x := h.mono fun _ _ => hK.mono hE

variable [Lasts E]

/-- One computation after the other, where the second relies on what the first returns. -/
theorem Runs.bind_to {f : α → Run β} {G : α → World → Prop} (hx : Runs (K E) x) [l : ∀ a, Runs Later (f a)]
    (hG : ∀ w a w', x w = .ok a w' → hK.sound w → E w → hK.sound w' → E w' → G a w')
    (hf : ∀ a, (∃ w, G a w) → Runs (K (G a)) (f a)) :
    Runs (K E) (x >>= f) where
  left w := by
    have hk := hx.left w
    rw [Run.left_bind]
    split
    · rename_i a w' h
      rw [Run.left_ok h] at hk
      refine hK.trans_to hk (hG w a w' h) ?_
      by_cases hw' : G a w'
      · exact (hf a ⟨w', hw'⟩).left w'
      · exact hK.vacuous ((l a).left w') hw'
    · rename_i s w' h
      rwa [Run.left_error h] at hk

/-- One computation after the other, where the second relies on a property of what the first returns. -/
theorem Runs.bind_of {f : α → Run β} {P : α → Prop} (hx : Runs (K E) x)
    (hP : ∀ w a w', x w = .ok a w' → hK.sound w → E w → P a) [l : ∀ a, Runs Later (f a)]
    (hf : ∀ a, P a → Runs (K E) (f a)) : Runs (K E) (x >>= f) := by
  refine hx.bind_to (G := fun a w => P a ∧ E w) (fun w a w' hrun hI hE _ h => ⟨hP w a w' hrun hI hE, h⟩) ?_
  rintro a ⟨-, ha, -⟩
  exact (hf a ha).weaken fun _ h => h.2

theorem Runs.bind_yields {f : α → Run β} {P : α → Prop} (hx : Runs (K E) x) (hP : x.Yields P)
    [l : ∀ a, Runs Later (f a)] (hf : ∀ a, P a → Runs (K E) (f a)) : Runs (K E) (x >>= f) :=
  hx.bind_of (fun w a w' hrun _ _ => hP w a w' hrun) hf

/-- Turns that keep a property of what they go on with. -/
theorem Runs.iterate_of {step : σ → Run (σ ⊕ α)} [∀ s, Runs Later (step s)] {J : σ → Prop}
    (hstep : ∀ s, J s → Runs (K E) (step s))
    (hJ : ∀ s, J s → (step s).Yields fun r => ∀ s', r = .inl s' → J s') (n : Nat) {s : σ} (hs : J s) :
    Runs (K E) (Run.iterate step n s) := by
  have := hK.walk E
  induction n generalizing s with
  | zero => exact Runs.giveUp
  | succ n ih =>
    rw [Run.iterate_succ]
    refine (hstep s hs).bind_yields (hJ s hs) fun r hr => ?_
    cases r with
    | inl s' => exact ih (hr s' rfl)
    | inr a => exact Runs.pure a

end

section
variable {R : World → World → Prop} [Walk R]

theorem Runs.mapM_of {f : γ → Run α} {xs : List γ} (hf : ∀ c ∈ xs, Runs R (f c)) : Runs R (xs.mapM f) := by
  induction xs with
  | nil =>
    rw [List.mapM_nil]
    infer_instance
  | cons x xs ih =>
    rw [List.mapM_cons]
    have := hf x List.mem_cons_self
    have := ih fun c hc => hf c (List.mem_cons_of_mem _ hc)
    infer_instance

theorem Runs.anyM_of {f : γ → Run Bool} {xs : List γ} (hf : ∀ c ∈ xs, Runs R (f c)) : Runs R (xs.anyM f) := by
  induction xs with
  | nil => exact Runs.pure _
  | cons x xs ih =>
    have := hf x List.mem_cons_self
    have := ih fun c hc => hf c (List.mem_cons_of_mem _ hc)
    unfold List.anyM
    refine @Runs.bind _ _ _ _ _ _ inferInstance fun b => ?_
    cases b <;> infer_instance

end

/-! ### Code of a kind -/

/-- What tells one kind of code from another. -/
structure Rights where
  /-- The scopes in which it may run. -/
  scope : Env → World → Prop
  /-- The trees of the kind. -/
  tree : Expr → Prop
  /-- The variables that a block may declare. -/
  declares : Var → Prop
  /-- The variables that a handler and a lambda may bind. -/
  binds : Var → Prop
  /-- The variables that may be stored into, by number. -/
  stores : Nat → Prop
  /-- The variables that may be turned on while they hold a value. -/
  turns : Nat → Option Value → Prop

/-- Code with these rights keeps to the relation whatever it declares, stores and notes. -/
structure Terrain (K : (World → Prop) → World → World → Prop) [hK : Conditional K] (T : Rights) : Prop where
  declares : ∀ {v : Var} {E : World → Prop}, T.declares v → Runs (K E) (Run.makeSlot v v.type.zero)
  binds : ∀ {v : Var} {x : Value} {E : World → Prop}, T.binds v → Runs (K E) (Run.makeSlot v x)
  enters : ∀ {v : Var} {x : Value} {w w' : World} {a : Nat} {env : Env}, T.declares v ∨ T.binds v →
    Run.makeSlot v x w = .ok a w' → hK.sound w → T.scope env w → T.scope env w' → T.scope (env.bind v a) w'
  /-- The error of a handler is no part of what a scope leads to. -/
  caught : ∀ {env : Env} {err : Value} {w : World}, T.scope { env with caught := some err } w ↔ T.scope env w
  fills : ∀ {y a : Nat} {x : Value} {env : Env}, T.stores y → env.slot? y = some a →
    Runs (K (T.scope env)) (Run.fillSlot a x)
  turns : ∀ {y a : Nat} {x : Option Value} {env : Env}, T.turns y x → env.slot? y = some a →
    Runs (K (T.scope env)) (Run.record (.switched y a x)) ∧ Runs (K (T.scope env)) (Run.record (.missed y a))
  hands : ∀ {e : Expr} (env : Env), T.tree e →
    Runs (K (T.scope env)) (Run.recordOn e env .handed) ∧ Runs (K (T.scope env)) (Run.recordOn e env .rejected)
  /-- What a field is read from. -/
  field : ∀ {i r : Nat} {t : Ty} {o : Expr} {name : String}, T.tree (.node i r t (.field o name)) → T.tree o
  /-- Fields are stored into in variables that may be stored into, or that have no fields. -/
  fielded : ∀ {o : Expr} {v : Var}, T.tree o → o.asVar? = some v → T.stores v.id ∨
    v.type = .int ∧ ∀ {env : Env} {w : World} {a : Nat}, hK.sound w → T.scope env w → env.slot? v.id = some a →
      w.Holds a fun _ => True

/-- Evaluating code with these rights, calls and callbacks keep to the relation. -/
class Treads (K : (World → Prop) → World → World → Prop) [hK : Conditional K] (T : Rights) (c : Calls) : Prop where
  later : CallsRoam Later c
  calls : ∀ (E : World → Prop) [Lasts E], CallsRun (K E) c
  eval : ∀ {e : Expr}, T.tree e → ∀ env, Runs (K (T.scope env)) (c.eval e env)
  reads : ∀ {e : Expr} {v : Var} {env : Env} {w w' : World} {x : Option Value}, T.tree e → e.asVar? = some v →
    c.eval e env w = .ok x w' → hK.sound w → T.scope env w → T.turns v.id x

/-- What a node declares, binds and stores into. -/
def Rights.Fits (T : Rights) : Data Expr → Prop
  | .block vs _ => ∀ v ∈ vs, T.declares v
  | .assign _ t _ => ∀ v, t.asVar? = some v → T.stores v.id
  | .protect _ hs _ _ => ∀ h ∈ hs, ∀ v, h.var = some v → T.binds v
  | _ => True

namespace Run

variable {K : (World → Prop) → World → World → Prop} {T : Rights} {c : Calls} {e : Expr} {env : Env}

/-! ### Scopes -/

section
variable [hK : Conditional K] [∀ env, Lasts (T.scope env)] (ht : Terrain K T)
include ht

attribute [local instance] Conditional.walk

/-- Code runs in the scope that a declaration leaves. -/
theorem declare_bind_treads {v : Var} (hv : T.declares v) {f : Env → Run β} [∀ env, Runs Later (f env)]
    (hf : ∀ env, Runs (K (T.scope env)) (f env)) : Runs (K (T.scope env)) (declare env v >>= f) := by
  unfold declare
  rw [bind_assoc]
  refine (ht.declares hv).bind_to (G := fun a => T.scope (env.bind v a))
    (fun w a w' hrun hw h _ h' => ht.enters (.inl hv) hrun hw h h') ?_
  intro a _
  rw [pure_bind]
  exact hf _

theorem declareAll_bind_treads {vars : List Var} (hv : ∀ v ∈ vars, T.declares v) {f : Env → Run β}
    [∀ env, Runs Later (f env)] (hf : ∀ env, Runs (K (T.scope env)) (f env)) :
    Runs (K (T.scope env)) (vars.foldlM declare env >>= f) := by
  induction vars generalizing env with
  | nil => exact hf env
  | cons v vars ih =>
    rw [List.foldlM_cons, bind_assoc]
    exact declare_bind_treads ht (hv v List.mem_cons_self) fun env' =>
      ih fun u hu => hv u (List.mem_cons_of_mem _ hu)

/-- A variable is declared for what comes next. -/
theorem declareAs_bind_treads {v : Var} (hv : T.binds v) {x : Option Value} {f : Env → Run β}
    [∀ env, Runs Later (f env)] (hf : ∀ scope, Runs (K fun w => T.scope scope w ∧ T.scope env w) (f scope)) :
    Runs (K (T.scope env)) (declareAs env v x >>= f) := by
  unfold declareAs
  split
  · rw [bind_assoc]
    refine (ht.binds hv).bind_to (G := fun a w => T.scope (env.bind v a) w ∧ T.scope env w)
      (fun w a w' hrun hw h _ h' => ⟨ht.enters (.inr hv) hrun hw h h', h'⟩) ?_
    intro a _
    rw [pure_bind]
    exact hf _
  · have hstop : Runs (K (T.scope env)) (panicError "reflect: call of reflect.Value.Set on zero Value" : Run Env) :=
      inferInstance
    exact hstop.bind_to (G := fun scope w => T.scope scope w ∧ T.scope env w) (fun w a w' hrun => by cases hrun)
      fun scope _ => hf scope

/-- Code runs in the scope of a handler. -/
theorem handlerScope_bind_treads {v : Option Var} (hv : ∀ u, v = some u → T.binds u) {err : Value}
    {f : Env → Run β} [l : ∀ env, Runs Later (f env)]
    (hf : ∀ scope, Runs (K fun w => T.scope scope w ∧ T.scope env w) (f scope)) :
    Runs (K (T.scope env)) (handlerScope v err env >>= f) := by
  unfold handlerScope
  cases v with
  | none =>
    dsimp only
    rw [pure_bind]
    exact (hf _).weaken fun w h => ⟨ht.caught.mpr h, h⟩
  | some v =>
    dsimp only
    rw [bind_assoc]
    refine @Runs.bind _ _ _ _ _ _ inferInstance fun x => ?_
    refine Runs.weaken (E := T.scope { env with caught := some err })
      (declareAs_bind_treads ht (hv v rfl) fun scope => ?_) fun w h => ht.caught.mpr h
    exact (hf scope).weaken fun w h => ⟨h.1, ht.caught.mp h.2⟩

/-- What happens to a variable that is turned on is noted. -/
theorem recordOn_treads {x : Option Value} (he : ∀ v, e.asVar? = some v → T.turns v.id x) :
    Runs (K (T.scope env)) (recordOn e env (.switched · · x)) ∧ Runs (K (T.scope env)) (recordOn e env .missed) := by
  unfold recordOn
  split
  · rename_i v hv
    split
    · rename_i a ha
      exact ht.turns (he v hv) ha
    · exact ⟨inferInstance, inferInstance⟩
  · exact ⟨inferInstance, inferInstance⟩

end

/-! ### Places -/

/-- What a tree of the kind may store into. -/
structure Target (T : Rights) (e : Expr) : Prop where
  var : ∀ v, e.asVar? = some v → T.stores v.id
  field : e.hasKind .field = true → T.tree e

/-- A place in a variable is one of a variable that may be stored into. -/
def Anchored (T : Rights) (env : Env) (p : Place) : Prop :=
  ∀ a, p.base = .slot a → ∃ x, T.stores x ∧ env.slot? x = some a

/-- Where the place of a field begins, when the object stands in `base`: where the object does, unless it is
reached through a pointer. -/
def Within (base place : Option Place) : Prop :=
  ∀ p a, place = some p → p.base = .slot a → ∃ q, base = some q ∧ q.base = .slot a

/-- The struct of a field lies within its place. -/
theorem structOf_yields (obj : Option Value) (base : Option Place) :
    Yields (structOf obj base) fun r => Within base r.2 := by
  unfold structOf
  extract_lets inBox
  refine (Yields.any _).bind fun v _ => ?_
  split
  · refine (Yields.any _).bind fun v _ => Yields.pure fun p a hp ha => ?_
    cases hp
    cases ha
  · exact (Yields.any _).bind fun _ _ => Yields.raise _
  · refine Yields.pure fun p a hp ha => ?_
    dsimp only at hp
    split at hp
    · cases hp
    · exact ⟨p, hp, ha⟩

/-- The place of a field stands within the place of its struct. -/
theorem fieldIn_yields (e : Expr) (name : String) (v : Value) (base : Option Place) :
    Yields (fieldIn e name v base) fun r => Within base r.2 := by
  unfold fieldIn
  extract_lets t fields tail
  have htail : Yields (tail ()) fun r => Within base r.2 := by
    unfold tail
    split
    · refine Yields.pure fun p a hp ha => ?_
      obtain ⟨q, hq, rfl⟩ := Option.map_eq_some_iff.mp hp
      exact ⟨q, hq, ha⟩
    · exact Yields.raise _
  split
  · exact (Yields.raise (P := fun _ => False) _).bind fun _ h => h.elim
  · exact htail

/-- The field of an object stands where the object stands, or behind a pointer. -/
theorem fieldOf_yields (e : Expr) (obj : Option Value) (base : Option Place) (name : String) :
    Yields (fieldOf e obj base name) fun r => Within base r.2 := by
  unfold fieldOf
  refine (structOf_yields obj base).bind fun r hr => ?_
  intro w s w' hrun p a hp ha
  obtain ⟨q, hq, hqa⟩ := fieldIn_yields e name r.1 r.2 w s w' hrun p a hp ha
  exact hr q a hq hqa

theorem fieldPlace_yields (e : Expr) (obj : Option Value) {base : Option Place} (name : String)
    (hbase : ∀ p, base = some p → Anchored T env p) :
    Yields (fieldPlace e obj base name) (Anchored T env) := by
  unfold fieldPlace
  refine (fieldOf_yields e obj base name).bind fun r hr => ?_
  split
  · rename_i p hp
    refine Yields.pure fun a ha => ?_
    obtain ⟨q, hq, hqa⟩ := hr p a hp ha
    exact hbase q hq a hqa
  · exact Yields.raise _

/-- A variable that holds an integer has no fields. -/
theorem fieldPlace_int {o : Expr} {v : Var} (hv : o.asVar? = some v) (hint : v.type = .int) {w w₁ w₂ w' : World}
    (hholds : ∀ a, env.slot? v.id = some a → w.Holds a fun _ => True) {p q : Place} {x : Value} {name : String}
    (hp : place c env o w = .ok p w₁) (hx : readPlace p w₁ = .ok x w₂) :
    fieldPlace e (some x) (some p) name w₂ ≠ .ok q w' := by
  unfold asVar? at hv
  split at hv
  · cases hv
    rw [place] at hp
    cases ha : env.find? v with
    | none =>
      simp only [ha] at hp
      cases hp
    | some a =>
      simp only [ha] at hp
      cases hp
      obtain ⟨s, n, hs, hn, -⟩ := hholds a ha
      have hslot : w.slots.getD a ⟨0, .null .any⟩ = s := by
        rw [Array.getD_eq_getD_getElem?, hs]
        rfl
      have hread : readPlace ⟨.slot a, [], v.type⟩ w = .ok ((Value.int .int n).retype v.type) w := by
        rw [← hn, ← hslot]
        rfl
      rw [hread, hint] at hx
      cases hx
      intro h
      cases h
  · cases hv

section
variable [hK : Conditional K] (ht : Terrain K T)
include ht

/-- The object whose field is stored into. -/
theorem Target.object {i r : Nat} {t : Ty} {o : Expr} {name : String}
    (h : Target T (.node i r t (.field o name))) : Target T o ∨ ∃ v, o.asVar? = some v ∧ v.type = .int ∧
      ∀ {env : Env} {w : World} {a : Nat}, hK.sound w → T.scope env w → env.slot? v.id = some a →
        w.Holds a fun _ => True := by
  have ho := ht.field (h.field rfl)
  cases hv : o.asVar? with
  | none => exact .inl ⟨fun v h => (by cases hv.symm.trans h), fun _ => ho⟩
  | some v =>
    refine (ht.fielded ho hv).imp (fun hs => ⟨fun u hu => ?_, fun _ => ho⟩) fun h => ⟨v, rfl, h⟩
    cases hv.symm.trans hu
    exact hs

/-- What is stored into begins in a variable that may be stored into, or in an object. -/
theorem place_anchored (h : Target T e) {w w' : World} {p : Place} (hrun : place c env e w = .ok p w') (hw : hK.sound w)
    (hs : T.scope env w) : Anchored T env p := by
  fun_induction place c env e generalizing p w' with
  | case1 => cases hrun
  | case3 => cases hrun
  | case4 => cases hrun
  | case7 => cases hrun
  | case2 i r t v a ha =>
    cases hrun
    intro b hb
    cases hb
    exact ⟨v.id, h.var v rfl, ha⟩
  | case5 i r t o name habsent hpointer =>
    obtain ⟨x, w₁, -, hrun⟩ := bind_eq_ok.mp hrun
    exact fieldPlace_yields _ _ _ (fun p hp => by cases hp) _ _ _ hrun
  | case6 i r t o name habsent hpointer ih =>
    obtain ⟨q, w₁, hq, hrun⟩ := bind_eq_ok.mp hrun
    obtain ⟨x, w₂, hx, hrun⟩ := bind_eq_ok.mp hrun
    obtain ho | ⟨v, hv, hint, hholds⟩ := h.object ht
    · refine fieldPlace_yields _ _ _ (fun p hp => ?_) _ _ _ hrun
      cases hp
      exact ih ho hq
    · exact absurd hrun (fieldPlace_int hv hint (fun a ha => hholds hw hs ha) hq hx)

/-- A store to an anchored place keeps to the ground. -/
theorem writePlace_treads [∀ env, Lasts (T.scope env)] {p : Place} (hp : Anchored T env p) (x : Value) :
    Runs (K (T.scope env)) (writePlace p x) := by
  have := Conditional.walk (K := K) (T.scope env)
  unfold writePlace
  refine @Runs.bind _ _ _ _ _ _ inferInstance fun v => ?_
  unfold writeBase
  split
  · rename_i a hbase
    obtain ⟨y, hy, ha⟩ := hp a hbase
    exact ht.fills hy ha
  · infer_instance

end

/-! ### Forms of nodes -/

section
variable [hK : Conditional K] [∀ env, Lasts (T.scope env)] [hc : Treads K T c]

attribute [local instance] Conditional.walk Treads.later Treads.calls

theorem evalAs_treads (he : T.tree e) (t : Ty) (env : Env) : Runs (K (T.scope env)) (evalAs c e t env) := by
  have := hc.eval he env
  unfold evalAs
  infer_instance

theorem evalBool_treads (he : T.tree e) (env : Env) : Runs (K (T.scope env)) (evalBool c e env) := by
  have := hc.eval he env
  unfold evalBool
  repeat' first | infer_instance | split | refine @Runs.bind _ _ _ _ _ _ ?_ fun _ => ?_

theorem evalArgs_treads {args : List Expr} (ha : ∀ a ∈ args, T.tree a) (sig : Ty) (env : Env) :
    Runs (K (T.scope env)) (evalArgs c sig env args) := by
  unfold evalArgs
  refine Runs.mapM_of fun ⟨a, k⟩ hak => ?_
  have := fun t => evalAs_treads (K := K) (T := T) (c := c) (ha a (List.fst_mem_of_mem_zipIdx hak)) t env
  dsimp only
  repeat' first | infer_instance | split | refine @Runs.bind _ _ _ _ _ _ ?_ fun _ => ?_

omit hc in
/-- What comes after the place of a label is part of the list. -/
theorem afterLabel_yields (l : Label) (xs : List Expr) :
    Yields (afterLabel l xs) fun r => ∀ rest, r = some rest → ∀ x ∈ rest, x ∈ xs := by
  fun_induction afterLabel l xs with
  | case1 => exact .pure fun rest h => by cases h
  | case2 =>
    intro w r w' hrun
    cases hrun
  | case3 =>
    refine .pure fun rest h x hx => ?_
    cases h
    exact List.mem_cons_of_mem _ hx
  | case4 _ _ _ _ _ _ _ ih =>
    exact fun w r w' hrun rest h x hx => List.mem_cons_of_mem _ (ih w r w' hrun rest h x hx)
  | case5 _ _ _ _ ih =>
    exact fun w r w' hrun rest h x hx => List.mem_cons_of_mem _ (ih w r w' hrun rest h x hx)

theorem stepBlock_treads {body : List Expr} {s : List Expr × Option Value} (hs : ∀ x ∈ s.1, T.tree x) :
    Runs (K (T.scope env)) (stepBlock c body env s) := by
  unfold stepBlock
  split
  · infer_instance
  · rename_i x rest _
    have := hc.eval (hs x List.mem_cons_self) env
    repeat' first | infer_instance | split | refine @Runs.bind _ _ _ _ _ _ ?_ fun _ => ?_

omit hc in
/-- What is left to run of a block is part of it. -/
theorem stepBlock_yields {body : List Expr} {s : List Expr × Option Value} (hs : ∀ x ∈ s.1, x ∈ body) :
    Yields (stepBlock c body env s) fun r => ∀ s', r = .inl s' → ∀ x ∈ s'.1, x ∈ body := by
  unfold stepBlock
  split
  · exact .pure fun s' h => by cases h
  · rename_i x rest _
    refine (Yields.any _).bind fun r _ => ?_
    split
    · refine .pure fun s' h y hy => ?_
      cases h
      exact hs y (List.mem_cons_of_mem _ hy)
    · refine (afterLabel_yields _ body).bind fun r hr => ?_
      split
      · refine (Yields.any _).bind fun v _ => .pure fun s' h y hy => ?_
        cases h
        exact hr _ rfl y hy
      · exact fun w r w' hrun => by cases hrun
    · exact fun w r w' hrun => by cases hrun

/-- A block keeps to the ground when its statements do and its variables may be declared. -/
theorem evalBlock_treads (ht : Terrain K T) {vars : List Var} {body : List Expr}
    (hv : ∀ v ∈ vars, T.declares v) (hb : ∀ x ∈ body, T.tree x) (t : Ty) :
    Runs (K (T.scope env)) (evalBlock c t vars body env) := by
  unfold evalBlock
  refine declareAll_bind_treads ht hv fun scope => ?_
  unfold runBlock
  have : Runs (K (T.scope scope)) (iterate (stepBlock c body scope) c.turns (body, none)) :=
    Runs.iterate_of (J := fun s => ∀ x ∈ s.1, x ∈ body)
      (fun s hs => stepBlock_treads fun x hx => hb x (hs x hx)) (fun s hs => stepBlock_yields hs)
      c.turns fun x hx => hx
  infer_instance

theorem evalLoop_treads {body : Expr} (hb : T.tree body) (t : Ty) (brk cont : Option Label) :
    Runs (K (T.scope env)) (evalLoop c t body brk cont env) := by
  have := hc.eval hb env
  unfold evalLoop
  refine @Runs.iterate _ _ _ _ _ (fun _ => ?_) _ _
  unfold stepLoop
  repeat' first | infer_instance | split | refine @Runs.bind _ _ _ _ _ _ ?_ fun _ => ?_

/-- Finding a place keeps to the ground. -/
theorem place_treads (ht : Terrain K T) (h : e.hasKind .field = true → T.tree e) :
    Runs (K (T.scope env)) (place c env e) := by
  fun_induction place c env e with
  | case5 i r t o name habsent hpointer =>
    have := hc.eval (ht.field (h rfl)) env
    infer_instance
  | case6 i r t o name habsent hpointer ih =>
    have := ih fun _ => ht.field (h rfl)
    infer_instance
  | _ => infer_instance

/-- A store keeps to the relation. -/
theorem evalAssign_treads (ht : Terrain K T) {op : AssignOp} {target value : Expr}
    (htarget : Target T target) (hv : T.tree value) : Runs (K (T.scope env)) (evalAssign c e op target value env) := by
  unfold evalAssign
  have := hc.eval hv env
  refine (place_treads ht htarget.field).bind_of (fun w p w' => place_anchored ht htarget) (l := fun _ => ?_) fun p hp => ?_
  · repeat' first | infer_instance | split
  have hwrite : ∀ x, Runs (K (T.scope env)) (writePlace p x) := writePlace_treads ht hp
  have hstore : ∀ x, Runs (K (T.scope env)) (storeInto p x) := fun x => by
    unfold storeInto
    split <;> infer_instance
  have hcombined : ∀ t, Runs (K (T.scope env)) (combinedWith c e op value t env) := fun t => by
    unfold combinedWith
    infer_instance
  have := fun t => evalAs_treads (K := K) (T := T) (c := c) hv t env
  repeat' first | infer_instance | split

theorem evalBinary_treads {op : BinaryOp} {l r : Expr} (hl : T.tree l) (hr : T.tree r) (method : Option Native) :
    Runs (K (T.scope env)) (evalBinary c e op l r method env) := by
  have := hc.eval hl env
  have := hc.eval hr env
  have := evalBool_treads (K := K) (T := T) (c := c) hl env
  have := evalBool_treads (K := K) (T := T) (c := c) hr env
  unfold evalBinary
  repeat' first | infer_instance | split

omit hc in
/-- The body that a switch chooses is one of its cases. -/
theorem choose_yields {hit : Expr → Run Bool} (cases : List (List Expr × Expr)) :
    Yields (choose hit cases) fun r => ∀ body, r = some body → ∃ arm ∈ cases, arm.2 = body := by
  fun_induction choose hit cases with
  | case1 => exact .pure fun body h => by cases h
  | case2 tests body rest ih =>
    refine (Yields.any _).bind fun b _ => ?_
    split
    · refine .pure fun x hx => ?_
      cases hx
      exact ⟨_, List.mem_cons_self, rfl⟩
    · intro w r w' hrun x hx
      obtain ⟨arm, harm, heq⟩ := ih w r w' hrun x hx
      exact ⟨arm, List.mem_cons_of_mem _ harm, heq⟩

omit hc in
theorem choose_of {R : World → World → Prop} [Walk R] {hit : Expr → Run Bool} {cases : List (List Expr × Expr)}
    (h : ∀ arm ∈ cases, ∀ x ∈ arm.1, Runs R (hit x)) : Runs R (choose hit cases) := by
  fun_induction choose hit cases with
  | case1 => infer_instance
  | case2 tests body rest ih =>
    have := Runs.anyM_of (h _ List.mem_cons_self)
    have := ih fun arm harm => h arm (List.mem_cons_of_mem _ harm)
    infer_instance

theorem hits_treads {test : Expr} (ht : T.tree test) (v : Option Value) (comparer : Option Native) :
    Runs (K (T.scope env)) (hits c e v comparer env test) := by
  have := hc.eval ht env
  unfold hits
  repeat' first | infer_instance | split | refine @Runs.bind _ _ _ _ _ _ ?_ fun _ => ?_

/-- A switch keeps to the relation, with the arm that it finds. -/
theorem evalSwitch_treads (ht : Terrain K T) {value other : Expr} {cases : List (List Expr × Expr)}
    {comparer : Option Native} (hv : T.tree value) (htests : ∀ arm ∈ cases, ∀ x ∈ arm.1, T.tree x)
    (harms : ∀ x, (∀ v, value.asVar? = some v → T.turns v.id x) →
      (choose (hits c e x comparer env) cases).Yields fun r => ∀ body, r = some body → T.tree body)
    (ho : T.tree other) : Runs (K (T.scope env)) (evalSwitch c e value cases other comparer env) := by
  unfold evalSwitch
  refine (hc.eval hv env).bind_of (P := fun x => ∀ v, value.asVar? = some v → T.turns v.id x)
    (fun w x w' hrun hw hs v h => hc.reads hv h hrun hw hs) (l := fun _ => ?_) fun v hturns => ?_
  · repeat' first | infer_instance | split | refine @Runs.bind _ _ _ _ _ _ ?_ fun _ => ?_
  refine @Runs.bind _ _ _ _ _ _ (recordOn_treads ht hturns).1 fun _ => ?_
  have hchoose : Runs (K (T.scope env)) (choose (hits c e v comparer env) cases) :=
    choose_of fun arm harm x hx => hits_treads (htests arm harm x hx) v comparer
  refine hchoose.bind_yields (harms v hturns) (l := fun _ => ?_) fun r hr => ?_
  · repeat' first | infer_instance | split
  cases r with
  | some body => exact evalAs_treads (hr body rfl) _ _
  | none =>
    have := evalAs_treads (K := K) (T := T) (c := c) ho e.type env
    refine @Runs.bind _ _ _ _ _ _ (recordOn_treads ht hturns).2 fun _ => ?_
    infer_instance

/-- What a handler may do. -/
structure HandlerGood (T : Rights) (h : Handler Expr) : Prop where
  var : ∀ v, h.var = some v → T.binds v
  filter : T.tree h.filter
  body : T.tree h.body

/-- Handlers keep to the relation. -/
theorem handle_treads (ht : Terrain K T) {handlers : List (Handler Expr)}
    (hh : ∀ h ∈ handlers, HandlerGood T h) (failure : Stop) (env : Env) :
    Runs (K (T.scope env)) (handle c handlers failure env) := by
  induction handlers with
  | nil => exact Runs.pure _
  | cons h rest ih =>
    obtain ⟨hvar, hfilter, hbody⟩ := hh h List.mem_cons_self
    have ih := ih fun h hmem => hh h (List.mem_cons_of_mem _ hmem)
    unfold handle
    split
    · infer_instance
    · refine @Runs.bind _ _ _ _ _ _ inferInstance fun err => ?_
      refine handlerScope_bind_treads ht hvar (l := fun scope => ?_) fun scope => ?_
      · repeat' first | infer_instance | split | refine @Runs.bind _ _ _ _ _ _ ?_ fun _ => ?_
      · have := Runs.weaken (F := fun w => T.scope scope w ∧ T.scope env w)
          (evalBool_treads (K := K) (T := T) (c := c) hfilter scope) fun _ h => h.1
        have := Runs.weaken (F := fun w => T.scope scope w ∧ T.scope env w) (hc.eval hbody scope) fun _ h => h.1
        have := Runs.weaken (F := fun w => T.scope scope w ∧ T.scope env w) ih fun _ h => h.2
        unfold passes
        repeat' first | infer_instance | split | refine @Runs.bind _ _ _ _ _ _ ?_ fun _ => ?_

/-- A protected region keeps to the relation. -/
theorem evalProtect_treads (ht : Terrain K T) {body fin fault : Expr} {handlers : List (Handler Expr)}
    (hb : T.tree body) (hh : ∀ h ∈ handlers, HandlerGood T h) (hfin : T.tree fin) (hfault : T.tree fault) (t : Ty) :
    Runs (K (T.scope env)) (evalProtect c t body handlers fin fault env) := by
  have := hc.eval hb env
  have := hc.eval hfin env
  have := hc.eval hfault env
  have := fun s => handle_treads (c := c) ht hh s env
  have hrecover : ∀ s, Runs (K (T.scope env)) (Run.recover c handlers fault env s) := fun s => by
    unfold Run.recover
    repeat' first | infer_instance | split | refine @Runs.bind _ _ _ _ _ _ ?_ fun _ => ?_
  have hleave : ∀ r, Runs (K (T.scope env)) (Run.leave c t fin env r) := fun r => by
    unfold Run.leave
    repeat' first | infer_instance | split
  unfold evalProtect
  repeat' first | infer_instance | split | refine @Runs.bind _ _ _ _ _ _ ?_ fun _ => ?_

theorem evalCall_treads {fn : Expr} {args : List Expr} (hf : T.tree fn) (ha : ∀ a ∈ args, T.tree a) :
    Runs (K (T.scope env)) (evalCall c e fn args env) := by
  have := hc.eval hf env
  have := fun sig => evalArgs_treads (K := K) (T := T) (c := c) ha sig env
  unfold evalCall
  repeat' first | infer_instance | refine @Runs.bind _ _ _ _ _ _ ?_ fun _ => ?_

omit hc in
theorem watchHanding_treads (ht : Terrain K T) {name : String} {args : List Expr}
    (ha : ∀ a ∈ args, T.tree a) {run : Run α} (hrun : Runs (K (T.scope env)) run) :
    Runs (K (T.scope env)) (watchHanding name args env run) := by
  unfold watchHanding
  split
  · rename_i k
    obtain ⟨hhanded, hrejected⟩ := ht.hands env (ha k (List.mem_singleton_self k))
    repeat' first | infer_instance | split | refine @Runs.bind _ _ _ _ _ _ ?_ fun _ => ?_
  · exact hrun

/-- A call of a method keeps to the ground when its operands do. -/
theorem callOn_treads (ht : Terrain K T) {receiver : Expr} {name : String} {args : List Expr}
    (hr : T.tree receiver) (ha : ∀ a ∈ args, T.tree a) :
    Runs (K (T.scope env)) (callOn c e receiver name args env) := by
  have := hc.eval hr env
  have := fun sig => evalArgs_treads (K := K) (T := T) (c := c) ha sig env
  have hcall : ∀ sig vs recv cell?, Runs (K (T.scope env)) (watchHanding name args env
      (invokeAs e sig vs fun vs => watchCompleting cell? env (callMethod c recv name vs))) :=
    fun sig vs recv cell? => watchHanding_treads ht ha inferInstance
  unfold callOn
  repeat' first
    | infer_instance | split | dsimp only | refine @Runs.bind _ _ _ _ _ _ ?_ fun _ => ?_

theorem evalMethodCall_treads (ht : Terrain K T) {receiver : Expr} {name : String} {args : List Expr}
    (hr : T.tree receiver) (ha : ∀ a ∈ args, T.tree a) :
    Runs (K (T.scope env)) (evalMethodCall c e receiver name args env) := by
  have : Runs (K (T.scope env)) (callOn c e receiver name args env) := callOn_treads ht hr ha
  unfold evalMethodCall
  infer_instance

/-! ### Nodes and lambdas -/

/-- **A node keeps to the relation when its operands do.** -/
theorem evalNode_treads (ht : Terrain K T) {i r : Nat} {t : Ty} {d : Data Expr}
    (hd : T.Fits d) (hops : ∀ x ∈ Expr.operands d, T.tree x)
    (hclosure : d.kind = .lambda → ∀ name kind, Runs (K (T.scope env)) (makeClosure (.node i r t d) name kind env)) :
    Runs (K (T.scope env)) (evalNode c (.node i r t d) env) := by
  have heval := fun x hx => hc.eval (hops x hx) env
  unfold evalNode
  -- evaluation reaches the operands and nothing else of the tree, lambdas apart
  cases d with
  | constant | default | await | yield => infer_instance
  | var v =>
    dsimp only
    split <;> infer_instance
  | block vs xs => exact evalBlock_treads ht hd hops t
  | assign op target value =>
    refine evalAssign_treads ht ⟨hd, fun hf => ?_⟩ ?_
    · exact hops _ (mem_operands_assign.mpr (Or.inl ⟨hf, rfl⟩))
    · exact hops _ (mem_operands_assign.mpr (Or.inr rfl))
  | binary op l r method =>
    exact evalBinary_treads (hops l (by simp [Expr.operands])) (hops r (by simp [Expr.operands])) method
  | unary op x method | throw x | typeIs x test | goto kind l x | field x name =>
    have := heval x (List.mem_singleton_self x)
    dsimp only
    repeat' first
      | infer_instance | split | refine @Runs.bind _ _ _ _ _ _ ?_ fun _ => ?_
  | conditional test a b =>
    have := evalBool_treads (K := K) (T := T) (c := c) (hops test (by simp [Expr.operands])) env
    have := evalAs_treads (K := K) (T := T) (c := c) (hops a (by simp [Expr.operands])) t env
    have := evalAs_treads (K := K) (T := T) (c := c) (hops b (by simp [Expr.operands])) t env
    refine @Runs.bind _ _ _ _ _ _ inferInstance fun r => ?_
    cases r <;> simpa
  | switch value cases other method =>
    refine evalSwitch_treads ht (hops value (by simp [Expr.operands])) (fun arm harm x hx => ?_) (fun x _ => ?_)
      (hops other (by simp [Expr.operands]))
    · exact hops x (mem_operands_switch.mpr (by grind))
    · intro w r w' hrun body hbody
      obtain ⟨arm, harm, rfl⟩ := choose_yields cases w r w' hrun body hbody
      exact hops arm.2 (mem_operands_switch.mpr (by grind))
  | loop body brk cont => exact evalLoop_treads (hops body (List.mem_singleton_self body)) t brk cont
  | protect body hs fin fault =>
    refine evalProtect_treads ht (hops body (by simp [Expr.operands])) (fun h hmem => ?_)
      (hops fin (by simp [Expr.operands])) (hops fault (by simp [Expr.operands])) t
    exact ⟨hd h hmem, hops _ (mem_operands_protect.mpr (by grind)),
      hops _ (mem_operands_protect.mpr (by grind))⟩
  | label l x =>
    have := evalAs_treads (K := K) (T := T) (c := c) (hops x (List.mem_singleton_self x)) t env
    infer_instance
  | call fn args =>
    exact evalCall_treads (hops fn List.mem_cons_self) fun a ha => hops a (List.mem_cons_of_mem _ ha)
  | methodCall receiver name args =>
    exact evalMethodCall_treads ht (hops receiver List.mem_cons_self) fun a ha =>
      hops a (List.mem_cons_of_mem _ ha)
  | lambda name params body kind fallible =>
    have := hclosure rfl
    infer_instance

theorem bindParam_bind_treads (ht : Terrain K T) {v : Var} (hv : T.binds v) {x : Value}
    {f : Env → Run β} [∀ env, Runs Later (f env)] (hf : ∀ env, Runs (K (T.scope env)) (f env)) :
    Runs (K (T.scope env)) (bindParam env (v, x) >>= f) := by
  unfold bindParam
  rw [bind_assoc]
  refine @Runs.bind _ _ _ _ _ _ inferInstance fun x => ?_
  exact declareAs_bind_treads ht hv fun scope => (hf scope).weaken fun _ h => h.1

/-- The body of a lambda is all that a call of it evaluates. -/
theorem enter_treads (ht : Terrain K T) {params : List Var} {body : Expr}
    (hp : ∀ v ∈ params, T.binds v) (hb : ∀ env, Runs (K (T.scope env)) (c.eval body env)) (args : List Value) (res : Ty)
    (env : Env) : Runs (K (T.scope env)) (enter c params args body res env) := by
  unfold enter
  have hargs : ∀ arg ∈ params.zip args, T.binds arg.1 := fun arg harg =>
    hp _ (List.of_mem_zip harg).1
  generalize params.zip args = bound at hargs
  induction bound generalizing env with
  | nil =>
    rw [List.foldlM_nil, pure_bind]
    infer_instance
  | cons arg bound ih =>
    rw [List.foldlM_cons, bind_assoc]
    exact bindParam_bind_treads ht (hargs arg List.mem_cons_self) fun scope =>
      ih scope fun a ha => hargs a (List.mem_cons_of_mem _ ha)

omit hc in
/-- What a closure does when it is called is what its body does. -/
theorem callClosure_of {R : World → World → Prop} [Walk R] {κ : Closure} {args : List Value}
    (h : ∀ i r t name params body kind fallible res, κ.lambda = .node i r t (.lambda name params body kind fallible) →
      Runs R (enter c params args body res κ.env)) : Runs R (callClosure c κ args) := by
  unfold callClosure
  split
  · rename_i i r t name params body kind fallible heq
    have := fun res => h i r t name params body kind fallible res heq
    repeat' first
      | infer_instance | split | dsimp only | refine @Runs.bind _ _ _ _ _ _ ?_ fun _ => ?_
  · infer_instance

omit hc in
/-- A function keeps to the relation when the closures that it may be do. -/
theorem callFunc_of {R : World → World → Prop} [Walk R] [CallsRun R c] {f : Value} {args : List Value}
    (h : ∀ (w : World) (id : Nat) κ, w.closures[id]? = some κ →
      R w ((record (.entered id) >>= fun _ => callClosure c κ args).left w)) : Runs R (callFunc c f args) := by
  unfold callFunc
  extract_lets first
  cases f with
  | func t f =>
    cases f with
    | closure id =>
      refine ⟨fun w => ?_⟩
      dsimp only
      rw [Run.left_bind]
      dsimp only [get, getThe, MonadStateOf.get, EStateM.get]
      split
      · exact h w id _ ‹_›
      · exact (inferInstance : Runs R (panicNil : Run (List Value))).left w
    | _ =>
      dsimp only
      infer_instance
  | _ =>
    dsimp only
    infer_instance

end

end Run

end Resumable
