import Resumable.Proofs.Evaluating

/-!
# `Proofs.Hidden`: slots that code cannot reach

A tree reaches the slots of the variables that it uses, and through the closures that it calls those of the
variables that they use. A slot that no variable of the tree and none of a closure leads to is hidden from the
tree: whatever the tree does, the slot holds what it held. Closures that are made on the way share a scope in
which the slot was hidden, and variables that are declared on the way get slots of their own, so that it stays
hidden.

**Contents**
* `Expr.Misses`, `World.Hides`: trees and worlds that do not lead to a slot.
* `Spares`, `Shields`: what leaves a hidden slot as it is.
* `sparing`, `sparing_terrain`: code from which a slot is hidden.
* `Calls.level_shields`, `evalAs_spares`: evaluating a tree leaves the slots as they are that are hidden from it.
-/

namespace Resumable

open Resumable.Expr Run

/-- No variable that the tree uses, outside and inside lambdas, has the slot `a`. -/
def Expr.Misses (env : Env) (a : Nat) (e : Expr) : Prop :=
  e.Every fun n => ∀ v, n.isRef v = true ∨ n.storesTo v = true → env.find? v ≠ some a

/-- No closure leads to the slot `a`. -/
structure World.Hides (a : Nat) (w : World) : Prop where
  bounded : a < w.slots.size
  closures : ∀ κ ∈ w.closures, κ.lambda.Misses κ.env a

/-- A slot that was hidden is hidden still and holds what it held. -/
def Spares (a : Nat) (w w' : World) : Prop :=
  w.Hides a → w'.Hides a ∧ w'.slots[a]? = w.slots[a]?

/-- From a world with the property `E` on, a slot that was hidden is left as it is. -/
def Shields (a : Nat) (E : World → Prop) (w w' : World) : Prop :=
  w.Hides a → E w → (w'.Hides a ∧ w'.slots[a]? = w.slots[a]?) ∧ Persists w w'

attribute [local instance] Conditional.walk

section
variable {a : Nat} {env env' : Env} {e : Expr} {w w' : World} {E : World → Prop}

namespace Expr.Misses

theorem operand {i r : Nat} {t : Ty} {d : Data Expr} {x : Expr} (h : (Expr.node i r t d).Misses env a)
    (hx : x ∈ operands d) : x.Misses env a :=
  (every_node.mp h).2 x hx

theorem ref {v : Var} (h : e.Misses env a) (hv : e.asVar? = some v) : env.find? v ≠ some a := by
  cases e with
  | absent => cases hv
  | node i r t d => exact (every_node.mp h).1 v (Or.inl (by simp [isRef, hv]))

/-- A scope that leads to the slot from no more variables is missed by no fewer trees. -/
theorem mono (h : e.Misses env a) (henv : ∀ i, env'.slot? i = some a → env.slot? i = some a) :
    e.Misses env' a :=
  fun n hn v hv ha => h n hn v hv (henv v.id ha)

end Expr.Misses

theorem Shields.of_same (hslots : w'.slots = w.slots) (hclosures : w'.closures = w.closures) : Shields a E w w' :=
  fun h _ => ⟨⟨⟨hslots ▸ h.bounded, hclosures ▸ h.closures⟩, by rw [hslots]⟩, .of_slots hslots⟩

theorem Shields.trans_to {F : World → Prop} [hE : Lasts E] {w'' : World} (h : Shields a E w w')
    (hF : w.Hides a → E w → w'.Hides a → E w' → F w') (h' : Shields a F w' w'') : Shields a E w w'' := by
  intro hw hEw
  obtain ⟨⟨hw', hslot⟩, hp⟩ := h hw hEw
  obtain ⟨⟨hw'', hslot'⟩, hp'⟩ := h' hw' (hF hw hEw hw' (hE.persists hp hEw))
  exact ⟨⟨hw'', hslot'.trans hslot⟩, hp.trans hp'⟩

instance (a : Nat) : Conditional (Shields a) where
  sound := World.Hides a
  walk _ _ :=
    { same := fun h => .of_same h.slots h.closures
      post := fun _ _ => .of_same rfl rfl
      schedule := fun _ _ _ => .of_same rfl rfl
      mark := fun _ _ _ => .of_same rfl rfl
      trans := fun h h' => h.trans_to (fun _ _ _ hE => hE) h' }
  mono hE h hw hF := h hw (hE _ hF)
  trans_to := Shields.trans_to
  vacuous _ hE _ h := absurd h hE

/-! ### Code from which a slot is hidden -/

/-- The rights of code from which the slot is hidden in a scope. It runs in scopes that lead to the slot from no
variable from which this one does not. -/
def sparing (a : Nat) (env₀ : Env) : Rights where
  scope env _ := ∀ i, env.slot? i = some a → env₀.slot? i = some a
  tree := Misses env₀ a
  declares _ := True
  binds _ := True
  stores i := env₀.slot? i ≠ some a
  turns _ _ := True

variable {env₀ : Env}

instance : Lasts ((sparing a env₀).scope env) := ⟨fun _ h => h⟩

theorem makeSlot_shields (v : Var) (x : Value) : Runs (Shields a E) (makeSlot v x) where
  left w hw _ := by
    have hsize : w.slots.size < (w.slots.push ⟨v.id, x⟩).size := by simp
    refine ⟨⟨⟨hw.bounded.trans hsize, hw.closures⟩, ?_⟩, fun b s hb => ⟨s, ?_, rfl⟩⟩
    · show (w.slots.push _)[a]? = w.slots[a]?
      rw [Array.getElem?_push, if_neg (Nat.ne_of_lt hw.bounded)]
    · show (w.slots.push _)[b]? = some s
      rw [Array.getElem?_push, if_neg (Nat.ne_of_lt (Array.getElem?_eq_some_iff.mp hb).1), hb]

/-- Filling another slot. -/
theorem fillSlot_shields {b : Nat} {x : Value} (hb : ∀ w, E w → b ≠ a) : Runs (Shields a E) (fillSlot b x) where
  left w hw hE := by
    refine ⟨⟨⟨?_, hw.closures⟩, ?_⟩, fun c s hc => ?_⟩
    · show a < (w.slots.setIfInBounds b _).size
      simpa using hw.bounded
    · show (w.slots.setIfInBounds b _)[a]? = w.slots[a]?
      rw [Array.getElem?_setIfInBounds, if_neg (hb w hE)]
    · show ∃ s', (w.slots.setIfInBounds b _)[c]? = some s' ∧ s'.var = s.var
      rw [Array.getElem?_setIfInBounds]
      split
      · subst b
        rw [if_pos (Array.getElem?_eq_some_iff.mp hc).1]
        exact ⟨_, rfl, by rw [Array.getD_eq_getD_getElem?, hc]; rfl⟩
      · exact ⟨s, hc, rfl⟩

theorem record_shields (f : Footprint) : Runs (Shields a E) (record f) := ⟨fun _ => .of_same rfl rfl⟩

theorem recordOn_shields (e : Expr) (env : Env) (event : Nat → Nat → Footprint) :
    Runs (Shields a ((sparing a env₀).scope env)) (recordOn e env event) := by
  have := record_shields (a := a) (E := (sparing a env₀).scope env)
  unfold recordOn
  repeat' first | infer_instance | split

/-- Code that spares a cell keeps it shielded. -/
theorem sparing_terrain (a : Nat) (env₀ : Env) : Terrain (Shields a) (sparing a env₀) where
  declares _ := makeSlot_shields _ _
  binds _ := makeSlot_shields _ _
  enters {v _ _ _ _ env} _ hrun hw hs _ := by
    cases hrun
    intro i hi
    rw [Env.slot?_bind] at hi
    split at hi
    · cases hi
      exact absurd hw.bounded (Nat.lt_irrefl _)
    · exact hs i hi
  caught := Iff.rfl
  fills hy hb := fillSlot_shields fun w hs heq => hy (hs _ (heq ▸ hb))
  turns _ _ := ⟨record_shields _, record_shields _⟩
  hands _ _ := ⟨recordOn_shields _ _ _, recordOn_shields _ _ _⟩
  field h := h.operand (List.mem_singleton_self _)
  fielded ho hv := .inl (ho.ref hv)

/-- A closure that is made leads to no more slots than the scope it is made in. -/
theorem makeClosure_shields (he : e.Misses env₀ a) (name : String) (kind : LambdaKind) :
    Runs (Shields a ((sparing a env₀).scope env)) (makeClosure e name kind env) := by
  have hpush : Runs (Shields a ((sparing a env₀).scope env)) (modifyGet fun w =>
      (Value.func e.type (.closure w.closures.size),
        { w with closures := w.closures.push ⟨e, env⟩ }) : Run Value) := by
    refine ⟨fun w hw hs => ⟨⟨⟨hw.bounded, fun κ hκ => ?_⟩, rfl⟩, .of_slots rfl⟩⟩
    obtain hκ | rfl := Array.mem_push.mp hκ
    · exact hw.closures κ hκ
    · exact he.mono hs
  unfold makeClosure
  repeat' first | infer_instance | split

/-- **A node leaves a slot as it is that is hidden from it**, when its operands do. -/
theorem evalNode_shields {c : Calls} [Treads (Shields a) (sparing a env₀) c] (he : e.Misses env₀ a) :
    Runs (Shields a ((sparing a env₀).scope env)) (evalNode c e env) := by
  cases e with
  | absent =>
    unfold evalNode
    infer_instance
  | node i r t d =>
    refine evalNode_treads (sparing_terrain a env₀) ?_ (fun x hx => he.operand hx) fun _ => makeClosure_shields he
    cases d with
    | assign op target value =>
      exact fun v hv => (every_node.mp he).1 v (Or.inr (by simp [storesTo, isRef, hv]))
    | block => exact fun _ _ => trivial
    | protect => exact fun _ _ _ _ => trivial
    | _ => trivial

end

/-! ### Calls -/

section
variable {a : Nat} {c : Calls} (hc : ∀ env, Treads (Shields a) (sparing a env) c)
include hc

/-- The body of a closure runs in the scope of the closure with the parameters more. -/
theorem callClosure_shields {κ : Closure} (hκ : κ.lambda.Misses κ.env a) (args : List Value) :
    Runs (Shields a ((sparing a κ.env).scope κ.env)) (callClosure c κ args) := by
  have := hc κ.env
  refine callClosure_of fun i r t name params body kind fallible res heq => ?_
  rw [heq] at hκ
  exact enter_treads (sparing_terrain a κ.env) (fun _ _ => trivial)
    (this.eval (hκ.operand (List.mem_singleton_self body))) _ _ _

/-- A function leaves a hidden slot as it is. -/
theorem callFunc_shields (f : Value) (args : List Value) : Runs (Shields a fun _ => True) (callFunc c f args) := by
  have := (hc {}).calls fun _ => True
  refine callFunc_of fun w id κ hκ hw _ => ?_
  exact (callClosure_shields hc (hw.closures κ (Array.mem_of_getElem? hκ)) args).left _ ⟨hw.bounded, hw.closures⟩
    fun _ h => h

end

/-- **Evaluating a tree leaves the slots as they are that are hidden from it**, on whatever amount of fuel,
and so do calls and callbacks. -/
theorem Calls.level_shields (a n : Nat) (env₀ : Env) : Treads (Shields a) (sparing a env₀) (level n) := by
  induction n generalizing env₀ with
  | zero =>
    exact
      { later := inferInstance
        calls := fun _ _ =>
          ⟨fun _ _ => Runs.throw _, fun _ => Runs.throw _⟩
        eval := fun _ _ => Runs.throw _
        reads := fun _ _ _ _ _ => trivial }
  | succ n ih =>
    have := ih env₀
    exact
      { later := inferInstance
        calls := fun E _ =>
          have := this.calls E
          ⟨fun f args => (callFunc_shields ih f args).weaken fun _ _ => trivial,
            fun k => inferInstanceAs (Runs (Shields a E) (execCallback (level n) k))⟩
        eval := fun he _ => evalNode_shields he
        reads := fun _ _ _ _ _ => trivial }

theorem evalAs_spares {a : Nat} {env : Env} {e : Expr} (he : e.Misses env a) (t : Ty) (n : Nat) :
    Runs (Spares a) (evalAs (Calls.level n) e t env) := by
  have := Calls.level_shields a n env
  exact (evalAs_treads (K := Shields a) (T := sparing a env) he t env).mono fun _ _ h hw => (h hw fun _ h => h).1

end Resumable
