import Resumable.Lower.Backend
import Resumable.Lower.Emit
import Resumable.Proofs.Tree

/-!
# `Proofs.Build`: what construction leaves

A construction only hands out new numbers, so all there is to say about a successful one is what it
built. `Builds x P` says that `P` holds of every result of `x` and that the identities of the supply
only grow; the rules below follow the monad, and after them comes one line for every constructor:
**operands that are lowered give a node that is lowered**.
-/

namespace Resumable

open Resumable.Expr

/-! ### What is known of results -/

/-- `H` tells what the results of a computation are like and follows the way computations are put together, for
those that `K` allows. -/
structure Compositional {m : Type → Type} [Monad m] (K : ∀ ⦃α : Type⦄, m α → Prop)
    (H : ∀ ⦃α : Type⦄, m α → (α → Prop) → Prop) : Prop where
  pure : ∀ {α : Type} {a : α} {P : α → Prop}, P a → K (pure a) ∧ H (pure a) P
  bind : ∀ {α β : Type} {x : m α} {f : α → m β} {P : α → Prop} {R : β → Prop}, K x → (∀ a, K (f a)) → H x P →
    (∀ a, P a → H (f a) R) → K (x >>= f) ∧ H (x >>= f) R

/-- Work on every element of a list keeps what it establishes for each of them. -/
theorem Compositional.mapM {m : Type → Type} [Monad m] [LawfulMonad m] {K : ∀ ⦃α : Type⦄, m α → Prop}
    {H : ∀ ⦃α : Type⦄, m α → (α → Prop) → Prop} (h : Compositional K H) {γ : Type*} {α : Type} {P : α → Prop}
    {f : γ → m α} {xs : List γ} (hk : ∀ c, K (f c)) (hf : ∀ c ∈ xs, H (f c) P) :
    K (xs.mapM f) ∧ H (xs.mapM f) fun ys => ∀ y ∈ ys, P y := by
  induction xs with
  | nil =>
    rw [List.mapM_nil]
    exact h.pure (by simp)
  | cons c cs ih =>
    obtain ⟨hkeep, hrest⟩ := ih fun c hc => hf c (List.mem_cons_of_mem _ hc)
    have hcons : ∀ (y : α) (R : List α → Prop), (∀ ys, (∀ z ∈ ys, P z) → R (y :: ys)) →
        K (cs.mapM f >>= fun ys => Pure.pure (y :: ys)) ∧ H (cs.mapM f >>= fun ys => Pure.pure (y :: ys)) R :=
      fun y R hR => h.bind hkeep (fun ys => (h.pure (P := fun _ => True) trivial).1) hrest
        fun ys hys => (h.pure (hR ys hys)).2
    rw [List.mapM_cons]
    refine h.bind (hk c) (fun y => (hcons y (fun _ => True) fun _ _ => trivial).1) (hf c List.mem_cons_self)
      fun y hy => (hcons y _ fun ys hys z hz => ?_).2
    obtain rfl | hz := List.mem_cons.mp hz
    · exact hy
    · exact hys z hz

/-! ### Results of a construction -/

/-- Every result of the construction has the property, and no identity is given back. -/
def Builds (x : Build α) (P : α → Prop) : Prop :=
  ∀ q a q', x q = .ok a q' → P a ∧ q.refs ≤ q'.refs

namespace Builds

variable {x : Build α} {P : α → Prop} {R : β → Prop}

theorem pure {a : α} (h : P a) : Builds (pure a) P := by
  intro q b q' heq
  cases heq
  exact ⟨h, Nat.le_refl _⟩

theorem throw (f : Fault) : Builds (throw f : Build α) P := by
  intro q b q' heq
  cases heq

/-- A construction after a construction builds what the second one builds of every result of the first. -/
theorem bind {f : α → Build β} (hx : Builds x P) (hf : ∀ a, P a → Builds (f a) R) :
    Builds (x >>= f) R := by
  intro q b q' heq
  show R b ∧ q.refs ≤ q'.refs
  change EStateM.bind x f q = _ at heq
  unfold EStateM.bind at heq
  split at heq
  · rename_i a q₁ hrun
    obtain ⟨ha, hle⟩ := hx q a q₁ hrun
    obtain ⟨hb, hle'⟩ := hf a ha q₁ b q' heq
    exact ⟨hb, Nat.le_trans hle hle'⟩
  · cases heq

theorem throw_bind (f : Fault) (k : α → Build β) : Builds ((MonadExcept.throw f : Build α) >>= k) R := by
  intro q b q' heq
  cases heq

theorem compositional : Compositional (m := Build) (fun _ _ => True) fun _ x P => Builds x P where
  pure h := ⟨trivial, pure h⟩
  bind _ _ hx hf := ⟨trivial, bind hx hf⟩

theorem mapM {f : γ → Build α} {xs : List γ} (hf : ∀ c ∈ xs, Builds (f c) P) :
    Builds (xs.mapM f) fun ys => ∀ y ∈ ys, P y :=
  (compositional.mapM (fun _ => trivial) hf).2

end Builds

namespace Build

variable {e x y z target value : Expr} {d : Data Expr} {t : Ty} {xs : List Expr}

/-- The payload is lowered as far as a node of it is concerned. -/
def Plain (d : Data Expr) : Prop :=
  (Expr.node 0 0 .void d).isUnlowered = false ∧ ∀ c ∈ operands d, IsLowered c

theorem Plain.lowered (h : Plain d) (i r : Nat) (t : Ty) : IsLowered (.node i r t d) :=
  lowered_node.mpr h

theorem freshRef_builds : Builds freshRef fun _ => True := by
  intro q a q' h
  cases h
  exact ⟨trivial, Nat.le_succ _⟩

theorem newVar_builds (name : String) (t : Ty) : Builds (newVar name t) fun _ => True := by
  intro q a q' h
  cases h
  exact ⟨trivial, Nat.le_refl _⟩

theorem newLabel_builds (name : String) (t : Ty) : Builds (newLabel name t) fun _ => True := by
  intro q a q' h
  cases h
  exact ⟨trivial, Nat.le_refl _⟩

theorem node_builds (h : Plain d) : Builds (node t d) IsLowered := by
  intro q a q' heq
  cases heq
  exact ⟨h.lowered _ _ _, Nat.le_succ _⟩

theorem typeOf_builds (e : Expr) : Builds (typeOf e) fun _ => e.isAbsent = false := by
  unfold typeOf
  split
  · exact Builds.throw _
  · rename_i h
    exact Builds.pure (by simpa using h)

theorem dataOf_builds (e : Expr) : Builds (dataOf e) fun d => e.data? = some d := by
  unfold dataOf
  split
  · rename_i h
    exact Builds.pure h
  · exact Builds.throw _

theorem withData_builds (h : Plain d) : Builds (withData e d) IsLowered := by
  cases e with
  | absent => exact Builds.throw _
  | node i r t d => exact freshRef_builds.bind fun r' _ => Builds.pure (h.lowered _ _ _)

theorem withType_builds (h : IsLowered e) : Builds (withType e t) IsLowered := by
  cases e with
  | absent => exact Builds.throw _
  | node i r t d =>
    exact freshRef_builds.bind fun r' _ => Builds.pure (Plain.lowered (lowered_node.mp h) _ _ _)

/-! ### Values and variables -/

theorem const_builds (v : Option Value) : Builds (const v) IsLowered :=
  node_builds ⟨rfl, by simp [operands]⟩

theorem constOf_builds (v : Option Value) (t : Ty) : Builds (constOf v t) IsLowered :=
  node_builds ⟨rfl, by simp [operands]⟩

theorem constInt_builds (n : Int) : Builds (constInt n) IsLowered := const_builds _

theorem constBool_builds (b : Bool) : Builds (constBool b) IsLowered := const_builds _

theorem default_builds (t : Ty) : Builds (default t) IsLowered := node_builds ⟨rfl, by simp [operands]⟩

theorem empty_builds : Builds empty IsLowered := default_builds _

theorem ref_builds (v : Var) : Builds (ref v) IsLowered := node_builds ⟨rfl, by simp [operands]⟩

/-! ### Sequences and stores -/

theorem typedBlock_builds {vars : List Var} (h : ∀ x ∈ xs, IsLowered x) :
    Builds (typedBlock t vars xs) IsLowered :=
  node_builds ⟨rfl, h⟩

theorem block_builds {vars : List Var} (h : ∀ x ∈ xs, IsLowered x) :
    Builds (block vars xs) IsLowered := by
  unfold block
  extract_lets tail
  split
  · exact (typeOf_builds _).bind fun _ _ => typedBlock_builds h
  · exact typedBlock_builds h

/-- A store is plain when its value is lowered, and its target where that is a field. -/
theorem plain_assign {op : AssignOp} (ht : target.hasKind .field = true → IsLowered target)
    (hv : IsLowered value) : Plain (.assign op target value) := by
  refine ⟨rfl, fun c hc => ?_⟩
  simp only [operands] at hc
  split at hc
  · rename_i hfield
    obtain rfl | hc := List.mem_cons.mp hc
    · exact ht hfield
    · cases List.mem_singleton.mp hc
      exact hv
  · cases List.mem_singleton.mp hc
    exact hv

theorem assign_builds (ht : IsLowered target) (hv : IsLowered value) :
    Builds (assign target value) IsLowered := by
  unfold assign assignWith
  refine (dataOf_builds target).bind fun d _ => ?_
  extract_lets k tail
  split
  · exact Builds.throw_bind _ _
  · exact node_builds (plain_assign (fun _ => ht) hv)

/-! ### Operators -/

theorem binary_builds {op : BinaryOp} (hx : IsLowered x) (hy : IsLowered y) :
    Builds (binary op x y) IsLowered := by
  unfold binary
  exact (typeOf_builds x).bind fun _ _ => node_builds ⟨rfl, by simp [operands, hx, hy]⟩

theorem not_builds (hx : IsLowered x) : Builds (not x) IsLowered :=
  node_builds ⟨rfl, by simp [operands, hx]⟩

theorem convert_builds (hx : IsLowered x) : Builds (convert x t) IsLowered :=
  node_builds ⟨rfl, by simp [operands, hx]⟩

theorem throwAs_builds (hx : IsLowered x) : Builds (throwAs x t) IsLowered := by
  unfold throwAs
  split
  · exact Builds.throw_bind _ _
  · exact node_builds ⟨rfl, by simp [operands, hx]⟩

theorem raise_builds (hx : IsLowered x) : Builds (raise x) IsLowered := throwAs_builds hx

theorem typeIs_builds (hx : IsLowered x) : Builds (typeIs x t) IsLowered :=
  node_builds ⟨rfl, by simp [operands, hx]⟩

/-! ### Control flow -/

theorem ifThenElse_builds (hx : IsLowered x) (hy : IsLowered y) (hz : IsLowered z) :
    Builds (ifThenElse x y z) IsLowered :=
  node_builds ⟨rfl, by simp [operands, hx, hy, hz]⟩

theorem ifThen_builds (hx : IsLowered x) (hy : IsLowered y) : Builds (ifThen x y) IsLowered := by
  unfold ifThen
  exact empty_builds.bind fun _ hz => ifThenElse_builds hx hy hz

/-- The tests and the bodies of the cases are lowered. -/
def PlainCases (cases : List (List Expr × Expr)) : Prop :=
  ∀ c ∈ cases, (∀ x ∈ c.1, IsLowered x) ∧ IsLowered c.2

theorem PlainCases.concat {out : List (List Expr × Expr)} {tests : List Expr} {arm : Expr}
    (h : PlainCases out) (ht : ∀ x ∈ tests, IsLowered x) (ha : IsLowered arm) :
    PlainCases (out ++ [(tests, arm)]) := by
  intro c hc
  obtain hc | hc := List.mem_append.mp hc
  · exact h c hc
  · cases List.mem_singleton.mp hc
    exact ⟨ht, ha⟩

theorem plain_switch {cases : List (List Expr × Expr)} {comparer : Option Native} (hx : IsLowered x)
    (hc : PlainCases cases) (hy : IsLowered y) : Plain (.switch x cases y comparer) := by
  refine ⟨rfl, fun c hmem => ?_⟩
  rw [mem_operands_switch] at hmem
  obtain rfl | ⟨arm, harm, hmem | rfl⟩ | rfl := hmem
  · exact hx
  · exact (hc arm harm).1 c hmem
  · exact (hc arm harm).2
  · exact hy

theorem switch_builds {cases : List (List Expr × Expr)} {comparer : Option Native} (hx : IsLowered x)
    (hc : PlainCases cases) (hy : IsLowered y) : Builds (switch t x y comparer cases) IsLowered :=
  node_builds (plain_switch hx hc hy)

theorem loop_builds {brk cont : Option Label} (hx : IsLowered x) : Builds (loop x brk cont) IsLowered :=
  node_builds ⟨rfl, by simp [operands, hx]⟩

theorem catchAll_builds {v : Var} (hx : IsLowered x) (hy : IsLowered y) :
    Builds (catchAll x v y) IsLowered := by
  unfold catchAll protect
  exact (typeOf_builds x).bind fun _ _ => node_builds ⟨rfl, by simp [operands, hx, hy]⟩

theorem jump_builds {k : GotoKind} {l : Label} (hx : IsLowered x) : Builds (jump k l x) IsLowered :=
  node_builds ⟨rfl, by simp [operands, hx]⟩

/-! ### Calls and lambdas -/

theorem resultOf_builds (t : Ty) : Builds (resultOf t) fun _ => True := by
  unfold resultOf
  split
  · exact Builds.pure trivial
  · exact Builds.throw _

theorem call_builds (hx : IsLowered x) (hxs : ∀ y ∈ xs, IsLowered y) : Builds (call x xs) IsLowered := by
  unfold call
  refine (typeOf_builds x).bind fun t _ => ?_
  extract_lets tail
  split
  · exact Builds.throw_bind _ _
  · exact (resultOf_builds t).bind fun _ _ => node_builds ⟨rfl, by simpa [operands, hx] using hxs⟩

theorem callFunc_builds {f : Value} (hxs : ∀ y ∈ xs, IsLowered y) :
    Builds (callFunc f xs) IsLowered := by
  unfold callFunc
  exact (const_builds _).bind fun _ hf => call_builds hf hxs

theorem callLibrary_builds {f : Library} (hxs : ∀ y ∈ xs, IsLowered y) :
    Builds (callLibrary f xs) IsLowered :=
  callFunc_builds hxs

theorem methodCall_builds {name : String} (hx : IsLowered x) (hxs : ∀ y ∈ xs, IsLowered y) :
    Builds (methodCall x name xs) IsLowered := by
  unfold methodCall
  refine (typeOf_builds x).bind fun t _ => ?_
  split
  · exact Builds.throw _
  · exact (resultOf_builds _).bind fun _ _ => node_builds ⟨rfl, by simpa [operands, hx] using hxs⟩

theorem field_builds {name : String} (hx : IsLowered x) : Builds (field x name) IsLowered := by
  unfold field
  refine (typeOf_builds x).bind fun t _ => ?_
  extract_lets st tail
  split
  · exact Builds.throw_bind _ _
  · unfold tail
    split
    · exact Builds.throw _
    · exact node_builds ⟨rfl, by simp [operands, hx]⟩

theorem lambdaOf_builds {shape : Ty} {name : String} {fallible : Bool} {params : List Var}
    (hx : IsLowered x) : Builds (lambdaOf shape name .plain fallible params x) IsLowered := by
  unfold lambdaOf
  extract_lets fits
  split
  · exact node_builds ⟨rfl, by simp [operands, hx]⟩
  · exact Builds.throw _

theorem lambda_builds {name : String} {fallible : Bool} {params : List Var} (hx : IsLowered x) :
    Builds (lambda name fallible params x) IsLowered := by
  unfold lambda
  exact (typeOf_builds x).bind fun _ _ => lambdaOf_builds hx

theorem coerce_builds (hx : IsLowered x) : Builds (x.coerce t) IsLowered := by
  unfold coerce
  split
  · exact Builds.pure hx
  · exact convert_builds hx

/-! ### Rebuilding -/

theorem lowered_of_mem_children {c : Expr} (hx : IsLowered x) (hc : c ∈ x.children) : IsLowered c := by
  cases x with
  | absent => cases hc
  | node i r t d => exact (lowered_node.mp hx).2 c (List.mem_filter.mp hc).1

theorem lowered_of_data? (hx : IsLowered x) (hd : x.data? = some d) (hy : y ∈ operands d) : IsLowered y := by
  cases x with
  | absent => cases hd
  | node i r t d' =>
    cases hd
    exact (lowered_node.mp hx).2 y hy

/-- A node of operands that are lowered is lowered. -/
theorem mapChildren_builds {f : Expr → Build Expr} (hx : IsLowered x)
    (hf : ∀ c ∈ x.children, IsLowered c → Builds (f c) IsLowered) :
    Builds (x.mapChildren fun c _ => f c) IsLowered := by
  rw [mapChildren_eq]
  refine Builds.bind (P := fun cs => ∀ c ∈ cs, IsLowered c) ?_ fun cs hcs => ?_
  · exact Builds.mapM fun c hc => hf c hc (lowered_of_mem_children hx hc)
  · split
    · exact Builds.pure hx
    · cases x with
      | absent => exact Builds.pure hx
      | node i r t d => exact freshRef_builds.bind fun q _ => Builds.pure (hx.refill hcs i q)

/-- Rewriting by a function that keeps nodes lowered keeps a tree lowered. -/
theorem rewrite_builds {x : Expr} {f : Expr → Build Expr} (hf : ∀ n, IsLowered n → Builds (f n) IsLowered)
    (hx : IsLowered x) : Builds (x.rewrite f) IsLowered := by
  rw [rewrite]
  split
  · exact Builds.pure hx
  · refine Builds.bind (mapChildren_builds hx fun c hc hl => rewrite_builds hf hl) fun n hn => ?_
    exact hf n hn
  termination_by sizeOf x
  decreasing_by exact sizeOf_lt_of_mem_children hc

end Build

/-! ### Completion handles -/

namespace Backend

open Build

variable {b : Backend} {cell value err call : Expr}

theorem resultValue_builds {t : Ty} (hv : IsLowered value) : Builds (resultValue value t) IsLowered := by
  unfold resultValue
  refine (typeOf_builds value).bind fun _ _ => ?_
  split
  · exact Builds.pure hv
  · exact convert_builds hv

theorem settle_builds (hv : IsLowered value) (hc : IsLowered call) :
    Builds (settle value call) IsLowered := by
  unfold settle
  split
  · exact Builds.pure hc
  · exact block_builds (by simp [hv, hc])

theorem create_builds : Builds b.create IsLowered := by
  cases b <;> exact callLibrary_builds (by simp)

theorem setResult_builds (hc : IsLowered cell) (hv : IsLowered value) :
    Builds (b.setResult cell value) IsLowered := by
  cases b with
  | task t => exact (resultValue_builds hv).bind fun _ h => methodCall_builds hc (by simpa using h)
  | future => exact (methodCall_builds hc (by simp)).bind fun _ h => settle_builds hv h
  | valueTask t =>
    exact (resultValue_builds hv).bind fun _ h => methodCall_builds hc (by simpa using h)
  | valueFuture => exact (callLibrary_builds (by simpa using hc)).bind fun _ h => settle_builds hv h

theorem setException_builds (hc : IsLowered cell) (he : IsLowered err) :
    Builds (b.setException cell err) IsLowered := by
  cases b <;> exact methodCall_builds hc (by simpa using he)

theorem awaitable_builds (hc : IsLowered cell) : Builds (b.awaitable cell) IsLowered := by
  cases b with
  | task t => exact Builds.pure hc
  | future => exact Builds.pure hc
  | valueTask t => exact methodCall_builds hc (by simp)
  | valueFuture =>
    exact (methodCall_builds hc (by simp)).bind fun _ h => callLibrary_builds (by simpa using h)

theorem fromResult_builds (hv : IsLowered value) : Builds (b.fromResult value) IsLowered := by
  cases b with
  | task t => exact (resultValue_builds hv).bind fun _ h => callLibrary_builds (by simpa using h)
  | future => exact (callLibrary_builds (by simp)).bind fun _ h => settle_builds hv h
  | valueTask t => exact (resultValue_builds hv).bind fun _ h => callLibrary_builds (by simpa using h)
  | valueFuture => exact (callLibrary_builds (by simp)).bind fun _ h => settle_builds hv h

theorem fromException_builds (he : IsLowered err) : Builds (b.fromException err) IsLowered := by
  cases b <;> exact callLibrary_builds (by simpa using he)

theorem fastPath_builds {body : Expr} (hb : IsLowered body) : Builds (b.fastPath body) IsLowered := by
  unfold fastPath
  refine (newVar_builds _ _).bind fun ex _ => ?_
  refine (coerce_builds hb).bind fun value hv => ?_
  refine (fromResult_builds hv).bind fun settled hs => ?_
  refine (ref_builds ex).bind fun r hr => ?_
  exact (fromException_builds hr).bind fun failed hf => catchAll_builds hs hf

end Backend

end Resumable
