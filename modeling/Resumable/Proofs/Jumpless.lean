import Resumable.Proofs.Stays

/-!
# `Proofs.Jumpless`: computations that no jump leaves

A jump starts at a goto and passes through trees only: no function lets one out. A call whose operands are
variables therefore never stops with one.

**Contents**
* `Jumpless`: no jump leaves the computation, with instances that follow how it is put together.
* `callOn_jumpless`: method calls of variables.
-/

namespace Resumable

open Resumable.Expr

/-- No jump leaves the computation. -/
class Jumpless (x : Run α) : Prop where
  none : ∀ w l v w', x w ≠ .error (.jump l v) w'

namespace Jumpless

variable {x : Run α}

instance pure (a : α) : Jumpless (Pure.pure a : Run α) := ⟨fun _ _ _ _ h => by cases h⟩

instance get : Jumpless (get : Run World) := ⟨fun _ _ _ _ h => by cases h⟩

instance modifyGet (f : World → α × World) : Jumpless (modifyGet f : Run α) :=
  ⟨fun _ _ _ _ h => by cases h⟩

instance modify (f : World → World) : Jumpless (modify f : Run PUnit) := ⟨fun _ _ _ _ h => by cases h⟩

instance raise (e : Value) : Jumpless (Run.raise e : Run α) := ⟨fun _ _ _ _ h => by cases h⟩

instance panic (p : Panic) : Jumpless (throw (.panic p) : Run α) := ⟨fun _ _ _ _ h => by cases h⟩

instance exhausted : Jumpless (throw .exhausted : Run α) := ⟨fun _ _ _ _ h => by cases h⟩

instance attempt : Jumpless (Run.attempt x) where
  none w l v w' h := by
    unfold Run.attempt at h
    split at h <;> cases h

instance bind {f : α → Run β} [hx : Jumpless x] [hf : ∀ a, Jumpless (f a)] : Jumpless (x >>= f) where
  none w l v w' h := by
    change EStateM.bind x f w = _ at h
    unfold EStateM.bind at h
    split at h
    · exact (hf _).none _ l v w' h
    · rename_i s w'' hrun
      cases h
      exact hx.none _ l v w' hrun

instance ite {c : Prop} [Decidable c] {y : Run α} [hx : Jumpless x] [hy : Jumpless y] :
    Jumpless (if c then x else y) := by
  split
  · exact hx
  · exact hy

instance map {f : α → β} [hx : Jumpless x] : Jumpless (f <$> x) where
  none w l v w' h := by
    change EStateM.map f x w = _ at h
    unfold EStateM.map at h
    split at h
    · cases h
    · rename_i s w'' hrun
      cases h
      exact hx.none _ l v w' hrun

theorem mapM_of {f : γ → Run α} {xs : List γ} (hf : ∀ c ∈ xs, Jumpless (f c)) :
    Jumpless (xs.mapM f) := by
  induction xs with
  | nil =>
    rw [List.mapM_nil]
    infer_instance
  | cons x xs ih =>
    rw [List.mapM_cons]
    have := hf x List.mem_cons_self
    have := ih fun c hc => hf c (List.mem_cons_of_mem _ hc)
    infer_instance

end Jumpless

namespace Run

instance (o : Object) : Jumpless (alloc o) := by unfold alloc; infer_instance

instance (a : Nat) : Jumpless (load a) := by
  unfold load object
  repeat' first | infer_instance | split | refine @Jumpless.bind _ _ _ _ ?_ fun _ => ?_

instance (n : TypeName) (s : Bytes) : Jumpless (newText n s) := by unfold newText; infer_instance

instance (s : String) : Jumpless (newError s) := by unfold newError; infer_instance

instance (s : String) : Jumpless (raiseFault s : Run α) := by unfold raiseFault; infer_instance

instance (s : String) : Jumpless (panicText s : Run α) := by unfold panicText; infer_instance

instance (s : String) : Jumpless (panicMachine s : Run α) := by unfold panicMachine; infer_instance

instance : Jumpless (panicNil : Run α) := by unfold panicNil; infer_instance

instance (v : Value) : Jumpless (message v) := by
  unfold message
  repeat' first | infer_instance | split | refine @Jumpless.bind _ _ _ _ ?_ fun _ => ?_

instance (e : Expr) (msg : String) : Jumpless (unsupported e msg : Run α) := by
  unfold unsupported refuse; infer_instance

instance (v : Value) (t : Ty) : Jumpless (convertPlain v t) := by
  unfold convertPlain
  infer_instance

instance (v : Option Value) (t : Ty) : Jumpless (convertTo v t) := by
  unfold convertTo
  repeat' first | infer_instance | split

instance (v : Option Value) : Jumpless (unwrap v) := by
  unfold unwrap
  repeat' first | infer_instance | split

instance (p : Panic) : Jumpless (recovered p) := by
  unfold recovered
  repeat' first | infer_instance | split

instance (sig : Ty) (args : List (Option Value)) : Jumpless (matchArgs sig args) := by
  unfold matchArgs
  repeat' first
    | infer_instance | split | dsimp only | refine @Jumpless.bind _ _ _ _ ?_ fun _ => ?_
    | refine Jumpless.mapM_of fun _ _ => ?_

/-- No function lets a jump out. -/
instance (e : Expr) (sig : Ty) (args : List (Option Value)) (run : List Value → Run (List Value)) :
    Jumpless (invoke e sig args run) := by
  unfold invoke
  repeat' first
    | infer_instance | split | dsimp only | refine @Jumpless.bind _ _ _ _ ?_ fun _ => ?_

instance (e : Expr) (sig : Ty) (args : List (Option Value)) (run : List Value → Run (List Value)) :
    Jumpless (invokeAs e sig args run) := by unfold invokeAs; infer_instance

instance (recv : Value) (name : String) : Jumpless (methodOf recv name) := by
  unfold methodOf
  repeat' first | infer_instance | split | dsimp only

instance (sig : Ty) (k : Nat) : Jumpless (paramType? sig k) := by
  unfold paramType?
  repeat' first | infer_instance | split

section
variable {c : Calls} {e : Expr} {env : Env}

theorem evalArgs_jumpless {args : List Expr} (h : ∀ a ∈ args, Jumpless (c.eval a env)) (sig : Ty) :
    Jumpless (evalArgs c sig env args) := by
  unfold evalArgs
  refine Jumpless.mapM_of fun ⟨a, k⟩ hak => ?_
  have := h a (List.fst_mem_of_mem_zipIdx hak)
  dsimp only
  unfold evalAs
  repeat' first | infer_instance | split | refine @Jumpless.bind _ _ _ _ ?_ fun _ => ?_

/-- A method call raises no jump of its own. -/
theorem callOn_jumpless {receiver : Expr} {name : String} {args : List Expr}
    (hr : Jumpless (c.eval receiver env)) (ha : ∀ a ∈ args, Jumpless (c.eval a env))
    (hn : name ≠ "OnCompleted") : Jumpless (callOn c e receiver name args env) := by
  have := fun sig => evalArgs_jumpless ha sig
  have hwatch : ∀ run : Run (Option Value), watchHanding name args env run = run := by
    intro run
    unfold watchHanding
    split
    · exact absurd rfl hn
    · rfl
  unfold callOn
  simp only [hwatch]
  repeat' first
    | infer_instance | split | dsimp only | refine @Jumpless.bind _ _ _ _ ?_ fun _ => ?_

end

/-- A read of a variable never jumps. -/
theorem eval_var_jumpless {x : Expr} (h : x.asVar?.isSome = true) (n : Nat) (env : Env) :
    Jumpless ((Calls.level n).eval x env) := by
  cases n with
  | zero => exact Jumpless.exhausted
  | succ n =>
    show Jumpless (evalNode (Calls.level n) x env)
    unfold asVar? at h
    split at h
    · unfold evalNode slotAt
      dsimp only
      repeat' first | infer_instance | split
    · cases h

end Run

end Resumable
