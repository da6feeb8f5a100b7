import Resumable.Lower.Optimize
import Resumable.Lower.Rescope
import Resumable.Lower.Visit
import Resumable.Proofs.Steps

/-!
# `Proofs.Supplies`: numbers are handed out in order

A construction takes names and identities from a supply, which never gives one back. `Onward` says so of a
construction; instance search follows the way it is put together.
-/

namespace Resumable

/-- The supply before numbers were handed out, and after. -/
structure Supply.Below (q q' : Supply) : Prop where
  names : q.names ≤ q'.names
  refs : q.refs ≤ q'.refs

namespace Supply.Below

theorem refl (q : Supply) : Below q q := ⟨Nat.le_refl _, Nat.le_refl _⟩

theorem trans {q q' q'' : Supply} (h : Below q q') (h' : Below q' q'') : Below q q'' :=
  ⟨Nat.le_trans h.names h'.names, Nat.le_trans h.refs h'.refs⟩

end Supply.Below

/-- The construction gives no number back. -/
class Onward (x : Build α) : Prop where
  below : ∀ q a q', x q = .ok a q' → q.Below q'

namespace Onward

variable {x y : Build α}

instance pure (a : α) : Onward (pure a : Build α) := ⟨fun q _ _ h => by cases h; exact .refl q⟩

instance throw (f : Fault) : Onward (throw f : Build α) := ⟨fun _ _ _ h => by cases h⟩

instance bind {f : α → Build β} [hx : Onward x] [hf : ∀ a, Onward (f a)] : Onward (x >>= f) where
  below q b q' h := by
    change EStateM.bind x f q = _ at h
    unfold EStateM.bind at h
    split at h
    · rename_i a q₁ hrun
      exact (hx.below q a q₁ hrun).trans ((hf a).below q₁ b q' h)
    · cases h

instance map {f : α → β} [hx : Onward x] : Onward (f <$> x) := by
  rw [← bind_pure_comp]
  infer_instance

instance lift [hx : Onward x] : Onward (liftM x : Build α) := hx

instance ite {c : Prop} [Decidable c] [hx : Onward x] [hy : Onward y] :
    Onward (if c then x else y) := by
  split
  · exact hx
  · exact hy

theorem mapM_of_mem {f : γ → Build α} {xs : List γ} (hf : ∀ c ∈ xs, Onward (f c)) : Onward (xs.mapM f) := by
  induction xs with
  | nil =>
    rw [List.mapM_nil]
    infer_instance
  | cons c cs ih =>
    rw [List.mapM_cons]
    have := hf c List.mem_cons_self
    have := ih fun c hc => hf c (List.mem_cons_of_mem _ hc)
    infer_instance

instance mapM {f : γ → Build α} {xs : List γ} [hf : ∀ c, Onward (f c)] : Onward (xs.mapM f) :=
  mapM_of_mem fun c _ => hf c

end Onward

namespace Build

instance : Onward freshRef := ⟨fun _ _ _ h => by cases h; exact ⟨Nat.le_refl _, Nat.le_succ _⟩⟩

instance (name : String) (t : Ty) : Onward (newVar name t) :=
  ⟨fun _ _ _ h => by cases h; exact ⟨Nat.le_succ _, Nat.le_refl _⟩⟩

instance (name : String) (t : Ty) : Onward (newLabel name t) :=
  ⟨fun _ _ _ h => by cases h; exact ⟨Nat.le_succ _, Nat.le_refl _⟩⟩

instance (t : Ty) (d : Data Expr) : Onward (node t d) :=
  ⟨fun _ _ _ h => by cases h; exact ⟨Nat.le_refl _, Nat.le_succ _⟩⟩

instance (e : Expr) : Onward (typeOf e) := by unfold typeOf; infer_instance

instance (e : Expr) : Onward (dataOf e) := by unfold dataOf; split <;> infer_instance

instance (e : Expr) (d : Data Expr) : Onward (withData e d) := by unfold withData; split <;> infer_instance

instance (e : Expr) (t : Ty) : Onward (withType e t) := by unfold withType; split <;> infer_instance

instance (v : Option Value) : Onward (const v) := by unfold const; infer_instance

instance (v : Option Value) (t : Ty) : Onward (constOf v t) := by unfold constOf; infer_instance

instance (n : Int) : Onward (constInt n) := by unfold constInt; infer_instance

instance (b : Bool) : Onward (constBool b) := by unfold constBool; infer_instance

instance (t : Ty) : Onward (default t) := by unfold default; infer_instance

instance : Onward empty := by unfold empty; infer_instance

instance (v : Var) : Onward (ref v) := by unfold ref; infer_instance

instance (t : Ty) (vars : List Var) (xs : List Expr) : Onward (typedBlock t vars xs) := by
  unfold typedBlock; infer_instance

instance (vars : List Var) (xs : List Expr) : Onward (block vars xs) := by
  unfold block; split <;> infer_instance

instance (target value : Expr) : Onward (assign target value) := by
  unfold assign assignWith; infer_instance

instance (op : BinaryOp) (x y : Expr) : Onward (binary op x y) := by unfold binary; infer_instance

instance (x : Expr) : Onward (not x) := by unfold not; infer_instance

instance (x : Expr) (t : Ty) : Onward (convert x t) := by unfold convert; infer_instance

instance (x : Expr) (t : Ty) : Onward (throwAs x t) := by unfold throwAs; infer_instance

instance (x : Expr) : Onward (raise x) := by unfold raise; infer_instance

instance (x : Expr) (t : Ty) : Onward (typeIs x t) := by unfold typeIs; infer_instance

instance (t : Ty) (x y z : Expr) : Onward (typedCondition t x y z) := by
  unfold typedCondition; infer_instance

instance (x y z : Expr) : Onward (ifThenElse x y z) := by unfold ifThenElse; infer_instance

instance (x y : Expr) : Onward (ifThen x y) := by unfold ifThen; infer_instance

instance (t : Ty) (x y : Expr) (comparer : Option Native) (cases : List (List Expr × Expr)) :
    Onward (switch t x y comparer cases) := by unfold switch; infer_instance

instance (x : Expr) (brk cont : Option Label) : Onward (loop x brk cont) := by
  unfold loop; infer_instance

instance (x : Expr) (v : Var) (y : Expr) : Onward (catchAll x v y) := by
  unfold catchAll protect; infer_instance

instance (k : GotoKind) (l : Label) (x : Expr) : Onward (jump k l x) := by unfold jump; infer_instance

instance (t : Ty) : Onward (resultOf t) := by unfold resultOf; split <;> infer_instance

instance (x : Expr) (xs : List Expr) : Onward (call x xs) := by unfold call; infer_instance

instance (f : Value) (xs : List Expr) : Onward (callFunc f xs) := by unfold callFunc; infer_instance

instance (f : Library) (xs : List Expr) : Onward (callLibrary f xs) := by
  unfold callLibrary; infer_instance

instance (x : Expr) (name : String) (xs : List Expr) : Onward (methodCall x name xs) := by
  unfold methodCall
  refine @Onward.bind _ _ _ _ inferInstance fun t => ?_
  split <;> infer_instance

instance (x : Expr) (name : String) : Onward (field x name) := by
  unfold field
  dsimp only
  repeat' first | infer_instance | split | refine @Onward.bind _ _ _ _ ?_ fun _ => ?_

instance (shape : Ty) (name : String) (kind : LambdaKind) (fallible : Bool) (params : List Var)
    (x : Expr) : Onward (lambdaOf shape name kind fallible params x) := by
  unfold lambdaOf; infer_instance

instance (name : String) (fallible : Bool) (params : List Var) (x : Expr) :
    Onward (lambda name fallible params x) := by unfold lambda; infer_instance

end Build

namespace Expr

instance (e : Expr) : Onward e.lambdaResult := by unfold lambdaResult; split <;> infer_instance

instance (e : Expr) (t : Ty) : Onward (e.coerce t) := by unfold coerce; infer_instance

theorem onward_mapChildren (e : Expr) {f : Expr → Build Expr} (hf : ∀ c ∈ e.children, Onward (f c)) :
    Onward (e.mapChildren fun c _ => f c) := by
  rw [mapChildren_eq]
  have := Onward.mapM_of_mem hf
  repeat' first | infer_instance | split

theorem onward_rewrite (f : Expr → Build Expr) (hf : ∀ n, Onward (f n)) (e : Expr) :
    Onward (e.rewrite f) := by
  rw [rewrite]
  split
  · infer_instance
  · have := onward_mapChildren e (f := rewrite f) fun c hc => onward_rewrite f hf c
    infer_instance
  termination_by sizeOf e
  decreasing_by exact sizeOf_lt_of_mem_children hc

end Expr

namespace Backend

instance (value : Expr) (t : Ty) : Onward (resultValue value t) := by unfold resultValue; infer_instance

instance (value call : Expr) : Onward (settle value call) := by unfold settle; infer_instance

instance (b : Backend) : Onward b.create := by cases b <;> (unfold create; infer_instance)

instance (b : Backend) (cell value : Expr) : Onward (b.setResult cell value) := by
  cases b <;> (unfold setResult; infer_instance)

instance (b : Backend) (cell err : Expr) : Onward (b.setException cell err) := by
  cases b <;> (unfold setException; infer_instance)

instance (b : Backend) (cell : Expr) : Onward (b.awaitable cell) := by
  cases b <;> (unfold awaitable; infer_instance)

instance (b : Backend) (value : Expr) : Onward (b.fromResult value) := by
  cases b <;> (unfold fromResult; infer_instance)

instance (b : Backend) (err : Expr) : Onward (b.fromException err) := by
  cases b <;> (unfold fromException; infer_instance)

instance (b : Backend) (body : Expr) : Onward (b.fastPath body) := by unfold fastPath; infer_instance

end Backend

/-! ### Passes -/

namespace Split

theorem onward_bindRethrow (v : Var) (e : Expr) : Onward (bindRethrow v e) := by
  fun_induction bindRethrow v e with
  | case4 i r t body hs fin fault ihb ihf => infer_instance
  | case5 i r t d _ _ _ ih => exact Expr.onward_mapChildren _ fun c hc => ih c (Expr.sizeOf_lt_of_mem_children hc)
  | _ => infer_instance

instance (v : Var) (e : Expr) : Onward (bindRethrow v e) := onward_bindRethrow v e

instance (copies : List (Var × Var)) (e : Expr) : Onward (substitute copies e) := by
  unfold substitute
  split
  · infer_instance
  · refine Expr.onward_rewrite _ (fun n => ?_) e
    repeat' first | infer_instance | split

instance (h : Catch) (ex : Var) : Onward (bindCaught h ex) := by
  unfold bindCaught
  split <;> infer_instance

instance (h : Catch) (ex skip : Var) : Onward (filterGuard h ex skip) := by
  unfold filterGuard; infer_instance

instance (comparer : Option Native) (value test : Expr) : Onward (matchTest comparer value test) := by
  unfold matchTest
  split <;> infer_instance

end Split

theorem Scopes.Placement.onward_apply (p : Scopes.Placement) (e : Expr) : Onward (p.apply e) := by
  rw [apply]
  have := Expr.onward_mapChildren e (f := p.apply) fun c hc => onward_apply p c
  refine @Onward.bind _ _ _ _ this fun e' => ?_
  repeat' first | infer_instance | split
  termination_by sizeOf e
  decreasing_by exact Expr.sizeOf_lt_of_mem_children hc

instance (ignore : List Var) (e : Expr) : Onward (e.rescope ignore) := by
  unfold Expr.rescope
  exact Scopes.Placement.onward_apply _ e

namespace Expr

instance (t : Ty) (xs : List Expr) : Onward (flatten t xs) := by
  induction xs with
  | nil => exact Onward.pure _
  | cons x rest ih =>
    unfold flatten
    repeat' first | infer_instance | split | refine @Onward.bind _ _ _ _ ?_ fun _ => ?_

instance (t : Ty) (xs : List Expr) : Onward (truncate t xs) := by
  induction xs with
  | nil => exact Onward.pure _
  | cons x rest ih =>
    unfold truncate
    infer_instance

instance (vars : List Var) (all xs : List Expr) : Onward (collapseStores vars all xs) := by
  fun_induction collapseStores vars all xs <;>
    infer_instance

instance (t : Ty) (vars : List Var) (xs : List Expr) : Onward (dropTrailingStore t vars xs) := by
  unfold dropTrailingStore
  repeat' first | infer_instance | split

instance (t : Ty) (b : BlockParts) : Onward (stepBlock t b) := by
  unfold stepBlock
  repeat' first | infer_instance | split | refine @Onward.bind _ _ _ _ ?_ fun _ => ?_

instance (t : Ty) (fuel : Nat) (b : BlockParts) : Onward (settleBlock t fuel b) := by
  induction fuel generalizing b with
  | zero => exact Onward.pure b
  | succ fuel ih =>
    unfold settleBlock
    repeat' first | infer_instance | split | refine @Onward.bind _ _ _ _ ?_ fun _ => ?_

instance (e : Expr) (vars : List Var) (xs : List Expr) : Onward (optimizeBlock e vars xs) := by
  unfold optimizeBlock
  repeat' first | infer_instance | split | refine @Onward.bind _ _ _ _ ?_ fun _ => ?_

instance (alike : Option Value → Option Value → Bool) (e test a b : Expr) :
    Onward (mergeArms alike e test a b) := by
  unfold mergeArms
  repeat' first | infer_instance | split

instance (alike : Option Value → Option Value → Bool) (e : Expr) : Onward (e.optimize alike) := by
  unfold optimize
  refine onward_rewrite _ (fun n => ?_) e
  split <;> infer_instance

end Expr

end Resumable
