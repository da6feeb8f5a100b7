import Resumable.Run.Settle

/-!
# `Proofs.Walks`: what whatever runs does to a world

Library functions and methods reach variables, closures and the loop in few ways: they evaluate, call or
run something, they post a callback or arm a timer, and they leave the footprints of cells. The evaluator
declares and stores variables and makes closures besides. So a relation between worlds that these steps
keep, one after the other, is kept by whatever runs. `Runs` is a class, so that instance search follows the
way a computation is put together.

**Contents**
* `Walk`, `Roam`: relations that the steps of the library keep, and those of the evaluator.
* `Runs`: the computation does to every world what the relation says, with a rule for every way to build a
  computation.
* `CallsRun`, `CallsRoam`: the ways through which a part of the evaluator reaches the others.
* Instances for the library, the functions behind a tree and the evaluator.
* `Calls.level_roams`: so it is with every amount of fuel.
-/

namespace Resumable

/-- The world that a computation leaves, whether it returns or stops. -/
def Run.left (x : Run α) (w : World) : World :=
  match x w with
  | .ok _ w' => w'
  | .error _ w' => w'

namespace Run

theorem bind_eq (x : Run α) (f : α → Run β) (w : World) :
    (x >>= f) w =
      match x w with
      | .ok r v => f r v
      | .error s v => .error s v := by
  change EStateM.bind x f w = _
  unfold EStateM.bind
  cases x w <;> rfl

theorem bind_eq_ok {x : Run α} {f : α → Run β} {b : β} {w w' : World} :
    (x >>= f) w = .ok b w' ↔ ∃ r v, x w = .ok r v ∧ f r v = .ok b w' := by
  rw [bind_eq]
  cases x w <;> simp [and_assoc]

theorem left_bind (x : Run α) (f : α → Run β) (w : World) :
    (x >>= f).left w = match x w with
      | .ok a w' => (f a).left w'
      | .error _ w' => w' := by
  unfold left
  rw [bind_eq]
  cases x w <;> rfl

theorem left_ok {x : Run α} {w w' : World} {a : α} (h : x w = .ok a w') : x.left w = w' := by
  unfold Run.left
  rw [h]

theorem left_error {x : Run α} {w w' : World} {s : Stop} (h : x w = .error s w') : x.left w = w' := by
  unfold Run.left
  rw [h]

/-- One turn, and then the others. -/
theorem iterate_succ (step : σ → Run (σ ⊕ α)) (n : Nat) (s : σ) :
    Run.iterate step (n + 1) s = step s >>= fun r => r.elim (Run.iterate step n) pure := by
  funext w
  show _ = EStateM.bind _ _ w
  rw [Run.iterate, EStateM.bind]
  dsimp only
  cases step s w with
  | ok r w' => cases r <;> rfl
  | error e w' => rfl

end Run

/-! ### Relations -/

/-- A footprint of a cell or of the fuel, which is about no variable and no closure. -/
def Footprint.ofCell : Footprint → Bool
  | .offered _ _ _ _ | .registered _ _ | .resumed _ _ | .read _ _ _ _ | .completed _ _ _ | .failing _ _ | .cut => true
  | _ => false

/-- The world with one more event on its trail. -/
def World.add (w : World) (e : Footprint) : World := { w with trail := e :: w.trail }

/-- The world in which the loop has changed. -/
def World.turn (w : World) (f : Loop → Loop) : World := { w with loop := w.loop.map f }

/-- Two worlds that agree on variables, closures, the trail and the loop. -/
structure Alongside (w w' : World) : Prop where
  slots : w'.slots = w.slots
  closures : w'.closures = w.closures
  trail : w'.trail = w.trail
  loop : w'.loop = w.loop

/-- A world later on: footprints and closures were added. -/
structure Later (w w' : World) : Prop where
  trail : w.trail <:+ w'.trail
  closures : ∀ (k : Nat) κ, w.closures[k]? = some κ → w'.closures[k]? = some κ

theorem Later.refl (w : World) : Later w w := ⟨List.suffix_refl _, fun _ _ h => h⟩

theorem Later.trans {w w' w'' : World} (h : Later w w') (h' : Later w' w'') : Later w w'' :=
  ⟨h.trail.trans h'.trail, fun k κ hk => h'.closures k κ (h.closures k κ hk)⟩

/-- What the steps of the library do to a world, one after the other. -/
class Walk (R : World → World → Prop) : Prop where
  same : ∀ {w w'}, Alongside w w' → R w w'
  post : ∀ w k, R w (w.turn (·.post k))
  schedule : ∀ w ms k, R w (w.turn (·.schedule ms k))
  mark : ∀ w (f : Footprint), f.ofCell = true → R w (w.add f)
  trans : ∀ {w w' w''}, R w w' → R w' w'' → R w w''

/-- What the steps of the evaluator do to a world, one after the other. -/
class Roam (R : World → World → Prop) : Prop extends Walk R where
  later : ∀ {w w'}, Later w w' → w'.loop = w.loop → R w w'

/-- The computation does to every world what the relation says. -/
class Runs (R : World → World → Prop) (x : Run α) : Prop where
  left : ∀ w, R w (x.left w)

namespace Runs

section
variable {R : World → World → Prop} {x : Run α}

/-- What a computation leaves decides what it does. -/
theorem of_left {y : Run β} (hx : Runs R x) (h : ∀ w, y.left w = x.left w) : Runs R y where
  left w := by
    rw [h]
    exact hx.left w

theorem mono {R' : World → World → Prop} (hx : Runs R x) (h : ∀ w w', R w w' → R' w w') : Runs R' x :=
  ⟨fun w => h _ _ (hx.left w)⟩

end

variable {R : World → World → Prop} [Walk R] {x y : Run α}

theorem of_alongside (h : ∀ w, Alongside w (x.left w)) : Runs R x := ⟨fun w => Walk.same (h w)⟩

instance pure (a : α) : Runs R (pure a : Run α) := of_alongside fun _ => ⟨rfl, rfl, rfl, rfl⟩

instance throw (s : Stop) : Runs R (throw s : Run α) := of_alongside fun _ => ⟨rfl, rfl, rfl, rfl⟩

instance get : Runs R (get : Run World) := of_alongside fun _ => ⟨rfl, rfl, rfl, rfl⟩

/-- Changing anything but variables, closures, the trail and the loop. -/
instance modifyGet {g : World → α} {store : World → Array Object} {log : World → Array Bytes}
    {pools : World → List (Ty × Pool)} {consumers : World → Array Consumer}
    {scripts : World → Array Script} {scriptRuns : World → Array (Nat × Nat)} :
    Runs R (modifyGet fun w => (g w, ⟨store w, w.slots, w.closures, w.trail, log w, w.loop, pools w,
      consumers w, scripts w, scriptRuns w⟩) : Run α) :=
  of_alongside fun _ => ⟨rfl, rfl, rfl, rfl⟩

instance modify {store : World → Array Object} {log : World → Array Bytes}
    {pools : World → List (Ty × Pool)} {consumers : World → Array Consumer}
    {scripts : World → Array Script} {scriptRuns : World → Array (Nat × Nat)} :
    Runs R (modify fun w => ⟨store w, w.slots, w.closures, w.trail, log w, w.loop, pools w,
      consumers w, scripts w, scriptRuns w⟩ : Run PUnit) :=
  of_alongside fun _ => ⟨rfl, rfl, rfl, rfl⟩

instance bind {f : α → Run β} [hx : Runs R x] [hf : ∀ a, Runs R (f a)] : Runs R (x >>= f) where
  left w := by
    have h := hx.left w
    rw [Run.left_bind]
    split
    · rename_i a w' hrun
      rw [Run.left_ok hrun] at h
      exact Walk.trans h ((hf a).left w')
    · rename_i s w' hrun
      rwa [Run.left_error hrun] at h

instance map {f : α → β} [hx : Runs R x] : Runs R (f <$> x) :=
  hx.of_left fun w => by
    show (match EStateM.map f x w with | .ok _ w' => w' | .error _ w' => w') = _
    unfold EStateM.map Run.left
    cases x w <;> rfl

instance discard [hx : Runs R x] : Runs R (Functor.discard x) := map

instance ite {c : Prop} [Decidable c] [hx : Runs R x] [hy : Runs R y] :
    Runs R (if c then x else y) := by
  split
  · exact hx
  · exact hy

instance attempt [hx : Runs R x] : Runs R (Run.attempt x) :=
  hx.of_left fun w => by
    simp only [Run.attempt, Run.left]
    cases x w <;> rfl

instance giveUp : Runs R (Run.giveUp : Run α) where
  left w := Walk.mark w .cut rfl

instance settleOn (r : Except Stop α) : Runs R (Run.settleOn r) := by
  unfold Run.settleOn
  split <;> infer_instance

instance elim {f : σ → Run α} {g : τ → Run α} [hf : ∀ a, Runs R (f a)] [hg : ∀ b, Runs R (g b)]
    (r : σ ⊕ τ) : Runs R (r.elim f g) := by
  cases r with
  | inl a => exact hf a
  | inr b => exact hg b

instance iterate {step : σ → Run (σ ⊕ α)} [hstep : ∀ s, Runs R (step s)] (n : Nat)
    (s : σ) : Runs R (Run.iterate step n s) := by
  induction n generalizing s with
  | zero => exact giveUp
  | succ n ih =>
    rw [Run.iterate_succ]
    infer_instance

instance mapM {f : γ → Run α} {xs : List γ} [hf : ∀ c, Runs R (f c)] : Runs R (xs.mapM f) := by
  induction xs with
  | nil =>
    rw [List.mapM_nil]
    infer_instance
  | cons x xs ih =>
    rw [List.mapM_cons]
    infer_instance

instance forM {f : γ → Run PUnit} {xs : List γ} [hf : ∀ c, Runs R (f c)] : Runs R (xs.forM f) := by
  induction xs with
  | nil => exact pure _
  | cons x xs ih =>
    show Runs R (f x >>= fun _ => xs.forM f)
    infer_instance

instance foldlM {f : β → γ → Run β} {xs : List γ} {b : β} [hf : ∀ b c, Runs R (f b c)] :
    Runs R (xs.foldlM f b) := by
  induction xs generalizing b with
  | nil => exact pure _
  | cons x xs ih =>
    rw [List.foldlM_cons]
    infer_instance

instance anyM {f : γ → Run Bool} {xs : List γ} [hf : ∀ c, Runs R (f c)] : Runs R (xs.anyM f) := by
  induction xs with
  | nil => exact pure _
  | cons x xs ih =>
    show Runs R (f x >>= fun b => match b with | true => Pure.pure true | false => xs.anyM f)
    refine @bind _ _ _ _ _ _ _ fun b => ?_
    cases b
    · exact ih
    · exact pure _

end Runs

/-- What a part of the library reaches through the evaluator does what the relation says. -/
class CallsRun (R : World → World → Prop) (c : Calls) : Prop where
  call : ∀ (f : Value) (args : List Value), Runs R (c.call f args)
  exec : ∀ (k : Callback), Runs R (c.exec k)

/-- What a part of the evaluator reaches through the others does what the relation says. -/
class CallsRoam (R : World → World → Prop) (c : Calls) : Prop extends CallsRun R c where
  eval : ∀ (e : Expr) (env : Env), Runs R (c.eval e env)

attribute [instance] CallsRun.call CallsRun.exec CallsRoam.eval

namespace Run

-- Instance search follows binds and conditionals. A match is split first, and one under a binder is
-- reached by the rule for binds.

section
variable {R : World → World → Prop} [Walk R]

/-- Posting a callback. -/
instance (k : Callback) : Runs R (modifyLoop (·.post k)) := ⟨fun w => Walk.post w k⟩

/-- Arming a timer. -/
instance (ms : UInt64) (k : Callback) : Runs R (modifyLoop (·.schedule ms k)) :=
  ⟨fun w => Walk.schedule w ms k⟩

instance (a : Nat) (err value : Option Value) (taken : Bool) : Runs R (record (.offered a err value taken)) :=
  ⟨fun w => Walk.mark w _ rfl⟩

instance (a : Nat) (k : Waker) : Runs R (record (.registered a k)) := ⟨fun w => Walk.mark w _ rfl⟩

instance (a : Nat) (k : Waker) : Runs R (record (.resumed a k)) := ⟨fun w => Walk.mark w _ rfl⟩

instance (a : Nat) (version : UInt32) (r : Value × Option Value) (recycled : Bool) :
    Runs R (record (.read a version r recycled)) :=
  ⟨fun w => Walk.mark w _ rfl⟩

instance (v : Nat) (scope : Env) (cell : Value) : Runs R (record (.completed v scope cell)) :=
  ⟨fun w => Walk.mark w _ rfl⟩

instance (v : Nat) (scope : Env) : Runs R (record (.failing v scope)) := ⟨fun w => Walk.mark w _ rfl⟩

instance (e : Expr) (env : Env) (cell : Value) : Runs R (recordCell e env (.completed · · cell)) := by
  unfold recordCell
  split <;> infer_instance

instance (e : Expr) (env : Env) : Runs R (recordCell e env .failing) := by
  unfold recordCell
  split <;> infer_instance

instance (name : String) (receiver : Expr) (env : Env) : Runs R (noteFailing name receiver env) := by
  unfold noteFailing
  infer_instance

instance (cell? : Option (Expr × Value)) (env : Env) (run : Run α) [Runs R run] :
    Runs R (watchCompleting cell? env run) := by
  unfold watchCompleting noteCompleted
  refine @Runs.bind _ _ _ _ _ _ inferInstance fun _ => @Runs.bind _ _ _ _ _ _ ?_ fun _ => inferInstance
  split <;> infer_instance

/-! ### The store and the loop -/

instance (o : Object) : Runs R (alloc o) := by unfold alloc; infer_instance

instance (a : Nat) : Runs R (object a) := by unfold object; infer_instance

instance (a : Nat) (o : Object) : Runs R (setObject a o) := by unfold setObject; infer_instance

instance (a : Nat) : Runs R (load a) := by
  unfold load
  repeat' first | infer_instance | split | refine @Runs.bind _ _ _ _ _ _ ?_ fun _ => ?_

instance (a : Nat) (v : Value) : Runs R (store a v) := by unfold store; infer_instance

instance (n : TypeName) (s : Bytes) : Runs R (newText n s) := by unfold newText; infer_instance

instance (s : String) : Runs R (newError s) := by unfold newError; infer_instance

instance (e : Value) : Runs R (raise e : Run α) := by unfold raise; infer_instance

instance (s : String) : Runs R (raiseText s : Run α) := by unfold raiseText; infer_instance

instance (s : String) : Runs R (raiseFault s : Run α) := by unfold raiseFault; infer_instance

instance (s : String) : Runs R (panicText s : Run α) := by unfold panicText; infer_instance

instance (s : String) : Runs R (panicError s : Run α) := by unfold panicError; infer_instance

instance (s : String) : Runs R (panicMachine s : Run α) := by unfold panicMachine; infer_instance

instance : Runs R (panicNil : Run α) := by unfold panicNil; infer_instance

instance (line : Bytes) : Runs R (note line) := by unfold note; infer_instance

instance (k : Callback) : Runs R (post k) := by unfold post; infer_instance

instance (ms : UInt64) (k : Callback) : Runs R (schedule ms k) := by unfold schedule; infer_instance

instance : Runs R (loopBinding) := by unfold loopBinding; infer_instance

instance (v : Value) : Runs R (message v) := by
  unfold message
  repeat' first | infer_instance | split | refine @Runs.bind _ _ _ _ _ _ ?_ fun _ => ?_

instance (es : List Value) : Runs R (joinErrors es) := by unfold joinErrors; infer_instance

/-! ### Conversions and operators -/

instance (v : Value) (t : Ty) : Runs R (convertPlain v t) := by
  unfold convertPlain
  infer_instance

instance (v : Option Value) (t : Ty) : Runs R (convertTo v t) := by
  unfold convertTo
  repeat' split
  all_goals infer_instance

instance (v : Option Value) : Runs R (unwrap v) := by
  unfold unwrap
  split <;> infer_instance

instance (op : String) (t : Ty) : Runs R (undefinedOn op t : Run α) := by unfold undefinedOn; infer_instance

instance (v : Value) (t : Ty) : Runs R (convertNumber v t) := by
  unfold convertNumber
  infer_instance

instance (l r : Value) : Runs R (alignNumber l r) := by
  unfold alignNumber
  infer_instance

instance (l r : Option Value) : Runs R (equal l r) := by
  unfold equal
  repeat' first | infer_instance | split | refine @Runs.bind _ _ _ _ _ _ ?_ fun _ => ?_

instance (op : BinaryOp) (l r : Option Value) : Runs R (operands op l r) := by
  unfold operands
  infer_instance

instance (r : Value) : Runs R (shiftCount r) := by
  unfold shiftCount
  split <;> infer_instance

instance (op : BinaryOp) (t : Ty) (a : Int) (r : Value) : Runs R (integerOp op t a r) := by
  unfold integerOp
  dsimp only
  repeat' split
  all_goals infer_instance

instance (op : BinaryOp) (t : Ty) (a b : Float) : Runs R (floatOp op t a b) := by
  unfold floatOp
  split <;> infer_instance

instance (op : BinaryOp) (t : Ty) (a b : Bytes) : Runs R (textOp op t a b) := by
  unfold textOp
  repeat' split
  all_goals infer_instance

instance (op : BinaryOp) (a b : Bool) : Runs R (boolOp op a b) := by
  unfold boolOp
  split <;> infer_instance

instance (op : BinaryOp) (t : Ty) (r : Value) : Runs R (binaryOp.badCount op t r) := by
  unfold binaryOp.badCount
  infer_instance

instance (op : BinaryOp) (l r : Option Value) : Runs R (binaryOp op l r) := by
  unfold binaryOp
  repeat' first | infer_instance | split | refine @Runs.bind _ _ _ _ _ _ ?_ fun _ => ?_

instance (op : UnaryOp) (v : Option Value) : Runs R (unaryOp op v) := by
  unfold unaryOp
  repeat' first | infer_instance | split | refine @Runs.bind _ _ _ _ _ _ ?_ fun _ => ?_

/-! ### Cells -/

variable {c : Calls} [CallsRun R c]

instance (a : Nat) : Runs R (completion a) := by
  unfold completion
  repeat' first | infer_instance | split | refine @Runs.bind _ _ _ _ _ _ ?_ fun _ => ?_

instance (t : Option Ty) (b : Binding) : Runs R (newCell t b) := by unfold newCell; infer_instance

instance (v : Value) : Runs R (addressOf v) := by
  unfold addressOf
  split <;> infer_instance

instance (a : Nat) (k : Waker) : Runs R (resume c a k) := by
  unfold resume
  repeat' first | infer_instance | split | refine @Runs.bind _ _ _ _ _ _ ?_ fun _ => ?_

instance (a : Nat) (err value : Option Value) : Runs R (finish c a err value) := by
  unfold finish; infer_instance

instance (a : Nat) (v : Option Value) : Runs R (complete c a v) := by unfold complete; infer_instance

instance (a : Nat) (e : Option Value) : Runs R (fail c a e) := by
  unfold fail
  split <;> infer_instance

instance (a : Nat) (k : Callback) (inline : Bool) : Runs R (onCompleted c a k inline) := by
  unfold onCompleted
  infer_instance

instance (a : Nat) (t : Ty) : Runs R (outcome a t) := by unfold outcome; infer_instance

instance (t : Option Ty) (ms : UInt64) (v : Option Value) : Runs R (after t ms v) := by
  unfold after; infer_instance

instance (t : Option Ty) (ms : UInt64) (e : Option Value) : Runs R (failAfter t ms e) := by
  unfold failAfter; infer_instance

instance : Runs R (yieldTurn) := by unfold yieldTurn; infer_instance

instance (t : Ty) : Runs R (pool t) := by unfold pool; infer_instance

instance (t : Ty) (p : Pool) : Runs R (setPool t p) := by unfold setPool; infer_instance

instance (t : Ty) : Runs R (rent t) := by
  unfold rent
  repeat' first | infer_instance | split | refine @Runs.bind _ _ _ _ _ _ ?_ fun _ => ?_

instance (t : Ty) (a : Nat) : Runs R (handleOf t a) := by unfold handleOf; infer_instance

instance (a : Nat) (version : UInt32) (r : Value × Option Value) (recycled : Bool) :
    Runs R (answer a version r recycled) := by unfold answer; infer_instance

instance (t : Ty) (a : Nat) (version : UInt32) : Runs R (consume t a version) := by
  unfold consume; infer_instance

instance (v : Value) : Runs R (handleDone v) := by
  unfold handleDone
  repeat' split
  all_goals infer_instance

instance (t : Ty) (v : Value) : Runs R (handleResult t v) := by
  unfold handleResult
  repeat' split
  all_goals infer_instance

instance (v : Value) (k : Callback) : Runs R (handleOnCompleted c v k) := by
  unfold handleOnCompleted
  split <;> infer_instance

instance (k : Callback) : Runs R (execCallback c k) := by
  unfold execCallback
  split <;> infer_instance

/-! ### Sequences -/

instance (a : Nat) : Runs R (slotValue a) := by
  unfold slotValue
  repeat' first | infer_instance | split | refine @Runs.bind _ _ _ _ _ _ ?_ fun _ => ?_

instance (a : Nat) (v : Option Value) : Runs R (setSlot a v) := by unfold setSlot; infer_instance

instance (a : Nat) : Runs R (enumerator a) := by
  unfold enumerator
  repeat' first | infer_instance | split | refine @Runs.bind _ _ _ _ _ _ ?_ fun _ => ?_

instance (seq : Value) : Runs R (enumerate c seq) := by
  unfold enumerate
  repeat' first | infer_instance | split | refine @Runs.bind _ _ _ _ _ _ ?_ fun _ => ?_

instance (e : Enumerator) (dispose : Bool) : Runs R (callStep c e dispose) := by
  unfold callStep
  repeat' first | infer_instance | split | refine @Runs.bind _ _ _ _ _ _ ?_ fun _ => ?_

instance (a : Nat) : Runs R (moveNext c a) := by
  unfold moveNext
  infer_instance

instance (a : Nat) : Runs R (currentOf a) := by unfold currentOf; infer_instance

instance (a : Nat) : Runs R (close c a) := by
  unfold close
  infer_instance

instance (a : Nat) : Runs R (closeOrPanic c a) := by
  unfold closeOrPanic
  repeat' first | infer_instance | split | refine @Runs.bind _ _ _ _ _ _ ?_ fun _ => ?_

instance (en : Nat) (yield : Value) : Runs R (feedPairs c en yield) := by
  unfold feedPairs
  refine @Runs.iterate _ _ _ _ _ (fun _ => ?_) _ _
  infer_instance

instance (seq yield : Value) : Runs R (all c seq yield) := by
  unfold all
  repeat' first | infer_instance | split | refine @Runs.bind _ _ _ _ _ _ ?_ fun _ => ?_

instance (seq : Value) : Runs R (allOf seq) := by
  unfold allOf
  split <;> infer_instance

instance (v : Option Value) (t : Ty) : Runs R (elementValue v t) := by
  unfold elementValue
  split <;> infer_instance

instance (en : Nat) (elem : Ty) (withErr : Bool) (yield : Value) : Runs R (feed c en elem withErr yield) := by
  unfold feed
  refine @Runs.iterate _ _ _ _ _ (fun _ => ?_) _ _
  repeat' first | infer_instance | split | refine @Runs.bind _ _ _ _ _ _ ?_ fun _ => ?_

instance (seq : Value) (t : Ty) (yield : Value) : Runs R (range c seq t yield) := by
  unfold range
  repeat' first | infer_instance | split | refine @Runs.bind _ _ _ _ _ _ ?_ fun _ => ?_

instance (seq : Value) (shape : Ty) : Runs R (adapt seq shape) := by
  unfold adapt
  repeat' split
  all_goals infer_instance

instance (t : Ty) (appetite : Appetite) : Runs R (newConsumer t appetite) := by
  unfold newConsumer; infer_instance

instance (id : Nat) : Runs R (consumerOf id) := by unfold consumerOf; infer_instance

instance (id : Nat) (k : Consumer) : Runs R (setConsumer id k) := by unfold setConsumer; infer_instance

instance (id : Nat) (args : List Value) : Runs R (feedConsumer id args) := by
  unfold feedConsumer
  repeat' first | infer_instance | split | refine @Runs.bind _ _ _ _ _ _ ?_ fun _ => ?_

instance (seq : Value) (t : Ty) : Runs R (collect c seq t) := by
  unfold collect
  repeat' first
    | infer_instance | split | dsimp only | refine @Runs.bind _ _ _ _ _ _ ?_ fun _ => ?_
    | refine @Runs.iterate _ _ _ _ _ (fun _ => ?_) _ _

instance (id : Nat) : Runs R (startScript id) := by unfold startScript; infer_instance

instance (k : Nat) (dispose : Bool) (slot : Value) : Runs R (stepScript k dispose slot) := by
  unfold stepScript
  repeat' first
    | infer_instance | split | dsimp only | refine @Runs.bind _ _ _ _ _ _ ?_ fun _ => ?_

/-! ### Functions and methods -/

instance (front : String) (s : Bytes) : Runs R (noteWith front s) := by unfold noteWith; infer_instance

instance (f : Value) (appetite : Appetite) : Runs R (drawWith c f appetite) := by
  unfold drawWith
  infer_instance

instance (t : Ty) (v : Value) : Runs R (soon t v) := by unfold soon; infer_instance

instance (t : Option Ty) (v : Option Value) : Runs R (settledCell c t v) := by
  unfold settledCell; infer_instance

instance (t : Option Ty) (e : Option Value) : Runs R (failedCell c t e) := by unfold failedCell; infer_instance

instance (n : Native) (args : List Value) : Runs R (native c n args) := by
  unfold native
  repeat' first | infer_instance | split | dsimp only

instance (f : Library) (args : List Value) : Runs R (library c f args) := by
  unfold library
  repeat' split
  all_goals infer_instance

instance (t : Option Ty) (fs : List Value) (name : String) (args : List Value) :
    Runs R (awaiterMethod c t fs name args) := by
  unfold awaiterMethod
  repeat' split
  all_goals infer_instance

instance (t : Ty) (handle : Value) (name : String) (args : List Value) :
    Runs R (handleMethod c t handle name args) := by
  unfold handleMethod
  split <;> infer_instance

instance (n : TypeName) (name : String) (args : List Value) : Runs R (plainAwaiterMethod c n name args) := by
  unfold plainAwaiterMethod
  split <;> infer_instance

instance (recv : Value) (name : String) (args : List Value) : Runs R (valueMethod c recv name args) := by
  unfold valueMethod
  repeat' split
  all_goals infer_instance

instance (recv : Value) (t : Option Ty) (name : String) (args : List Value) :
    Runs R (cellMethod c recv t name args) := by
  unfold cellMethod
  repeat' split
  all_goals infer_instance

instance (recv : Value) (name : String) (args : List Value) : Runs R (pointerMethod c recv name args) := by
  unfold pointerMethod
  repeat' first | infer_instance | split | refine @Runs.bind _ _ _ _ _ _ ?_ fun _ => ?_

instance (recv : Value) (name : String) (args : List Value) : Runs R (callMethod c recv name args) := by
  unfold callMethod
  repeat' split
  all_goals infer_instance
/-! ### What touches no variable -/

instance (e : Expr) (code : Code) (msg : String) : Runs R (refuse e code msg : Run α) := by
  unfold refuse; infer_instance

instance (e : Expr) (msg : String) : Runs R (unsupported e msg : Run α) := by
  unfold unsupported; infer_instance

instance (p : Panic) : Runs R (recovered p) := by
  unfold recovered
  split <;> infer_instance

instance (sig : Ty) (args : List (Option Value)) : Runs R (matchArgs sig args) := by
  unfold matchArgs
  repeat' first
    | infer_instance | split | dsimp only | refine @Runs.bind _ _ _ _ _ _ ?_ fun _ => ?_
    | refine @Runs.mapM _ _ _ _ _ _ fun _ => ?_

instance (e : Expr) (sig : Ty) (args : List (Option Value)) (run : List Value → Run (List Value))
    [∀ vs, Runs R (run vs)] : Runs R (invoke e sig args run) := by
  unfold invoke
  repeat' first
    | infer_instance | split | dsimp only | refine @Runs.bind _ _ _ _ _ _ ?_ fun _ => ?_

instance (e : Expr) (sig : Ty) (args : List (Option Value)) (run : List Value → Run (List Value))
    [∀ vs, Runs R (run vs)] : Runs R (invokeAs e sig args run) := by unfold invokeAs; infer_instance

instance (sig : Ty) (k : Nat) : Runs R (paramType? sig k) := by
  unfold paramType?
  split <;> infer_instance

instance (e : Expr) (method : Native) (operands : List (Option Value)) :
    Runs R (applyNative c e method operands) := by
  unfold applyNative
  repeat' first
    | infer_instance | split | dsimp only | refine @Runs.bind _ _ _ _ _ _ ?_ fun _ => ?_
    | refine @Runs.mapM _ _ _ _ _ _ fun _ => ?_

instance (a : Nat) : Runs R (slotAt a) := by unfold slotAt; infer_instance

instance (b : Base) : Runs R (readBase b) := by
  unfold readBase
  split <;> infer_instance

instance (p : Place) : Runs R (readPlace p) := by unfold readPlace; infer_instance

instance (recv : Value) (name : String) : Runs R (methodOf recv name) := by
  unfold methodOf
  repeat' first | infer_instance | split | dsimp only

instance (obj : Option Value) (base : Option Place) : Runs R (structOf obj base) := by
  unfold structOf
  repeat' first | infer_instance | split | dsimp only | refine @Runs.bind _ _ _ _ _ _ ?_ fun _ => ?_

instance (e : Expr) (name : String) (v : Value) (base : Option Place) :
    Runs R (fieldIn e name v base) := by
  unfold fieldIn
  repeat' first | infer_instance | split | dsimp only

instance (e : Expr) (obj : Option Value) (base : Option Place) (name : String) :
    Runs R (fieldOf e obj base name) := by
  unfold fieldOf
  infer_instance

instance (e : Expr) (obj : Option Value) (base : Option Place) (name : String) :
    Runs R (fieldPlace e obj base name) := by
  unfold fieldPlace
  repeat' first | infer_instance | split | refine @Runs.bind _ _ _ _ _ _ ?_ fun _ => ?_

instance (f : Value) : Runs R (checkCallable f) := by
  unfold checkCallable
  infer_instance

instance (l : Label) (xs : List Expr) : Runs R (afterLabel l xs) := by
  fun_induction afterLabel l xs <;> infer_instance

instance (s : Stop) : Runs R (caughtValue s) := by
  unfold caughtValue
  split <;> infer_instance

end

/-! ### The evaluator -/

section
variable {R : World → World → Prop} [Roam R]

instance (f : Footprint) : Runs R (record f) :=
  ⟨fun w => Roam.later ⟨List.suffix_cons f w.trail, fun _ _ h => h⟩ rfl⟩

instance (v : Var) (x : Value) : Runs R (makeSlot v x) :=
  ⟨fun _ => Roam.later ⟨List.suffix_refl _, fun _ _ h => h⟩ rfl⟩

instance (a : Nat) (x : Value) : Runs R (fillSlot a x) :=
  ⟨fun w => Roam.later ⟨List.suffix_cons _ w.trail, fun _ _ h => h⟩ rfl⟩

theorem later_push (w : World) (κ : Closure) : Later w { w with closures := w.closures.push κ } := by
  refine ⟨List.suffix_refl _, fun k ι h => ?_⟩
  have hlt := (Array.getElem?_eq_some_iff.mp h).1
  rw [Array.getElem?_push, if_neg (Nat.ne_of_lt hlt)]
  exact h

instance (e : Expr) (name : String) (kind : LambdaKind) (env : Env) :
    Runs R (makeClosure e name kind env) := by
  unfold makeClosure
  have hpush : Runs R (modifyGet fun w => (Value.func e.type (.closure w.closures.size),
      { w with closures := w.closures.push ⟨e, env⟩ }) : Run Value) :=
    ⟨fun w => Roam.later (later_push w _) rfl⟩
  repeat' first | infer_instance | split

instance (env : Env) (v : Var) : Runs R (declare env v) := by unfold declare; infer_instance

instance (env : Env) (v : Var) (x : Option Value) : Runs R (declareAs env v x) := by
  unfold declareAs
  split <;> infer_instance

instance (b : Base) (x : Value) : Runs R (writeBase b x) := by
  unfold writeBase
  split <;> infer_instance

instance (p : Place) (x : Value) : Runs R (writePlace p x) := by unfold writePlace; infer_instance

instance (e : Expr) (env : Env) (event : Nat → Nat → Footprint) :
    Runs R (recordOn e env event) := by
  unfold recordOn
  repeat' split
  all_goals infer_instance

variable {c : Calls} [CallsRoam R c]

instance (e : Expr) (t : Ty) (env : Env) : Runs R (evalAs c e t env) := by
  unfold evalAs; infer_instance

instance (e : Expr) (env : Env) : Runs R (evalBool c e env) := by
  unfold evalBool
  repeat' first | infer_instance | split | refine @Runs.bind _ _ _ _ _ _ ?_ fun _ => ?_

instance (sig : Ty) (env : Env) (args : List Expr) : Runs R (evalArgs c sig env args) := by
  unfold evalArgs
  refine @Runs.mapM _ _ _ _ _ _ fun _ => ?_
  repeat' first | infer_instance | split | refine @Runs.bind _ _ _ _ _ _ ?_ fun _ => ?_

instance (env : Env) (e : Expr) : Runs R (place c env e) := by
  fun_induction place c env e
  all_goals infer_instance

instance (body : List Expr) (env : Env) (s : List Expr × Option Value) :
    Runs R (stepBlock c body env s) := by
  unfold stepBlock
  repeat' first | infer_instance | split | refine @Runs.bind _ _ _ _ _ _ ?_ fun _ => ?_

instance (t : Ty) (body : List Expr) (env : Env) : Runs R (runBlock c t body env) := by
  unfold runBlock; infer_instance

instance (t : Ty) (vars : List Var) (body : List Expr) (env : Env) :
    Runs R (evalBlock c t vars body env) := by unfold evalBlock; infer_instance

instance (t : Ty) (body : Expr) (brk cont : Option Label) (env : Env) (u : Unit) :
    Runs R (stepLoop c t body brk cont env u) := by
  unfold stepLoop
  repeat' first | infer_instance | split | refine @Runs.bind _ _ _ _ _ _ ?_ fun _ => ?_

instance (t : Ty) (body : Expr) (brk cont : Option Label) (env : Env) :
    Runs R (evalLoop c t body brk cont env) := by unfold evalLoop; infer_instance

instance (p : Place) (x : Option Value) : Runs R (storeInto p x) := by
  unfold storeInto
  split <;> infer_instance

instance (e : Expr) (op : AssignOp) (value : Expr) (t : Ty) (env : Env) :
    Runs R (combinedWith c e op value t env) := by
  unfold combinedWith
  infer_instance

instance (e : Expr) (op : AssignOp) (target value : Expr) (env : Env) :
    Runs R (evalAssign c e op target value env) := by
  unfold evalAssign
  split <;> infer_instance

instance (e : Expr) (op : BinaryOp) (l r : Expr) (method : Option Native) (env : Env) :
    Runs R (evalBinary c e op l r method env) := by
  unfold evalBinary
  repeat' split
  all_goals infer_instance

instance (e : Expr) (v : Option Value) (comparer : Option Native) (env : Env) (test : Expr) :
    Runs R (hits c e v comparer env test) := by
  unfold hits
  repeat' first | infer_instance | split | refine @Runs.bind _ _ _ _ _ _ ?_ fun _ => ?_

instance {hit : Expr → Run Bool} [∀ x, Runs R (hit x)] (cases : List (List Expr × Expr)) :
    Runs R (choose hit cases) := by
  fun_induction choose hit cases <;> infer_instance

instance (e value : Expr) (cases : List (List Expr × Expr)) (default : Expr)
    (comparer : Option Native) (env : Env) :
    Runs R (evalSwitch c e value cases default comparer env) := by
  unfold evalSwitch
  repeat' first | infer_instance | split | refine @Runs.bind _ _ _ _ _ _ ?_ fun _ => ?_

instance (v : Option Var) (err : Value) (env : Env) : Runs R (handlerScope v err env) := by
  unfold handlerScope
  split <;> infer_instance

instance (filter : Expr) (env : Env) : Runs R (passes c filter env) := by
  unfold passes; infer_instance

instance (handlers : List (Handler Expr)) (failure : Stop) (env : Env) :
    Runs R (handle c handlers failure env) := by
  induction handlers with
  | nil => exact Runs.pure _
  | cons h rest ih =>
    unfold handle
    repeat' first
      | infer_instance | split | dsimp only | refine @Runs.bind _ _ _ _ _ _ ?_ fun _ => ?_

instance (handlers : List (Handler Expr)) (fault : Expr) (env : Env) (s : Stop) :
    Runs R (Run.recover c handlers fault env s) := by
  unfold Run.recover
  repeat' first | infer_instance | split | refine @Runs.bind _ _ _ _ _ _ ?_ fun _ => ?_

instance (t : Ty) (fin : Expr) (env : Env) (r : Except Stop (Option Value)) :
    Runs R (Run.leave c t fin env r) := by
  unfold Run.leave
  split <;> infer_instance

instance (t : Ty) (body : Expr) (handlers : List (Handler Expr)) (fin fault : Expr) (env : Env) :
    Runs R (evalProtect c t body handlers fin fault env) := by
  unfold evalProtect
  repeat' first
    | infer_instance | split | dsimp only | refine @Runs.bind _ _ _ _ _ _ ?_ fun _ => ?_

instance (env : Env) (arg : Var × Value) : Runs R (bindParam env arg) := by
  unfold bindParam; infer_instance

instance (params : List Var) (args : List Value) (body : Expr) (res : Ty) (env : Env) :
    Runs R (enter c params args body res env) := by unfold enter; infer_instance

instance (κ : Closure) (args : List Value) : Runs R (callClosure c κ args) := by
  unfold callClosure
  repeat' first
    | infer_instance | split | dsimp only | refine @Runs.bind _ _ _ _ _ _ ?_ fun _ => ?_

instance (f : Value) (args : List Value) : Runs R (callFunc c f args) := by
  unfold callFunc
  repeat' first
    | infer_instance | split | dsimp only | refine @Runs.bind _ _ _ _ _ _ ?_ fun _ => ?_

instance (e fn : Expr) (args : List Expr) (env : Env) : Runs R (evalCall c e fn args env) := by
  unfold evalCall
  infer_instance

instance (name : String) (args : List Expr) (env : Env) (run : Run α) [Runs R run] :
    Runs R (watchHanding name args env run) := by
  unfold watchHanding
  repeat' first | infer_instance | split | refine @Runs.bind _ _ _ _ _ _ ?_ fun _ => ?_

instance (e receiver : Expr) (name : String) (args : List Expr) (env : Env) :
    Runs R (callOn c e receiver name args env) := by
  unfold callOn
  repeat' first
    | infer_instance | split | dsimp only | refine @Runs.bind _ _ _ _ _ _ ?_ fun _ => ?_

instance (e receiver : Expr) (name : String) (args : List Expr) (env : Env) :
    Runs R (evalMethodCall c e receiver name args env) := by
  unfold evalMethodCall
  infer_instance

instance (e : Expr) (env : Env) : Runs R (evalNode c e env) := by
  unfold evalNode
  repeat' first
    | infer_instance | split | dsimp only | refine @Runs.bind _ _ _ _ _ _ ?_ fun _ => ?_

end

end Run

/-- Whatever runs on whatever amount of fuel, it does what the relation says. -/
instance Calls.level_roams {R : World → World → Prop} [Roam R] (n : Nat) : CallsRoam R (level n) := by
  induction n with
  | zero =>
    exact { call := fun _ _ => Runs.throw _, exec := fun _ => Runs.throw _, eval := fun _ _ => Runs.throw _ }
  | succ n ih =>
    exact
      { call := fun f args => inferInstanceAs (Runs R (Run.callFunc (level n) f args))
        exec := fun k => inferInstanceAs (Runs R (Run.execCallback (level n) k))
        eval := fun e env => inferInstanceAs (Runs R (Run.evalNode (level n) e env)) }

/-- Footprints and closures are never taken back. -/
instance : Roam Later where
  same h := ⟨h.trail ▸ List.suffix_refl _, fun k κ hk => by rw [h.closures]; exact hk⟩
  post w _ := ⟨List.suffix_refl w.trail, fun _ _ h => h⟩
  schedule w _ _ := ⟨List.suffix_refl w.trail, fun _ _ h => h⟩
  mark w f _ := ⟨List.suffix_cons f w.trail, fun _ _ h => h⟩
  trans := Later.trans
  later h _ := h

end Resumable
