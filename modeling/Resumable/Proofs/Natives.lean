import Resumable.Proofs.Agree

/-!
# `Proofs.Natives`: functions behind a tree look at no variable
-/

namespace Resumable

namespace World

variable (w : World) (slots : Array Slot) (trail : List Footprint)

theorem messageAt_peer (depth : Nat) (v : Value) :
    ({ w with slots := slots, trail := trail } : World).messageAt depth v = w.messageAt depth v := by
  induction depth generalizing v with
  | zero => rfl
  | succ depth ih =>
    have hfun : ({ w with slots := slots, trail := trail } : World).messageAt depth =
        w.messageAt depth := funext ih
    unfold messageAt
    rw [hfun]
    rfl

theorem message?_peer (v : Value) :
    ({ w with slots := slots, trail := trail } : World).message? v = w.message? v :=
  messageAt_peer w slots trail 32 v

/-- How a value is written does not depend on the slots or on the trail. -/
theorem showAt_peer (depth : Nat) (top isOpen : Bool) (v : Value) :
    ({ w with slots := slots, trail := trail } : World).showAt depth top isOpen v =
      w.showAt depth top isOpen v := by
  induction depth generalizing top isOpen v with
  | zero => rfl
  | succ depth ih =>
    have hfun : ({ w with slots := slots, trail := trail } : World).showAt depth = w.showAt depth :=
      funext fun top => funext fun isOpen => funext fun v => ih top isOpen v
    have hmsg : ({ w with slots := slots, trail := trail } : World).message? = w.message? :=
      funext (message?_peer w slots trail)
    unfold showAt
    rw [hfun, hmsg]
    rfl

theorem textOf_peer (v : Option Value) :
    ({ w with slots := slots, trail := trail } : World).textOf v = w.textOf v := by
  unfold textOf
  split
  · exact showAt_peer w slots trail 16 true true _
  · rfl

end World

/-- What the second record offers does at least what the first offers. -/
class Calls.Below (I : World → World → Prop) (c c' : Calls) : Prop where
  turns : c.turns ≤ c'.turns
  call : ∀ f args, Agree I (c.call f args) (c'.call f args)
  exec : ∀ k, Agree I (c.exec k) (c'.exec k)

namespace Run

variable {I : World → World → Prop} [Lax I] {c c' : Calls} [hc : Calls.Below I c c']

instance (f : Value) (args : List Value) : Agree I (c.call f args) (c'.call f args) := hc.call f args
instance (k : Callback) : Agree I (c.exec k) (c'.exec k) := hc.exec k

/-! ### The world -/

instance (o : Object) : Agree I (alloc o) (alloc o) :=
  Agree.modifyGet ⟨fun _ _ _ => rfl, fun _ => rfl, fun _ => rfl⟩

instance (a : Nat) : Agree I (object a) (object a) := Agree.get_bind fun _ _ _ _ => inferInstance

instance (a : Nat) (o : Object) : Agree I (setObject a o) (setObject a o) :=
  Agree.modifyGet ⟨fun _ _ _ => rfl, fun _ => rfl, fun _ => rfl⟩

instance (a : Nat) : Agree I (load a) (load a) := by
  unfold load
  refine Agree.bind inferInstance fun o => ?_
  split <;> infer_instance

instance (a : Nat) (v : Value) : Agree I (store a v) (store a v) := by
  unfold store
  infer_instance

instance (n : TypeName) (s : Bytes) : Agree I (newText n s) (newText n s) := by
  unfold newText
  infer_instance

instance (s : String) : Agree I (newError s) (newError s) := by
  unfold newError
  infer_instance

instance (e : Value) : Agree I (raise e : Run α) (raise e) := by
  unfold raise
  infer_instance

instance (s : String) : Agree I (raiseText s : Run α) (raiseText s) := by
  unfold raiseText
  infer_instance

instance (s : String) : Agree I (raiseFault s : Run α) (raiseFault s) := by
  unfold raiseFault
  infer_instance

instance (s : String) : Agree I (panicText s : Run α) (panicText s) := by
  unfold panicText
  infer_instance

instance (s : String) : Agree I (panicError s : Run α) (panicError s) := by
  unfold panicError
  infer_instance

instance (s : String) : Agree I (panicMachine s : Run α) (panicMachine s) := by
  unfold panicMachine
  infer_instance

instance : Agree I (panicNil : Run α) panicNil := by
  unfold panicNil
  infer_instance

instance (line : Bytes) : Agree I (note line) (note line) :=
  Agree.modifyGet ⟨fun _ _ _ => rfl, fun _ => rfl, fun _ => rfl⟩

instance (f : Loop → Loop) : Agree I (modifyLoop f) (modifyLoop f) :=
  Agree.modifyGet ⟨fun _ _ _ => rfl, fun _ => rfl, fun _ => rfl⟩

instance (f g : Footprint) : Agree I (record f) (record g) where
  follows := by
    intro w w' hw
    have hp : w.Peer w' := Lax.peer hw
    refine ⟨(), { w' with trail := g :: w'.trail }, rfl, rfl, Lax.keep hw ⟨?_, hp.closures⟩ rfl rfl⟩
    exact congrArg (fun u : World => { u with trail := g :: w'.trail }) hp.rest

instance (k : Callback) : Agree I (post k) (post k) := by
  unfold post
  infer_instance

instance (ms : UInt64) (k : Callback) : Agree I (schedule ms k) (schedule ms k) := by
  unfold schedule
  refine Agree.get_bind fun w _ _ _ => ?_
  split <;> infer_instance

instance : Agree I loopBinding loopBinding := Agree.get_bind fun _ _ _ _ => inferInstance

instance (v : Value) : Agree I (message v) (message v) := by
  refine Agree.get_bind fun w slots trail _ => ?_
  rw [World.message?_peer w slots trail]
  split <;> infer_instance

instance (es : List Value) : Agree I (joinErrors es) (joinErrors es) := by
  unfold joinErrors
  infer_instance

/-! ### Conversions and operators -/

instance (v : Value) (t : Ty) : Agree I (convertPlain v t) (convertPlain v t) := by
  unfold convertPlain
  infer_instance

instance (v : Option Value) (t : Ty) : Agree I (convertTo v t) (convertTo v t) := by
  unfold convertTo
  repeat' split
  all_goals infer_instance

instance (v : Option Value) : Agree I (unwrap v) (unwrap v) := by
  unfold unwrap
  split <;> infer_instance

instance (op : String) (t : Ty) : Agree I (undefinedOn op t : Run α) (undefinedOn op t) := by
  unfold undefinedOn
  infer_instance

instance (v : Value) (t : Ty) : Agree I (convertNumber v t) (convertNumber v t) := by
  unfold convertNumber
  infer_instance

instance (l r : Value) : Agree I (alignNumber l r) (alignNumber l r) := by
  unfold alignNumber
  infer_instance

instance (l r : Option Value) : Agree I (equal l r) (equal l r) := by
  unfold equal
  split
  · refine Agree.bind inferInstance fun v => ?_
    split <;> infer_instance
  all_goals infer_instance

instance (op : BinaryOp) (l r : Option Value) : Agree I (operands op l r) (operands op l r) := by
  unfold operands
  infer_instance

instance (r : Value) : Agree I (shiftCount r) (shiftCount r) := by
  unfold shiftCount
  split <;> infer_instance

instance (op : BinaryOp) (t : Ty) (a : Int) (r : Value) :
    Agree I (integerOp op t a r) (integerOp op t a r) := by
  unfold integerOp
  dsimp only
  repeat' split
  all_goals infer_instance

instance (op : BinaryOp) (t : Ty) (a b : Float) : Agree I (floatOp op t a b) (floatOp op t a b) := by
  unfold floatOp
  split <;> infer_instance

instance (op : BinaryOp) (t : Ty) (a b : Bytes) : Agree I (textOp op t a b) (textOp op t a b) := by
  unfold textOp
  repeat' split
  all_goals infer_instance

instance (op : BinaryOp) (a b : Bool) : Agree I (boolOp op a b) (boolOp op a b) := by
  unfold boolOp
  split <;> infer_instance

instance (op : BinaryOp) (t : Ty) (r : Value) :
    Agree I (binaryOp.badCount op t r) (binaryOp.badCount op t r) := by
  unfold binaryOp.badCount
  infer_instance

instance (op : BinaryOp) (l r : Option Value) : Agree I (binaryOp op l r) (binaryOp op l r) := by
  unfold binaryOp
  split
  · infer_instance
  · refine Agree.bind inferInstance fun p => ?_
    repeat' split
    all_goals infer_instance

instance (op : UnaryOp) (v : Option Value) : Agree I (unaryOp op v) (unaryOp op v) := by
  unfold unaryOp
  refine Agree.bind inferInstance fun x => ?_
  repeat' split
  all_goals infer_instance

/-! ### Cells -/

instance (a : Nat) : Agree I (completion a) (completion a) := by
  unfold completion
  refine Agree.bind inferInstance fun o => ?_
  split <;> infer_instance

instance (t : Option Ty) (b : Binding) : Agree I (newCell t b) (newCell t b) := by
  unfold newCell
  infer_instance

instance (v : Value) : Agree I (addressOf v) (addressOf v) := by
  unfold addressOf
  split <;> infer_instance

instance (a : Nat) (k : Waker) : Agree I (resume c a k) (resume c' a k) := by
  unfold resume
  refine Agree.bind inferInstance fun cell => ?_
  split <;> infer_instance

instance (a : Nat) (ks : List Waker) : Agree I (ks.forM (resume c a)) (ks.forM (resume c' a)) :=
  Agree.forM (fun _ => inferInstance) ks

instance (a : Nat) (err value : Option Value) : Agree I (finish c a err value) (finish c' a err value) := by
  unfold finish
  infer_instance

instance (a : Nat) (v : Option Value) : Agree I (complete c a v) (complete c' a v) := by
  unfold complete
  infer_instance

instance (a : Nat) (e : Option Value) : Agree I (fail c a e) (fail c' a e) := by
  unfold fail
  split <;> infer_instance

instance (a : Nat) (k : Callback) (inline : Bool) :
    Agree I (onCompleted c a k inline) (onCompleted c' a k inline) := by
  unfold onCompleted
  infer_instance

instance (a : Nat) (t : Ty) : Agree I (outcome a t) (outcome a t) := by
  unfold outcome
  infer_instance

instance (t : Option Ty) (ms : UInt64) (v : Option Value) : Agree I (after t ms v) (after t ms v) := by
  unfold after
  infer_instance

instance (t : Option Ty) (ms : UInt64) (e : Option Value) :
    Agree I (failAfter t ms e) (failAfter t ms e) := by
  unfold failAfter
  infer_instance

instance : Agree I yieldTurn yieldTurn := by
  unfold yieldTurn
  infer_instance

instance (t : Ty) : Agree I (pool t) (pool t) := Agree.get_bind fun _ _ _ _ => inferInstance

instance (t : Ty) (p : Pool) : Agree I (setPool t p) (setPool t p) :=
  Agree.modifyGet ⟨fun _ _ _ => rfl, fun _ => rfl, fun _ => rfl⟩

instance (t : Ty) : Agree I (rent t) (rent t) := by
  unfold rent
  refine Agree.bind inferInstance fun p => ?_
  split <;> infer_instance

instance (t : Ty) (a : Nat) : Agree I (handleOf t a) (handleOf t a) := by
  unfold handleOf
  infer_instance

instance (a : Nat) (version : UInt32) (r : Value × Option Value) (recycled : Bool) :
    Agree I (answer a version r recycled) (answer a version r recycled) := by
  unfold answer
  infer_instance

instance (t : Ty) (a : Nat) (version : UInt32) : Agree I (consume t a version) (consume t a version) := by
  unfold consume
  infer_instance

instance (v : Value) : Agree I (handleDone v) (handleDone v) := by
  unfold handleDone
  dsimp only
  split <;> infer_instance

instance (t : Ty) (v : Value) : Agree I (handleResult t v) (handleResult t v) := by
  unfold handleResult
  dsimp only
  split <;> infer_instance

instance (v : Value) (k : Callback) : Agree I (handleOnCompleted c v k) (handleOnCompleted c' v k) := by
  unfold handleOnCompleted
  split <;> infer_instance

instance (k : Callback) : Agree I (execCallback c k) (execCallback c' k) := by
  unfold execCallback
  split <;> infer_instance

/-! ### Sequences -/

instance (a : Nat) : Agree I (slotValue a) (slotValue a) := by
  unfold slotValue
  refine Agree.bind inferInstance fun v => ?_
  split <;> infer_instance

instance (a : Nat) (v : Option Value) : Agree I (setSlot a v) (setSlot a v) := by
  unfold setSlot
  infer_instance

instance (a : Nat) : Agree I (enumerator a) (enumerator a) := by
  unfold enumerator
  refine Agree.bind inferInstance fun o => ?_
  split <;> infer_instance

instance (seq : Value) : Agree I (enumerate c seq) (enumerate c' seq) := by
  unfold enumerate
  refine Agree.bind inferInstance fun a => Agree.bind inferInstance fun o => ?_
  split
  · refine Agree.bind inferInstance fun out => ?_
    split <;> infer_instance
  · infer_instance

instance (e : Enumerator) (dispose : Bool) : Agree I (callStep c e dispose) (callStep c' e dispose) := by
  unfold callStep
  refine Agree.bind inferInstance fun out => ?_
  split <;> infer_instance

instance (a : Nat) : Agree I (moveNext c a) (moveNext c' a) := by
  unfold moveNext
  infer_instance

instance (a : Nat) : Agree I (currentOf a) (currentOf a) := by
  unfold currentOf
  infer_instance

instance (a : Nat) : Agree I (close c a) (close c' a) := by
  unfold close
  infer_instance

instance (a : Nat) : Agree I (closeOrPanic c a) (closeOrPanic c' a) := by
  unfold closeOrPanic
  refine Agree.bind inferInstance fun e => ?_
  split <;> infer_instance

instance (r : Except Stop α) : Agree I (settleOn r) (settleOn r) := by
  unfold settleOn
  split <;> infer_instance

instance (en : Nat) (yield : Value) : Agree I (feedPairs c en yield) (feedPairs c' en yield) := by
  unfold feedPairs
  refine Agree.iterate (fun _ => ?_) hc.turns ()
  refine Agree.bind inferInstance fun p => ?_
  dsimp only
  repeat' split
  all_goals infer_instance

instance (seq yield : Value) : Agree I (all c seq yield) (all c' seq yield) := by
  unfold all
  refine Agree.bind inferInstance fun en => ?_
  refine Agree.attempt_bind inferInstance (fun a => ?_) (fun s => ?_) rfl
  · infer_instance
  · split <;> infer_instance

instance (seq : Value) : Agree I (allOf seq) (allOf seq) := by
  unfold allOf
  split
  · infer_instance
  · exact Agree.get_bind fun _ _ _ _ => inferInstance

instance (v : Option Value) (t : Ty) : Agree I (elementValue v t) (elementValue v t) := by
  unfold elementValue
  split <;> infer_instance

instance (en : Nat) (elem : Ty) (withErr : Bool) (yield : Value) :
    Agree I (feed c en elem withErr yield) (feed c' en elem withErr yield) := by
  unfold feed
  refine Agree.iterate (fun _ => ?_) hc.turns ()
  refine Agree.bind inferInstance fun p => ?_
  dsimp only
  split <;> infer_instance

instance (seq : Value) (t : Ty) (yield : Value) : Agree I (range c seq t yield) (range c' seq t yield) := by
  unfold range
  dsimp only
  refine Agree.bind inferInstance fun en => ?_
  refine Agree.attempt_bind inferInstance (fun a => ?_) (fun s => ?_) rfl
  · infer_instance
  · split <;> infer_instance

instance (seq : Value) (shape : Ty) : Agree I (adapt seq shape) (adapt seq shape) := by
  unfold adapt
  repeat' split
  all_goals first | infer_instance | exact Agree.get_bind fun _ _ _ _ => inferInstance

instance (t : Ty) (appetite : Appetite) : Agree I (newConsumer t appetite) (newConsumer t appetite) :=
  Agree.modifyGet ⟨fun _ _ _ => rfl, fun _ => rfl, fun _ => rfl⟩

instance (id : Nat) : Agree I (consumerOf id) (consumerOf id) :=
  Agree.get_bind fun _ _ _ _ => inferInstance

instance (id : Nat) (k : Consumer) : Agree I (setConsumer id k) (setConsumer id k) :=
  Agree.modifyGet ⟨fun _ _ _ => rfl, fun _ => rfl, fun _ => rfl⟩

instance (id : Nat) (args : List Value) : Agree I (feedConsumer id args) (feedConsumer id args) := by
  unfold feedConsumer
  refine Agree.bind inferInstance fun k => ?_
  dsimp only
  repeat' split
  all_goals infer_instance

instance (seq : Value) (t : Ty) : Agree I (collect c seq t) (collect c' seq t) := by
  unfold collect
  refine Agree.bind inferInstance fun en => ?_
  refine Agree.bind (Agree.iterate (fun out => ?_) hc.turns []) fun p => inferInstance
  refine Agree.bind inferInstance fun p => ?_
  dsimp only
  split
  · infer_instance
  refine Agree.bind inferInstance fun v => ?_
  repeat' split
  all_goals first | infer_instance | skip
  refine Agree.get_bind fun w slots trail _ => ?_
  rw [World.textOf_peer w slots trail]
  infer_instance

instance (id : Nat) : Agree I (startScript id) (startScript id) := by
  unfold startScript
  exact Agree.bind inferInstance fun _ =>
    Agree.modifyGet ⟨fun _ _ _ => rfl, fun _ => rfl, fun _ => rfl⟩

instance (k : Nat) (dispose : Bool) (slot : Value) :
    Agree I (stepScript k dispose slot) (stepScript k dispose slot) := by
  unfold stepScript
  refine Agree.get_bind fun w slots trail _ => ?_
  generalize hrun : w.scriptRuns.getD k (0, 0) = run
  obtain ⟨id, produced⟩ := run
  dsimp only
  split
  · infer_instance
  split
  · refine Agree.bind (Agree.modifyGet ⟨fun _ _ _ => ?_, fun _ => ?_, fun _ => ?_⟩) fun _ => inferInstance
    all_goals rfl
  · infer_instance

/-! ### Natives -/

instance (front : String) (s : Bytes) : Agree I (noteWith front s) (noteWith front s) := by
  unfold noteWith
  infer_instance

instance (f : Value) (appetite : Appetite) : Agree I (drawWith c f appetite) (drawWith c' f appetite) := by
  unfold drawWith
  infer_instance

instance (t : Ty) (v : Value) : Agree I (soon t v) (soon t v) := by
  unfold soon
  infer_instance

instance (t : Option Ty) (v : Option Value) : Agree I (settledCell c t v) (settledCell c' t v) := by
  unfold settledCell
  infer_instance

instance (t : Option Ty) (e : Option Value) : Agree I (failedCell c t e) (failedCell c' t e) := by
  unfold failedCell
  infer_instance

instance (n : Native) (args : List Value) : Agree I (native c n args) (native c' n args) := by
  unfold native
  dsimp only
  repeat' split
  all_goals infer_instance

instance (f : Library) (args : List Value) : Agree I (library c f args) (library c' f args) := by
  unfold library
  dsimp only
  repeat' split
  all_goals infer_instance

/-! ### Methods -/

instance (t : Option Ty) (fs : List Value) (name : String) (args : List Value) :
    Agree I (awaiterMethod c t fs name args) (awaiterMethod c' t fs name args) := by
  unfold awaiterMethod
  dsimp only
  refine Agree.bind inferInstance fun a => ?_
  repeat' split
  all_goals infer_instance

instance (t : Ty) (handle : Value) (name : String) (args : List Value) :
    Agree I (handleMethod c t handle name args) (handleMethod c' t handle name args) := by
  unfold handleMethod
  split <;> infer_instance

instance (n : TypeName) (name : String) (args : List Value) :
    Agree I (plainAwaiterMethod c n name args) (plainAwaiterMethod c' n name args) := by
  unfold plainAwaiterMethod
  dsimp only
  split <;> infer_instance

instance (recv : Value) (name : String) (args : List Value) :
    Agree I (valueMethod c recv name args) (valueMethod c' recv name args) := by
  unfold valueMethod
  dsimp only
  repeat' split
  all_goals infer_instance

instance (recv : Value) (t : Option Ty) (name : String) (args : List Value) :
    Agree I (cellMethod c recv t name args) (cellMethod c' recv t name args) := by
  unfold cellMethod
  dsimp only
  repeat' split
  all_goals infer_instance

instance (recv : Value) (name : String) (args : List Value) :
    Agree I (pointerMethod c recv name args) (pointerMethod c' recv name args) := by
  unfold pointerMethod
  dsimp only
  split
  · infer_instance
  split
  · refine Agree.bind inferInstance fun p => Agree.bind inferInstance fun v => ?_
    split <;> infer_instance
  · infer_instance
  · infer_instance
  · refine Agree.bind inferInstance fun s => ?_
    split <;> infer_instance
  · repeat' split
    all_goals infer_instance
  · refine Agree.bind inferInstance fun e => ?_
    split <;> infer_instance
  · split <;> infer_instance

instance (recv : Value) (name : String) (args : List Value) :
    Agree I (callMethod c recv name args) (callMethod c' recv name args) := by
  unfold callMethod
  repeat' split
  all_goals infer_instance

/-! ### Calls -/

instance (p : Panic) : Agree I (recovered p) (recovered p) := by
  unfold recovered
  split <;> infer_instance

instance (sig : Ty) (args : List (Option Value)) : Agree I (matchArgs sig args) (matchArgs sig args) := by
  unfold matchArgs
  split
  extract_lets fixed slice elem convert check
  have hconvert : ∀ r, Agree I (convert r) (convert r) := fun r => by
    refine Agree.bind (Agree.mapM (h := fun v => ?_) args) fun vs => ?_
    · split <;> infer_instance
    refine Agree.bind (Agree.mapM (h := fun p => ?_) _) fun front => ?_
    · dsimp only
      infer_instance
    · infer_instance
  clear_value convert
  have hcheck : ∀ r, Agree I (check r) (check r) := fun r => by
    dsimp only [check]
    infer_instance
  clear_value check
  infer_instance

instance (sig : Ty) (k : Nat) : Agree I (paramType? sig k) (paramType? sig k) := by
  unfold paramType?
  split <;> infer_instance

instance (e : Expr) (code : Code) (msg : String) : Agree I (refuse e code msg : Run α) (refuse e code msg) := by
  unfold refuse
  infer_instance

instance (e : Expr) (msg : String) : Agree I (unsupported e msg : Run α) (unsupported e msg) := by
  unfold unsupported
  infer_instance

instance (f : Value) : Agree I (checkCallable f) (checkCallable f) := by
  unfold checkCallable
  infer_instance

instance (recv : Value) (name : String) : Agree I (methodOf recv name) (methodOf recv name) := by
  unfold methodOf
  dsimp only
  repeat' split
  all_goals infer_instance

/-- Running a function the same way is calling it the same way. -/
theorem invoke_agree {run run' : List Value → Run (List Value)} (h : ∀ vs, Agree I (run vs) (run' vs))
    (e : Expr) (sig : Ty) (args : List (Option Value)) :
    Agree I (invoke e sig args run) (invoke e sig args run') := by
  have hrun : Agree I (matchArgs sig args >>= run) (matchArgs sig args >>= run') :=
    Agree.bind inferInstance h
  unfold invoke
  split
  · infer_instance
  · infer_instance
  refine Agree.attempt_bind hrun (fun outs => ?_) (fun s => ?_) rfl
  · dsimp only
    repeat' split
    all_goals infer_instance
  · dsimp only
    repeat' split
    all_goals infer_instance

theorem invokeAs_agree {run run' : List Value → Run (List Value)} (h : ∀ vs, Agree I (run vs) (run' vs))
    (e : Expr) (sig : Ty) (args : List (Option Value)) :
    Agree I (invokeAs e sig args run) (invokeAs e sig args run') := by
  have := invoke_agree h e sig args
  unfold invokeAs
  infer_instance

instance (e : Expr) (method : Native) (operands : List (Option Value)) :
    Agree I (applyNative c e method operands) (applyNative c' e method operands) := by
  unfold applyNative
  dsimp only
  refine Agree.bind (Agree.mapM (h := fun p => ?_) _) fun args =>
    invokeAs_agree (fun _ => inferInstance) _ _ _
  split <;> infer_instance

/-- Without closures, what a function does comes down to what the calls of other functions do. -/
instance (f : Value) (args : List Value) : Agree I (callFunc c f args) (callFunc c' f args) := by
  unfold callFunc
  dsimp only
  repeat' split
  all_goals first | infer_instance | skip
  refine Agree.get_bind fun w slots trail h => ?_
  simp only [h, List.getElem?_toArray, List.getElem?_nil]
  infer_instance

end Run

/-- One level of nesting more on both sides. -/
theorem Calls.Below.next {I : World → World → Prop} [Lax I] {c c' : Calls} [Calls.Below I c c']
    {n n' : Nat} (h : n ≤ n') (eval eval' : Expr → Env → Run (Option Value)) :
    Calls.Below I ⟨n, eval, Run.callFunc c, Run.execCallback c⟩
      ⟨n', eval', Run.callFunc c', Run.execCallback c'⟩ where
  turns := h
  call _ _ := inferInstance
  exec _ := inferInstance

end Resumable
