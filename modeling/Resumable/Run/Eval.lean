import Resumable.Run.Method
import Resumable.Run.Operator
import Resumable.Text.Quoted
import Resumable.Ty.Capability

/-!
# `Run.Eval`: evaluating trees

`evalNode` evaluates one node and reaches its operands through `Calls`. Suspension points are refused:
a tree that still holds them has to be lowered first. `Calls.level` ties the parts together, and `eval`,
`compile` and `callCompiled` are the ways in from outside.

**Rules**
* A block runs its statements in a new scope; a jump to a label placed directly in it resumes after the
  label.
* A handler sees errors that the tree raised, not refusals and not jumps; what runs on every exit also
  runs for jumps, and an error it raises wins. Panics pass through trees and are turned into catchable
  faults at the next call on the way out.
* A closure shares the scope it was made in.
-/

namespace Resumable

namespace Run

/-- Refuses to evaluate a node. -/
def refuse (e : Expr) (code : Code) (msg : String) : Run α :=
  raise (.refusal ⟨code, e.id, (e.kind?).getD .constant, msg⟩)

/-- Refuses to evaluate a node as unsupported. -/
def unsupported (e : Expr) (msg : String) : Run α := refuse e .unsupported msg

/-- Brings a variable into scope with its zero value. -/
def declare (env : Env) (v : Var) : Run Env := do
  return env.bind v (← makeSlot v v.type.zero)

/-- Brings a variable into scope with a value of its type. -/
def declareAs (env : Env) (v : Var) (x : Option Value) : Run Env := do
  match x with
  | some x => return env.bind v (← makeSlot v x)
  | none => panicError "reflect: call of reflect.Value.Set on zero Value"

/-- Evaluates an operand and gives it a static type. -/
def evalAs (c : Calls) (e : Expr) (t : Ty) (env : Env) : Run (Option Value) := do
  convertTo (← c.eval e env) t

/-- Evaluates a condition. -/
def evalBool (c : Calls) (e : Expr) (env : Env) : Run Bool := do
  match ← unwrap (← c.eval e env) with
  | .bool _ b => return b
  | v => unsupported e ("condition of type " ++ v.typeOf.text)

/-! ### Calls -/

/-- The error that a panic becomes for the caller. -/
def recovered (p : Panic) : Run Value := do
  match p with
  | .uncaught e => return e
  | .text s => newText .runtimeError s
  | .error e => newText .runtimeError (← message e)
  | .machine s =>
    let front := "runtime error: "
    newText .runtimeError (Bytes.ofString (if s.startsWith front then (s.drop front.length).toString else s))

/-- Checks arguments against a signature and packs the extra ones of a variadic function. -/
def matchArgs (sig : Ty) (args : List (Option Value)) : Run (List Value) := do
  let (ins, variadic, _) := sig.signature?.getD ([], false, [])
  let fixed := if variadic then ins.length - 1 else ins.length
  if args.length < fixed then panicText "reflect: Call with too few input arguments"
  if !variadic && args.length > fixed then panicText "reflect: Call with too many input arguments"
  let vs ← args.mapM fun
    | some v => pure v
    | none => panicText "reflect: Call using zero Value argument"
  let front ← (vs.zip (ins.take fixed)).mapM fun (v, t) =>
    if v.typeOf == t then pure v
    else if v.typeOf.assignableTo t then pure (v.widen t)
    else panicText ("reflect: Call using " ++ v.typeOf.text ++ " as type " ++ t.text)
  if !variadic then return front
  -- the arguments of a variadic tail become one slice
  let slice := ins.getLastD .any
  let elem := slice.elem?.getD .any
  let tail ← (vs.drop fixed).mapM fun v =>
    if v.typeOf.assignableTo elem then pure (if v.typeOf == elem then v else v.widen elem)
    else panicText ("reflect: cannot use " ++ v.typeOf.text ++ " as type " ++ elem.text ++ " in Call")
  return front ++ [.slice slice tail]

/-- Calls a function of type `sig` for the node `e`: a panic becomes an error, and a trailing error
result is raised. -/
def invoke (e : Expr) (sig : Ty) (args : List (Option Value)) (run : List Value → Run (List Value)) :
    Run (Option Value) := do
  match sig.funcResult with
  | .error (.notFunc t) => panicText (ResultFault.notFunc t).message
  | .error r => unsupported e r.message
  | .ok (res, fallible) =>
    match ← attempt (do run (← matchArgs sig args)) with
    | .error (.panic p) => raise (← recovered p)
    | .error (.raised err) => raise err
    -- no jump leaves a function, so that it is the fuel that ran out
    | .error _ => throw .exhausted
    | .ok outs =>
      if fallible then
        if let some err := outs.getLast?.bind Value.content then raise err
      return if res.isVoid then none else outs.head?

/-- Calls a function and gives the result the type of the node. -/
def invokeAs (e : Expr) (sig : Ty) (args : List (Option Value)) (run : List Value → Run (List Value)) :
    Run (Option Value) := do
  let v ← invoke e sig args run
  if e.type.isVoid then return none else convertTo v e.type

/-- The type of the parameter at a position; the last one of a variadic function repeats. -/
def paramType? (sig : Ty) (k : Nat) : Run (Option Ty) :=
  match sig.signature? with
  | none => panicText ("reflect: NumIn of non-func type " ++ sig.text)
  | some (ins, variadic, _) =>
    if variadic && k + 1 ≥ ins.length then return (ins.getLast?).bind Ty.elem?
    else return ins[k]?

/-- Evaluates arguments from left to right against the parameter types. -/
def evalArgs (c : Calls) (sig : Ty) (env : Env) (args : List Expr) : Run (List (Option Value)) :=
  args.zipIdx.mapM fun (a, k) => do
    match ← paramType? sig k with
    | some t => evalAs c a t env
    | none =>
      if a.isAbsent then panicNil
      unsupported a ("too many arguments for " ++ sig.text)

/-- Applies a function that stands for an operator. -/
def applyNative (c : Calls) (e : Expr) (method : Native) (operands : List (Option Value)) :
    Run (Option Value) := do
  let ins := (method.type.signature?.map (·.1)).getD []
  let args ← operands.zipIdx.mapM fun (v, k) =>
    match ins[k]? with
    | some t => convertTo v t
    | none => panicMachine (indexText k ins.length)
  invokeAs e method.type args fun vs => c.call (.func method.type (.native method)) vs

/-! ### Places -/

/-- Where a place begins: in the slot of a variable, or in the object at an address. -/
inductive Base where
  | slot (a : Nat)
  | object (a : Nat)

/-- A place that can be stored into: where it begins, the fields that lead into the struct there, and the
type of what is at the end. -/
structure Place where
  base : Base
  path : List Nat
  type : Ty

/-- The part of a value that a path leads to. -/
def readPath (v : Value) : List Nat → Value
  | [] => v
  | i :: path =>
    match v with
    | .struct _ fs => readPath (fs.getD i (.null .any)) path
    | v => v

/-- A value with the part that a path leads to replaced. -/
def writePath (v : Value) (path : List Nat) (x : Value) : Value :=
  match path with
  | [] => x
  | i :: path =>
    match v with
    | .struct t fs => .struct t (fs.set i (writePath (fs.getD i (.null .any)) path x))
    | v => v

/-- The whole value where a place begins. -/
def readBase : Base → Run Value
  | .slot a => return (← slotAt a).value
  | .object a => load a

def writeBase : Base → Value → Run Unit
  | .slot a, x => fillSlot a x
  | .object a, x => store a x

def readPlace (p : Place) : Run Value := do
  return (readPath (← readBase p.base) p.path).retype p.type

def writePlace (p : Place) (x : Value) : Run Unit := do
  writeBase p.base (writePath (← readBase p.base) p.path x)

/-- The struct that an object is or points to, with its place when it can be stored into. `base` is the
place the object was read from. -/
def structOf (obj : Option Value) (base : Option Place) : Run (Value × Option Place) := do
  -- what is read out of a box is a copy
  let inBox := match obj with
    | some (.box _ _) => true
    | _ => false
  match ← unwrap obj with
  | .pointer (.pointer t) a => return ((← load a).retype t, some ⟨.object a, [], t⟩)
  | .null (.pointer _) => raiseFault nilText
  | v => return (v, if inBox then none else base)

/-- A field of a struct: its value and, when it can be stored into, its place. -/
def fieldIn (e : Expr) (name : String) (v : Value) (base : Option Place) : Run (Value × Option Place) := do
  let t := v.typeOf
  if t.kind != .struct then unsupported e ("field " ++ name ++ " of " ++ t.text)
  match t.field? name with
  | some (i, ⟨_, ft, true⟩) =>
    let fs := match v with
      | .struct _ fs => fs
      | _ => []
    return (fs.getD i ft.zero, base.map fun p => { p with path := p.path ++ [i], type := ft })
  | _ => unsupported e (t.text ++ " has no exported field " ++ name)

/-- The field of an object: its value and, when it can be stored into, its place. `base` is the place
the object was read from. -/
def fieldOf (e : Expr) (obj : Option Value) (base : Option Place) (name : String) :
    Run (Value × Option Place) := do
  let (v, base) ← structOf obj base
  fieldIn e name v base

/-- The place of the field of an object. -/
def fieldPlace (e : Expr) (obj : Option Value) (base : Option Place) (name : String) : Run Place := do
  match (← fieldOf e obj base name).2 with
  | some p => return p
  | none => unsupported e ("field " ++ name ++ " is not settable")

/-- Resolves an assignment target. -/
def place (c : Calls) (env : Env) (e : Expr) : Run Place := do
  match e with
  | .absent => panicNil
  | .node _ _ _ (.var v) =>
    match env.find? v with
    | some a => return ⟨.slot a, [], v.type⟩
    | none => unsupported e ("variable " ++ v.text ++ " is not in scope")
  | .node _ _ _ (.field o name) =>
    if o.isAbsent then panicNil
    -- a pointer leads to its struct; anything else has to be a place itself
    else if o.type.kind == .pointer then fieldPlace e (← c.eval o env) none name
    else
      let p ← place c env o
      fieldPlace e (some (← readPlace p)) (some p) name
  | .node _ _ _ d => unsupported e ("cannot assign to " ++ d.kind.text)
  termination_by sizeOf e
  decreasing_by simp; omega

/-! ### Forms of nodes -/

/-- The statements after the place of a label, when the label is placed directly among them. -/
def afterLabel (l : Label) : List Expr → Run (Option (List Expr))
  | [] => return none
  | .absent :: _ => panicNil
  | .node _ _ _ (.label m _) :: rest => if m.id == l.id then return some rest else afterLabel l rest
  | _ :: rest => afterLabel l rest

/-- Runs the next statement of a block; what is left to run comes with the value of the last one. -/
def stepBlock (c : Calls) (body : List Expr) (env : Env) :
    List Expr × Option Value → Run ((List Expr × Option Value) ⊕ Option Value)
  | ([], last) => return .inr last
  | (x :: rest, _) => do
    match ← attempt (c.eval x env) with
    | .ok v => return .inl (rest, v)
    | .error (.jump l v) =>
      -- only the block that places the label takes the jump up
      match ← afterLabel l body with
      | some rest => return .inl (rest, ← convertTo v l.type)
      | none => throw (.jump l v)
    | .error s => throw s

/-- Runs the statements of a block in its scope. -/
def runBlock (c : Calls) (t : Ty) (body : List Expr) (env : Env) : Run (Option Value) := do
  let last ← iterate (stepBlock c body env) c.turns (body, none)
  if t.isVoid then return none else convertTo last t

def evalBlock (c : Calls) (t : Ty) (vars : List Var) (body : List Expr) (env : Env) :
    Run (Option Value) := do
  runBlock c t body (← vars.foldlM declare env)

/-- Runs the body of a loop once. -/
def stepLoop (c : Calls) (t : Ty) (body : Expr) (brk cont : Option Label) (env : Env) (_ : Unit) :
    Run (Unit ⊕ Option Value) := do
  match ← attempt (c.eval body env) with
  | .ok _ => return .inl ()
  | .error (.jump l v) =>
    if brk.any (·.id == l.id) then return .inr (← convertTo v t)
    else if cont.any (·.id == l.id) then return .inl ()
    else throw (.jump l v)
  | .error s => throw s

def evalLoop (c : Calls) (t : Ty) (body : Expr) (brk cont : Option Label) (env : Env) :
    Run (Option Value) :=
  iterate (stepLoop c t body brk cont env) c.turns ()

/-- Stores the value of an assignment and gives it. -/
def storeInto (p : Place) (x : Option Value) : Run Value := do
  match x with
  | some v => writePlace p v; return v
  | none => panicError "reflect: call of reflect.Value.Set on zero Value"

/-- What a compound store combines the old value of type `t` with; an increment has no operand. -/
def combinedWith (c : Calls) (e : Expr) (op : AssignOp) (value : Expr) (t : Ty) (env : Env) :
    Run (Option Value) := do
  if op.isIncrement then
    if !t.kind.isNumber then unsupported e (op.text ++ " of " ++ t.text)
    some <$> convertNumber (.ofInt 1) t
  else c.eval value env

def evalAssign (c : Calls) (e : Expr) (op : AssignOp) (target value : Expr) (env : Env) :
    Run (Option Value) := do
  let p ← place c env target
  match op.binary? with
  | none => some <$> storeInto p (← evalAs c value p.type env)
  | some bin =>
    -- read before the operand runs, which may store into the place
    let old ← readPlace p
    let rhs ← combinedWith c e op value p.type env
    let v ← storeInto p (← convertTo (some (← binaryOp bin (some old) rhs)) p.type)
    return some (if op.isPost then old else v)

def evalBinary (c : Calls) (e : Expr) (op : BinaryOp) (l r : Expr) (method : Option Native)
    (env : Env) : Run (Option Value) := do
  if method.isNone && op.isShortCircuit then
    let a ← evalBool c l env
    if a == (op == .orElse) then return some (.ofBool a)
    return some (.ofBool (← evalBool c r env))
  let a ← c.eval l env
  let b ← c.eval r env
  match method with
  | some m => applyNative c e m [a, b]
  | none => convertTo (some (← binaryOp op a b)) e.type

/-- Adds to the trail what happens to the variable that a node reads. -/
def recordOn (e : Expr) (env : Env) (event : Nat → Nat → Footprint) : Run Unit :=
  match e.asVar? with
  | some v =>
    match env.find? v with
    | some a => record (event v.id a)
    | none => pure ()
  | none => pure ()

/-- Whether a test of the switch `e` accepts a value. -/
def hits (c : Calls) (e : Expr) (v : Option Value) (comparer : Option Native) (env : Env)
    (test : Expr) : Run Bool := do
  let t ← c.eval test env
  match comparer with
  | none => equal v t
  | some m =>
    match ← applyNative c e m [v, t] with
    | some (.bool _ b) => return b
    | some r => panicError ("reflect: call of reflect.Value.Bool on " ++ r.kind.text ++ " Value")
    | none => panicError "reflect: call of reflect.Value.Bool on zero Value"

/-- The body of the first case with a test that accepts the value. -/
def choose (hit : Expr → Run Bool) : List (List Expr × Expr) → Run (Option Expr)
  | [] => return none
  | (tests, body) :: rest => do
    if ← tests.anyM hit then return some body else choose hit rest

def evalSwitch (c : Calls) (e : Expr) (value : Expr) (cases : List (List Expr × Expr))
    (default : Expr) (comparer : Option Native) (env : Env) : Run (Option Value) := do
  let v ← c.eval value env
  recordOn value env (.switched · · v)
  match ← choose (hits c e v comparer env) cases with
  | some body => evalAs c body e.type env
  | none =>
    recordOn value env .missed
    if default.isAbsent then return zeroOf e.type else evalAs c default e.type env

/-- Whether a handler for `test` accepts what stopped the body. -/
def accepts (test : Ty) : Stop → Bool
  | .raised e => e.typeOf.assignableTo test
  | .jump _ _ => test == .error || test == .any
  | _ => false

/-- The value that a handler binds. -/
def caughtValue : Stop → Run Value
  | .raised e => pure e
  | .jump l _ => newError ("unresolved jump to " ++ l.text)
  | _ => panicNil

/-- The scope in which a handler for an error runs. -/
def handlerScope (v : Option Var) (err : Value) (env : Env) : Run Env := do
  let scope : Env := { env with caught := some err }
  match v with
  | some v => declareAs scope v (← convertTo (some err) v.type)
  | none => return scope

/-- Whether the filter of a handler lets an error through. -/
def passes (c : Calls) (filter : Expr) (env : Env) : Run (Except Stop Bool) :=
  if filter.isAbsent then return .ok true else attempt (evalBool c filter env)

/-- Looks for the handler of a failure and runs it. -/
def handle (c : Calls) (handlers : List (Handler Expr)) (failure : Stop) (env : Env) :
    Run (Except Stop (Option Value)) := do
  match handlers with
  | [] => return .error failure
  | h :: rest =>
    if !accepts h.test failure then return ← handle c rest failure env
    -- an error of the binding is not among those that are caught here
    let scope ← handlerScope h.var (← caughtValue failure) env
    match ← passes c h.filter scope with
    | .ok true => attempt (c.eval h.body scope)
    | .ok false => handle c rest failure env
    -- an error of the filter takes the place of the failure
    | .error s => return .error s

/-- Whether something stopped in a way that protected regions take part in. -/
def isOrderly : Stop → Bool
  | .raised _ | .jump _ _ => true
  | _ => false

/-- Whether a handler may observe a failure. -/
def isCatchable : Stop → Bool
  | .raised (.refusal _) => false
  | .raised _ => true
  | _ => false

/-- What becomes of a failure of a protected body: `fault` runs first and may fail in turn, then the
handlers are asked. -/
def recover (c : Calls) (handlers : List (Handler Expr)) (fault : Expr) (env : Env) (s : Stop) :
    Run (Except Stop (Option Value)) := do
  if !isCatchable s then return .error s
  if fault.isAbsent then return ← handle c handlers s env
  match ← attempt (c.eval fault env) with
  | .ok _ => handle c handlers s env
  -- handlers are asked about errors and jumps only
  | .error s' => if isOrderly s' then handle c handlers s' env else throw s'

/-- Leaves a protected region with an outcome: `fin` runs on every exit, and what it raises wins. -/
def leave (c : Calls) (t : Ty) (fin : Expr) (env : Env) (r : Except Stop (Option Value)) :
    Run (Option Value) := do
  match r with
  -- a panic passes the block by
  | .error s =>
    if isOrderly s && !fin.isAbsent then discard (c.eval fin env)
    throw s
  | .ok v =>
    if !fin.isAbsent then discard (c.eval fin env)
    if t.isVoid then return none else convertTo v t

def evalProtect (c : Calls) (t : Ty) (body : Expr) (handlers : List (Handler Expr))
    (fin fault : Expr) (env : Env) : Run (Option Value) := do
  match ← attempt (c.eval body env) with
  | .ok v => leave c t fin env (.ok v)
  | .error s => leave c t fin env (← recover c handlers fault env s)

/-- Makes a closure of a lambda. -/
def makeClosure (e : Expr) (name : String) (kind : LambdaKind) (env : Env) : Run Value := do
  if kind != .plain then
    refuse e .unloweredSuspend
      (kind.text ++ " lambda " ++ Text.quote name ++ " must be lowered before evaluation")
  match e.type.funcResult with
  | .error (.notFunc t) => panicText (ResultFault.notFunc t).message
  | .error r => unsupported e r.message
  | .ok _ =>
    modifyGet fun w =>
      (.func e.type (.closure w.closures.size), { w with closures := w.closures.push ⟨e, env⟩ })

/-- Brings a parameter into scope with the value of its argument. -/
def bindParam (env : Env) (arg : Var × Value) : Run Env := do
  declareAs env arg.1 (← convertTo (some arg.2) arg.1.type)

/-- Runs the body of a lambda with its parameters in scope. -/
def enter (c : Calls) (params : List Var) (args : List Value) (body : Expr) (res : Ty) (env : Env) :
    Run (Option Value) := do
  let env ← (params.zip args).foldlM bindParam env
  let v ← c.eval body env
  if res.isVoid then return none else convertTo v res

/-- Calls a closure. Without an error result, an error leaves it as a panic. -/
def callClosure (c : Calls) (k : Closure) (args : List Value) : Run (List Value) := do
  match k.lambda with
  | .node _ _ t (.lambda _ params body _ _) =>
    let (res, fallible) := match t.funcResult with
      | .ok r => r
      | .error _ => (.void, false)
    let r ← attempt (enter c params args body res k.env)
    -- a jump without a target ends at the lambda
    let r ← match r with
      | .error (.jump l _) =>
        attempt (unsupported k.lambda ("unresolved jump to " ++ l.text ++ " escapes the lambda"))
      | r => pure r
    match r with
    | .ok v =>
      return (if res.isVoid then [] else [v.getD res.zero]) ++ (if fallible then [.ofError none] else [])
    | .error (.raised e) =>
      if fallible then return (if res.isVoid then [] else [res.zero]) ++ [.ofError (some e)]
      else throw (.panic (.uncaught e))
    | .error s => throw s
  | _ => panicNil

/-- Calls a function value. -/
def callFunc (c : Calls) (f : Value) (args : List Value) : Run (List Value) := do
  let a := args.headD (.null .any)
  match f with
  | .func t f =>
    match f with
    | .native n => native c n args
    | .library l => library c l args
    | .closure id =>
      match (← get).closures[id]? with
      | some k =>
        record (.entered id)
        callClosure c k args
      | none => panicNil
    | .pairs s => all c (.pointer .sequence s) a; return []
    | .ranging s => range c (.pointer .sequence s) t a; return []
    | .consumer id => return [.ofBool (← feedConsumer id args)]
    | .script id => return [← startScript id]
    | .scriptStep k =>
      let (ok, err) ← stepScript k a.asBool (args.getD 1 (.null .any))
      return [.ofBool ok, .ofError err]
  | _ => panicNil

/-- Checks that a value is a function that can be called. -/
def checkCallable (f : Value) : Run Unit := do
  if !f.kind.hasNil then
    panicError ("reflect: call of reflect.Value.IsNil on " ++ f.kind.text ++ " Value")
  if f.isNil then raiseFault "call of nil func"

/-- Adds to the trail what happens to the cell in the variable that a node reads. -/
def recordCell (e : Expr) (env : Env) (event : Nat → Env → Footprint) : Run Unit :=
  match e.asVar? with
  | some v => record (event v.id env)
  | none => pure ()

/-- Adds to the trail that the cell which a tree stands for is completed. -/
def noteCompleted (cell? : Option (Expr × Value)) (env : Env) : Run Unit :=
  match cell? with
  | some (e, cell) => recordCell e env (.completed · · cell)
  | none => pure ()

/-- Runs a call, noting when it has completed a cell. -/
def watchCompleting (cell? : Option (Expr × Value)) (env : Env) (run : Run α) : Run α := do
  let r ← run
  noteCompleted cell? env
  return r

/-- What the call of a function completes, of the trees of its arguments and their values. -/
def completedBy (f : Value) (args : List Expr) (vs : List Value) : Option (Expr × Value) :=
  match f, args, vs with
  | .func _ (.library .completeValueFuture), e :: _, cell :: _ => some (e, cell)
  | _, _, _ => none

def evalCall (c : Calls) (e fn : Expr) (args : List Expr) (env : Env) : Run (Option Value) := do
  let f ← unwrap (← c.eval fn env)
  checkCallable f
  let vs ← evalArgs c f.typeOf env args
  invokeAs e f.typeOf vs fun vs => watchCompleting (completedBy f args vs) env (c.call f vs)

/-- Runs a call of a method, noting when an awaiter is handed the function in a variable. -/
def watchHanding (name : String) (args : List Expr) (env : Env) (run : Run α) : Run α := do
  match name, args with
  | "OnCompleted", [k] =>
    recordOn k env .handed
    match ← attempt run with
    | .ok v => return v
    -- whether the awaiter would have refused is not known
    | .error .exhausted => throw .exhausted
    | .error s =>
      recordOn k env .rejected
      throw s
  | _, _ => run

/-- The type of a method with the receiver that it is called on: a method of the pointer type is called on
a copy of the value. What was in a box is of no interface type. -/
def methodOf (recv : Value) (name : String) : Run (Value × Option Ty) := do
  match if recv.typeOf.isInterface then none else recv.typeOf.method? name with
  | some sig => return (recv, some sig)
  | none =>
    let p : Ty := .pointer recv.typeOf
    match if recv.kind == .pointer then none else p.method? name with
    | some sig => return (.pointer p (← alloc (.value recv)), some sig)
    | none => return (recv, none)

/-- Whether the methods of this name complete a cell. -/
def completes (name : String) : Bool := name == "Complete" || name == "SetResult"

/-- Whether the methods of this name make a cell fail. -/
def fails (name : String) : Bool := name == "Fail" || name == "SetException"

/-- What the call of a method completes: what a tree stands for, with its value. -/
def completedOn (name : String) (receiver : Expr) (recv : Value) : Option (Expr × Value) :=
  if completes name then some (receiver, recv) else none

/-- Adds to the trail that a method is about to be called which makes the cell that a tree stands for fail. -/
def noteFailing (name : String) (receiver : Expr) (env : Env) : Run Unit :=
  if fails name then recordCell receiver env .failing else pure ()

/-- Calls a method of what a tree stands for. -/
def callOn (c : Calls) (e receiver : Expr) (name : String) (args : List Expr) (env : Env) :
    Run (Option Value) := do
  match ← methodOf (← unwrap (← c.eval receiver env)) name with
  | (recv, none) => unsupported e (recv.typeOf.text ++ " has no method " ++ name)
  | (recv, some sig) =>
    let vs ← evalArgs c sig env args
    watchHanding name args env (invokeAs e sig vs fun vs =>
      watchCompleting (completedOn name receiver recv) env (callMethod c recv name vs))

def evalMethodCall (c : Calls) (e receiver : Expr) (name : String) (args : List Expr) (env : Env) :
    Run (Option Value) := do
  noteFailing name receiver env
  callOn c e receiver name args env

/-- Evaluates one node. -/
def evalNode (c : Calls) (e : Expr) (env : Env) : Run (Option Value) := do
  match e with
  | .absent => panicNil
  | .node _ _ t d =>
    match d with
    | .constant v => return constValue v t
    | .default => return zeroOf t
    | .var v =>
      match env.find? v with
      | some a => return some (← slotAt a).value
      | none => unsupported e ("variable " ++ v.text ++ " is not in scope")
    | .block vars body => evalBlock c t vars body env
    | .assign op target value => evalAssign c e op target value env
    | .binary op l r m => evalBinary c e op l r m env
    | .unary op x m =>
      let v ← c.eval x env
      match m, op with
      | some m, _ => applyNative c e m [v]
      | none, .convert => convertTo v t
      | none, op => some <$> unaryOp op v
    | .throw x =>
      if x.isAbsent then
        match env.caught with
        | some err => raise err
        | none => unsupported e "rethrow outside a handler"
      else
        match asError? (← c.eval x env) with
        | some err => raise err
        | none => raiseFault "throw of a nil error"
    | .typeIs x test => return some (.ofBool (dynamicIs (← c.eval x env) test))
    | .conditional test a b => evalAs c (if ← evalBool c test env then a else b) t env
    | .switch v cases other m => evalSwitch c e v cases other m env
    | .loop body brk cont => evalLoop c t body brk cont env
    | .protect body hs fin fault => evalProtect c t body hs fin fault env
    | .goto _ l x =>
      let v ← if x.isAbsent then pure none else c.eval x env
      throw (.jump l v)
    | .label _ x => if x.isAbsent then return zeroOf t else evalAs c x t env
    | .call fn args => evalCall c e fn args env
    | .methodCall r name args => evalMethodCall c e r name args env
    | .field o name => return some (← fieldOf e (← c.eval o env) none name).1
    | .lambda name _ _ kind _ => some <$> makeClosure e name kind env
    | .await _ _ | .yield _ =>
      refuse e .unloweredSuspend "suspension points must be lowered before evaluation"

end Run

namespace Calls

/-- The evaluator for a given amount of fuel. -/
def level : Nat → Calls
  | 0 => empty
  | n + 1 =>
    { turns := n
      eval := fun e env => Run.evalNode (level n) e env
      call := fun f args => Run.callFunc (level n) f args
      exec := fun k => Run.execCallback (level n) k }

end Calls

namespace Run

/-! ### From outside -/

/-- Evaluates a tree where no jump may be left. -/
def top (c : Calls) (e : Expr) (env : Env) : Run (Option Value) := do
  match ← attempt (c.eval e env) with
  | .ok v => return v
  | .error (.panic p) => raise (← recovered p)
  | .error (.jump l _) => unsupported e ("jump to " ++ l.text ++ " has no target")
  | .error s => throw s

/-- Evaluates a closed tree. -/
def evalClosed (c : Calls) (e : Expr) : Run (Option Value) := do
  return (← top c e {}).bind Value.content

/-- Evaluates a plain lambda to a function. -/
def compile (c : Calls) (e : Expr) : Run Value := do
  if e.isAbsent then raise (.refusal ⟨.unsupported, 0, .constant, "nil expression"⟩)
  if !e.hasKind .lambda then
    unsupported e (((e.kind?).map ExprKind.text).getD "" ++ " is not a lambda")
  match ← top c e {} with
  | some f => return f
  | none => panicNil

/-- Calls a compiled lambda with arguments that are converted to its parameter types. -/
def callCompiled (c : Calls) (lambda : Expr) (f : Value) (args : List (Option Value)) :
    Run (Option Value) := do
  let t := f.typeOf
  let ins := (t.signature?.map (·.1)).getD []
  if args.length != ins.length then
    unsupported lambda (t.text ++ " takes " ++ toString ins.length ++ " arguments, got " ++
      toString args.length)
  let vs ← (args.zip ins).mapM fun (v, t) => convertTo v t
  return (← invoke lambda t vs (c.call f)).bind Value.content

end Run

end Resumable
