import Resumable.Expr.Basic
import Resumable.Ty.Capability

/-!
# `Expr.Build`: constructing trees

Construction numbers nodes, variables and labels, so it runs in the state monad `Build` over a `Supply`
of fresh numbers. A constructor refuses operands it cannot be built from: with a message when they are
of the wrong sort, or as a missing operand when it has to look inside an empty slot.
-/

namespace Resumable

/-- The numbers that are handed out next are one more than these. -/
structure Supply where
  /-- The last node id. -/
  nodes : Nat := 0
  /-- The last number given to a variable or label. -/
  names : Nat := 0
  /-- The last node identity. -/
  refs : Nat := 0
  deriving Inhabited

/-- Why a construction stops. -/
inductive Fault where
  /-- An operand of the wrong sort. -/
  | misuse (text : String)
  /-- An empty slot where an operand was needed. -/
  | missing
  /-- The lowering broke one of its own rules. -/
  | defect (text : String)
  deriving DecidableEq, Repr, Inhabited

/-- Computations that construct trees. -/
abbrev Build := EStateM Fault Supply

namespace Build

/-- A new identity for a copy of a node. -/
def freshRef : Build Nat :=
  modifyGet fun s => (s.refs + 1, { s with refs := s.refs + 1 })

/-- A new variable. -/
def newVar (name : String) (t : Ty) : Build Var :=
  modifyGet fun s => (⟨s.names + 1, name, t⟩, { s with names := s.names + 1 })

/-- A new label. -/
def newLabel (name : String) (t : Ty) : Build Label :=
  modifyGet fun s => (⟨s.names + 1, name, t⟩, { s with names := s.names + 1 })

/-- A new node. -/
def node (t : Ty) (d : Data Expr) : Build Expr :=
  modifyGet fun s =>
    (.node (s.nodes + 1) (s.refs + 1) t d, { s with nodes := s.nodes + 1, refs := s.refs + 1 })

/-- The type of an operand that must be there. -/
def typeOf (e : Expr) : Build Ty :=
  if e.isAbsent then throw .missing else pure e.type

/-- The payload of an operand that must be there. -/
def dataOf (e : Expr) : Build (Data Expr) :=
  match e.data? with
  | some d => pure d
  | none => throw .missing

/-- A copy of a node with another payload. -/
def withData (e : Expr) (d : Data Expr) : Build Expr :=
  match e with
  | .absent => throw .missing
  | .node i _ t _ => return .node i (← freshRef) t d

/-- A copy of a node with another type. -/
def withType (e : Expr) (t : Ty) : Build Expr :=
  match e with
  | .absent => throw .missing
  | .node i _ _ d => return .node i (← freshRef) t d

/-! ### Values and variables -/

/-- A literal of the type it carries; nil is void. -/
def const (v : Option Value) : Build Expr := node ((v.map Value.typeOf).getD .void) (.constant v)

/-- A literal under a given type. -/
def constOf (v : Option Value) (t : Ty) : Build Expr := node t (.constant v)

def constInt (n : Int) : Build Expr := const (some (.ofInt n))
def constBool (b : Bool) : Build Expr := const (some (.ofBool b))

/-- The zero value of a type. -/
def default (t : Ty) : Build Expr := node t .default

/-- A node that does nothing. -/
def empty : Build Expr := default .void

/-- Reads a variable. -/
def ref (v : Var) : Build Expr := node v.type (.var v)

/-! ### Sequences and stores -/

/-- A block whose value is given the type `t`; void discards it. -/
def typedBlock (t : Ty) (vars : List Var) (xs : List Expr) : Build Expr := node t (.block vars xs)

/-- A block of the type of its last statement. -/
def block (vars : List Var) (xs : List Expr) : Build Expr := do
  let t ← match xs.getLast? with
    | some x => typeOf x
    | none => pure .void
  typedBlock t vars xs

/-- A plain or compound assignment to a variable or field. -/
def assignWith (op : AssignOp) (target value : Expr) : Build Expr := do
  let k := (← dataOf target).kind
  if k != .variable && k != .field then throw (.misuse ("expr: cannot assign to " ++ k.text))
  node target.type (.assign op target value)

def assign (target value : Expr) : Build Expr := assignWith .plain target value

/-- A step up or down. -/
def increment (op : AssignOp) (target : Expr) : Build Expr := do
  if !op.isIncrement then throw (.misuse ("expr: " ++ op.text ++ " is not an increment"))
  node (← typeOf target) (.assign op target .absent)

/-! ### Operators -/

def binary (op : BinaryOp) (left right : Expr) : Build Expr := do
  let t ← typeOf left
  node (if op.isComparison || op.isShortCircuit then .bool else t) (.binary op left right none)

/-- A binary operator implemented by a function of two parameters and one result. -/
def binaryMethod (op : BinaryOp) (left right : Expr) (method : Native) : Build Expr :=
  match method.type with
  | .func [_, _] _ [t] => node t (.binary op left right (some method))
  | _ => throw (.misuse "expr: binary method must be func(a, b) r")

def not (e : Expr) : Build Expr := node .bool (.unary .not e none)

def unary (op : UnaryOp) (e : Expr) (method : Option Native) : Build Expr := do
  node (← typeOf e) (.unary op e method)

def negate (e : Expr) : Build Expr := unary .negate e none

/-- Converts to a type, or asserts it. -/
def convert (e : Expr) (t : Ty) : Build Expr := node t (.unary .convert e none)

/-- Raises a value in a position of type `t`; an empty slot raises the caught error again. -/
def throwAs (value : Expr) (t : Ty) : Build Expr := do
  if !value.isAbsent && !value.type.implements .error then
    throw (.misuse ("expr: throw of non-error " ++ value.type.text))
  node t (.throw value)

def raise (value : Expr) : Build Expr := throwAs value .void
def rethrow : Build Expr := throwAs .absent .void

def typeIs (e : Expr) (t : Ty) : Build Expr := node .bool (.typeIs e t)

/-! ### Control flow -/

def typedCondition (t : Ty) (test a b : Expr) : Build Expr := node t (.conditional test a b)

/-- A conditional of the type of its first arm. -/
def condition (test a b : Expr) : Build Expr := do typedCondition (← typeOf a) test a b

def ifThenElse (test a b : Expr) : Build Expr := typedCondition .void test a b

/-- A conditional without a second arm. -/
def ifThen (test a : Expr) : Build Expr := do typedCondition .void test a (← empty)

def switch (t : Ty) (value default : Expr) (comparer : Option Native)
    (cases : List (List Expr × Expr)) : Build Expr :=
  node t (.switch value cases default comparer)

/-- Repeats the body until a jump to `brk`, whose type is the loop's. -/
def loop (body : Expr) (brk cont : Option Label) : Build Expr :=
  node ((brk.map Label.type).getD .void) (.loop body brk cont)

/-- A protected body, of the body's type. -/
def protect (body : Expr) (handlers : List (Handler Expr)) (fin fault : Expr) : Build Expr := do
  node (← typeOf body) (.protect body handlers fin fault)

/-- A protected body with one handler for every error. -/
def catchAll (body : Expr) (v : Var) (handler : Expr) : Build Expr :=
  protect body [⟨.error, some v, .absent, handler⟩] .absent .absent

def jump (kind : GotoKind) (target : Label) (value : Expr) : Build Expr :=
  node .void (.goto kind target value)

/-- The place of a label. -/
def mark (target : Label) (default : Expr) : Build Expr := node target.type (.label target default)

/-! ### Calls -/

/-- The single result of a func type, as a fault of the constructor when there is none. -/
def resultOf (t : Ty) : Build Ty :=
  match t.funcResult with
  | .ok (r, _) => pure r
  | .error e => throw (.misuse ("expr: " ++ e.message))

def call (fn : Expr) (args : List Expr) : Build Expr := do
  let t ← typeOf fn
  if t.kind != .func then throw (.misuse ("expr: call of non-func " ++ t.text))
  node (← resultOf t) (.call fn args)

/-- Calls a function value. -/
def callFunc (f : Value) (args : List Expr) : Build Expr := do call (← const (some f)) args

/-- Calls a native function. -/
def callNative (n : Native) (args : List Expr) : Build Expr := callFunc (.ofNative n) args

/-- Calls a function of the asynchronous library. -/
def callLibrary (f : Library) (args : List Expr) : Build Expr :=
  callFunc (.func f.type (.library f)) args

def methodCall (receiver : Expr) (name : String) (args : List Expr) : Build Expr := do
  let t ← typeOf receiver
  match t.method? name with
  | none => throw (.misuse ("expr: " ++ t.text ++ " has no method " ++ name))
  | some sig => node (← resultOf sig) (.methodCall receiver name args)

/-- Reads a field of a struct or of a pointer to one. -/
def field (object : Expr) (name : String) : Build Expr := do
  let t ← typeOf object
  let st := match t.underlying with
    | .pointer e => e
    | _ => t
  if st.kind != .struct then
    throw (.misuse ("expr: field " ++ name ++ " of non-struct " ++ t.text))
  match st.field? name with
  | none => throw (.misuse ("expr: " ++ st.text ++ " has no field " ++ name))
  | some (_, f) => node f.type (.field object name)

/-! ### Lambdas and suspension points -/

/-- A closure with an explicit func type. -/
def lambdaOf (shape : Ty) (name : String) (kind : LambdaKind) (fallible : Bool) (params : List Var)
    (body : Expr) : Build Expr :=
  let fits := match shape.signature? with
    | some (ins, _, _) => ins.length == params.length
    | none => false
  if fits then node shape (.lambda name params body kind fallible)
  else throw (.misuse ("expr: lambda shape " ++ shape.text ++ " does not take " ++
    toString params.length ++ " params"))

/-- A plain closure whose func type follows from its parameters and body. -/
def lambda (name : String) (fallible : Bool) (params : List Var) (body : Expr) : Build Expr := do
  let t ← typeOf body
  let outs := (if t.isVoid then [] else [t]) ++ (if fallible then [.error] else [])
  lambdaOf (.func (params.map Var.type) false outs) name .plain fallible params body

/-- A lambda that returns a completion handle. -/
def asyncLambda (name : String) (handle : Ty) (params : List Var) (body : Expr) : Build Expr :=
  lambdaOf (.func (params.map Var.type) false [handle]) name .async false params body

/-- A lambda that returns a sequence. -/
def iteratorLambda (name : String) (seq : Ty) (params : List Var) (body : Expr) : Build Expr :=
  lambdaOf (.func (params.map Var.type) false [seq]) name .iterator false params body

/-- Suspends on an awaitable; the node of anything else is void and refused later. -/
def await (operand : Expr) (configured : Option Bool) : Build Expr := do
  node ((← typeOf operand).awaitResult configured.isSome) (.await operand configured)

def yield (value : Expr) : Build Expr := node .void (.yield value)

end Build

namespace Expr

/-- The value result of a lambda's func type; void when there are several. -/
def lambdaResult (e : Expr) : Build Ty :=
  match e.type.funcResult with
  | .ok (r, _) => pure r
  | .error (.notFunc t) => throw (.misuse (ResultFault.notFunc t).message)
  | .error (.tooMany _ _) => pure .void

/-! ### Rebuilding -/

section
variable {m : Type → Type} [Monad m]

/-- What comes into an operand slot when `y` makes a tree of what is there. An empty slot stays empty; that
another node comes into the slot is noted. -/
def exchange (x : Expr) (y : m Expr) : StateT Bool m Expr := do
  if x.isAbsent then return x
  let y ← y
  unless x.same y do set true
  return y

/-- Applies `f` to an operand of a payload, in its slot. -/
def exchangeBy {d : Data Expr} (f : (c : Expr) → sizeOf c < sizeOf d → m Expr) (x : Expr)
    (hx : x ∈ operands d := by simp [operands]) : StateT Bool m Expr :=
  exchange x (f x (sizeOf_lt_of_mem_operands hx))

/-- Applies `f` to the operands of a payload in evaluation order. A target of a store is an operand when it is
a field. -/
def mapOperands (d : Data Expr) (f : (c : Expr) → sizeOf c < sizeOf d → m Expr) : StateT Bool m (Data Expr) :=
  match d, f with
  | .constant v, _ => return .constant v
  | .default, _ => return .default
  | .var v, _ => return .var v
  | .block vars xs, f => return .block vars (← xs.attach.mapM fun ⟨x, hx⟩ => exchangeBy f x hx)
  | .assign op target value, f => do
    let target ← if ht : target.hasKind .field then exchangeBy f target (by simp [operands, ht]) else pure target
    return .assign op target (← exchangeBy f value (by simp only [operands]; split <;> simp))
  | .binary op left right method, f => do
    let left ← exchangeBy f left
    return .binary op left (← exchangeBy f right) method
  | .unary op x method, f => return .unary op (← exchangeBy f x) method
  | .throw value, f => return .throw (← exchangeBy f value)
  | .typeIs x test, f => return .typeIs (← exchangeBy f x) test
  | .conditional test ifTrue ifFalse, f => do
    let test ← exchangeBy f test
    let ifTrue ← exchangeBy f ifTrue
    return .conditional test ifTrue (← exchangeBy f ifFalse)
  | .switch value arms default comparer, f => do
    let value ← exchangeBy f value
    let arms ← arms.attach.mapM fun ⟨arm, harm⟩ => do
      let tests ← arm.1.attach.mapM fun ⟨x, hx⟩ =>
        exchangeBy f x (by simpa [operands] using .inr (.inl ⟨_, _, harm, .inl hx⟩))
      return (tests, ← exchangeBy f arm.2 (by simpa [operands] using .inr (.inl ⟨_, _, harm, .inr rfl⟩)))
    return .switch value arms (← exchangeBy f default) comparer
  | .loop body brk cont, f => return .loop (← exchangeBy f body) brk cont
  | .protect body handlers fin fault, f => do
    let body ← exchangeBy f body
    let handlers ← handlers.attach.mapM fun ⟨h, hh⟩ => do
      let filter ← exchangeBy f h.filter (by simpa [operands] using .inr (.inl ⟨h, hh, .inl rfl⟩))
      let body ← exchangeBy f h.body (by simpa [operands] using .inr (.inl ⟨h, hh, .inr rfl⟩))
      return { h with filter, body }
    let fin ← exchangeBy f fin
    return .protect body handlers fin (← exchangeBy f fault)
  | .goto kind target value, f => return .goto kind target (← exchangeBy f value)
  | .label target default, f => return .label target (← exchangeBy f default)
  | .call fn args, f => do
    let fn ← exchangeBy f fn
    return .call fn (← args.attach.mapM fun ⟨x, hx⟩ => exchangeBy f x (by simp [operands, hx]))
  | .methodCall receiver method args, f => do
    let receiver ← exchangeBy f receiver
    return .methodCall receiver method (← args.attach.mapM fun ⟨x, hx⟩ => exchangeBy f x (by simp [operands, hx]))
  | .field object name, f => return .field (← exchangeBy f object) name
  | .lambda name params body kind fallible, f => return .lambda name params (← exchangeBy f body) kind fallible
  | .await x configured, f => return .await (← exchangeBy f x) configured
  | .yield value, f => return .yield (← exchangeBy f value)

variable [MonadLiftT Build m]

/-- Applies `f` to the direct operands. The node is copied only when an operand becomes another
node. -/
def mapChildren (e : Expr) (f : (c : Expr) → sizeOf c < sizeOf e → m Expr) : m Expr :=
  match e, f with
  | .absent, _ => return .absent
  | .node i r t d, f => do
    let (d', changed) ← (mapOperands d fun c hc => f c (by simp; omega)).run false
    if changed then return .node i (← Build.freshRef) t d' else return .node i r t d

/-- Applies `f` bottom-up to every node, also inside lambdas. -/
def rewrite (f : Expr → m Expr) (e : Expr) : m Expr := do
  if e.isAbsent then return e
  f (← e.mapChildren fun c _ => rewrite f c)
  termination_by sizeOf e
  decreasing_by assumption

end

/-- Converts a value to a type when its static type is another; void and empty slots are left alone. -/
def coerce (e : Expr) (t : Ty) : Build Expr :=
  if e.isAbsent || t.isVoid || e.type == t then pure e else Build.convert e t

end Expr

end Resumable
