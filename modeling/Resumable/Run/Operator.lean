import Resumable.Run.Convert

/-!
# `Run.Operator`: the built-in operators

Arithmetic gives a value of the left operand's type and wraps around at its width; comparisons give a
truth value. The right operand is converted to the left one's type, except for shift counts.
-/

namespace Resumable.Run

/-- Why an operator has no result. -/
def undefinedOn (op : String) (t : Ty) : Run α :=
  raiseText ("operator " ++ op ++ " not defined on " ++ t.text)

/-- Converts a number to another number type; real and complex numbers do not mix. -/
def convertNumber (v : Value) (t : Ty) : Run Value :=
  if v.typeOf.convertibleTo t then pure (v.recast t)
  else panicText ("reflect.Value.Convert: value of type " ++ v.typeOf.text ++
    " cannot be converted to type " ++ t.text)

/-- Converts the right operand when both are numbers of different types. -/
def alignNumber (l r : Value) : Run Value :=
  if r.typeOf != l.typeOf && r.kind.isNumber && l.kind.isNumber then convertNumber r l.typeOf
  else pure r

/-- Equality of two values; comparing what cannot be compared is a fault. -/
def equal (l r : Option Value) : Run Bool := do
  match l, r with
  | some l, some r =>
    let r ← alignNumber l r
    match l.equalContents? r with
    | .ok b => return b
    | .error t => raiseFault ("runtime error: comparing uncomparable type " ++ t.text)
  | none, none => return true
  | _, _ => return false

/-- The operands without their boxes, the right one converted. -/
def operands (op : BinaryOp) (l r : Option Value) : Run (Value × Value) := do
  let l ← unwrap l
  let r ← unwrap r
  if op.isShift then return (l, r)
  let r ← alignNumber l r
  if r.kind != l.kind then
    raiseText ("mismatched operands " ++ l.typeOf.text ++ " " ++ op.text ++ " " ++ r.typeOf.text)
  return (l, r)

/-- A shift count. -/
def shiftCount (r : Value) : Run Nat :=
  match r with
  | .int _ n => if n < 0 then raiseFault "negative shift amount" else pure n.toNat
  | r => raiseText ("shift count of type " ++ r.typeOf.text)

/-- `a · 2 ^ n` in a word of 64 bits. -/
def shiftLeft (a : Int) (n : Nat) : Int := if n ≥ 64 then 0 else a * (Nat.pow 2 n : Nat)

/-- `a / 2 ^ n` rounded down. -/
def shiftRight (a : Int) (n : Nat) : Int :=
  if n ≥ 64 then (if a < 0 then -1 else 0) else a / (Nat.pow 2 n : Nat)

/-- Comparison by an order. -/
def compare? (op : BinaryOp) (less equal : Bool) : Option Bool :=
  match op with
  | .less => some less
  | .lessEqual => some (less || equal)
  | .greater => some (!less && !equal)
  | .greaterEqual => some (!less)
  | _ => none

/-- Operators on integers of one type. The operands are words of 64 bits, and the result is cut to the
width of the type. -/
def integerOp (op : BinaryOp) (t : Ty) (a : Int) (r : Value) : Run Value := do
  let (bits, signed) := t.kind.integer?.getD (64, true)
  let word (n : Int) : Int := wrap 64 false n
  let result (n : Int) : Run Value := pure (.int t (wrap bits signed (wrap 64 signed n)))
  let b := match r with
    | .int _ n => n
    | _ => 0
  match op with
  | .shl => do result (shiftLeft a (← shiftCount r))
  | .shr => do result (shiftRight a (← shiftCount r))
  | .add => result (a + b)
  | .sub => result (a - b)
  | .mul => result (a * b)
  | .div => if b == 0 then raiseFault "integer divide by zero" else result (a.tdiv b)
  | .mod => if b == 0 then raiseFault "integer divide by zero" else result (a.tmod b)
  | .and => result ((word a).toNat &&& (word b).toNat : Nat)
  | .or => result ((word a).toNat ||| (word b).toNat : Nat)
  | .xor => result ((word a).toNat ^^^ (word b).toNat : Nat)
  | _ =>
    match compare? op (a < b) (a == b) with
    | some c => return .ofBool c
    | none => undefinedOn op.text t

/-- Operators on floating-point numbers of one type. -/
def floatOp (op : BinaryOp) (t : Ty) (a b : Float) : Run Value :=
  let result (x : Float) : Run Value := pure (.float t (roundTo t x))
  match op with
  | .add => result (a + b)
  | .sub => result (a - b)
  | .mul => result (a * b)
  | .div => result (a / b)
  | .less => pure (.ofBool (a < b))
  | .lessEqual => pure (.ofBool (a ≤ b))
  | .greater => pure (.ofBool (a > b))
  | .greaterEqual => pure (.ofBool (a ≥ b))
  | _ => undefinedOn op.text t

/-- Operators on text of one type. -/
def textOp (op : BinaryOp) (t : Ty) (a b : Bytes) : Run Value :=
  match op with
  | .add => pure (.text t (a ++ b))
  | _ =>
    match compare? op (a.less b) (a == b) with
    | some c => pure (.ofBool c)
    | none => undefinedOn op.text t

/-- Logical operators that evaluate both operands. -/
def boolOp (op : BinaryOp) (a b : Bool) : Run Value :=
  match op with
  | .and | .andAlso => pure (.ofBool (a && b))
  | .or | .orElse => pure (.ofBool (a || b))
  | .xor => pure (.ofBool (a != b))
  | _ => raiseText ("operator " ++ op.text ++ " not defined on bool")

/-- Applies a binary operator. -/
def binaryOp (op : BinaryOp) (l r : Option Value) : Run Value := do
  if op == .equal || op == .notEqual then
    return .ofBool ((← equal l r) == (op == .equal))
  let (l, r) ← operands op l r
  match l, r with
  | .int t a, r => integerOp op t a r
  | .float t a, .float _ b => floatOp op t a b
  | .float t a, r => if op.isShift then badCount op t r else floatOp op t a 0
  | .text t a, .text _ b => textOp op t a b
  | .text t _, r => if op.isShift then badCount op t r else undefinedOn op.text t
  | .bool _ a, .bool _ b => boolOp op a b
  | .bool t _, r => if op.isShift then badCount op t r else undefinedOn op.text t
  | l, _ => undefinedOn op.text l.typeOf
where
  /-- A shift of something other than an integer reads its count as a number of that kind. -/
  badCount (op : BinaryOp) (t : Ty) (r : Value) : Run Value :=
    let reader := match t.kind with
      | .string => "String"
      | .bool => "Bool"
      | _ => "Float"
    if t.kind == .string then undefinedOn op.text t
    else panicError ("reflect: call of reflect.Value." ++ reader ++ " on " ++ r.kind.text ++ " Value")

/-- Applies a unary operator other than a conversion. -/
def unaryOp (op : UnaryOp) (v : Option Value) : Run Value := do
  let v ← unwrap v
  match op, v with
  | .not, .bool _ b => return .ofBool !b
  | .plus, v => if v.kind.isNumber then return v else undefinedOn op.text v.typeOf
  | .negate, .int t n =>
    let (bits, signed) := t.kind.integer?.getD (64, true)
    return .int t (wrap bits signed (-n))
  | .negate, .float t x => return .float t (-x)
  | op, v => undefinedOn op.text v.typeOf

end Resumable.Run
