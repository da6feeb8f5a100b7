import Resumable.Run.World
import Resumable.Word

/-!
# `Run.Convert`: giving values a static type

A value is widened to an interface it implements, taken out of one, or converted between numbers, text
and types that stand for the same composite. What fits nowhere is a catchable fault.
-/

namespace Resumable

/-- The nearest double of an integer of 64 bits. -/
def doubleOf (n : Int) : Float :=
  if 0 ≤ n then n.toNat.toUInt64.toFloat else -((-n).toNat.toUInt64.toFloat)

/-- The nearest number a float type holds. -/
def roundTo (t : Ty) (x : Float) : Float :=
  if t.kind == .float32 || t.kind == .complex64 then x.toFloat32.toFloat else x

/-- A number without its fraction; none for what is no finite number. -/
def truncate? (x : Float) : Option Int :=
  match Decimal.Binary.ofDouble x with
  | .finite negative m q _ =>
    let n := if 0 ≤ q then m * Nat.pow 2 q.toNat else m / Nat.pow 2 (-q).toNat
    some (if negative then -(n : Int) else n)
  | _ => none

/-- A number as a signed word; what does not fit becomes the least one. -/
def signedWord (x : Float) : Int :=
  ((truncate? x).filter (fitsSigned 64)).getD (-9223372036854775808)

/-- A number as an unsigned word: from half the range on, the excess over it is converted instead. -/
def unsignedWord (x : Float) : Int :=
  let half : Float := 9223372036854775808.0
  wrap 64 false (if x < half then signedWord x else signedWord (x - half) + 9223372036854775808)

namespace Value

/-- The bytes a slice of small integers holds. -/
def bytesOf (vs : List Value) : Bytes :=
  vs.map fun
    | .int _ n => UInt8.ofNat n.toNat
    | _ => 0

/-- The text whose code points a slice holds. -/
def codePoints (vs : List Value) : Bytes :=
  vs.flatMap fun
    | .int _ n => Bytes.ofCodePoint n
    | _ => []

/-- The slice of bytes or code points of a text. -/
def explode (t : Ty) (s : Bytes) : Value :=
  match t.textElem? with
  | some .uint8 => .slice t (s.map fun b => .int (.scalar .uint8) b.toNat)
  | _ => .slice t (s.scalars.map fun c => .int (.scalar .int32) c.1.toNat)

/-- Converts a value to a type that its own type is convertible to. -/
def recast (v : Value) (t : Ty) : Value :=
  match v with
  | .int _ n =>
    match t.kind.integer? with
    | some (bits, signed) => .int t (wrap bits signed n)
    | none =>
      if t.kind.isFloat then .float t (roundTo t (doubleOf n))
      else if t.kind == .string then .text t (Bytes.ofCodePoint n)
      else v.retype t
  | .float _ x =>
    match t.kind.integer? with
    | some (bits, true) => .int t (wrap bits true (signedWord x))
    | some (bits, false) => .int t (wrap bits false (unsignedWord x))
    | none => .float t (roundTo t x)
  | .complex _ a b => .complex t (roundTo t a) (roundTo t b)
  | .text _ s => if t.kind == .string then .text t s else explode t s
  | .slice s vs =>
    if t.kind == .string then
      .text t (if s.textElem? == some .uint8 then bytesOf vs else codePoints vs)
    else v.retype t
  | .null s => if s.kind == .slice && t.kind == .string then .text t [] else v.retype t
  | v => v.retype t

/-- A value in a place of a type it is assignable to. -/
def widen (v : Value) (t : Ty) : Value :=
  if t.isInterface then .box t v.content else v.retype t

end Value

/-- The conversions that keep a meaning: between numbers, to and from text, and within one kind. -/
def Ty.castableTo (source target : Ty) : Bool :=
  (source.kind.isNumber && target.kind.isNumber) ||
    (source.kind == target.kind && source.kind != .slice) ||
    source.kind == .string || target.kind == .string

namespace Run

/-- Gives a value outside a box the type `t`. -/
def convertPlain (v : Value) (t : Ty) : Run Value :=
  let s := v.typeOf
  if s.assignableTo t then pure (v.widen t)
  else if !t.isInterface && s.convertibleTo t && s.castableTo t then pure (v.recast t)
  else raiseFault ("interface conversion: " ++ s.text ++ " is not " ++ t.text)

/-- Gives a value the static type `t`; void has no value, and no value becomes the zero of `t`. -/
def convertTo (v : Option Value) (t : Ty) : Run (Option Value) :=
  if t.isVoid then pure none
  else match v with
    | none => pure (some t.zero)
    | some v =>
      if v.typeOf == t then pure (some v)
      else match v with
        | .box _ none => pure (some t.zero)
        | .box _ (some x) => if x.typeOf == t then pure (some x) else some <$> convertPlain x t
        | v => some <$> convertPlain v t

/-- The zero value of a type, none for void. -/
def zeroOf (t : Ty) : Option Value := if t.isVoid then none else some t.zero

/-- A constant as a value of exactly the type `t`, or as it is when it cannot be converted. -/
def constValue (v : Option Value) (t : Ty) : Option Value :=
  match v with
  | none => zeroOf t
  | some v =>
    if t.isVoid || v.typeOf == t then some v
    else
      let s := v.typeOf
      if s.assignableTo t then some (v.widen t)
      else if !t.isInterface && s.convertibleTo t && s.castableTo t then some (v.recast t)
      else some v

/-- The operand inside a value. -/
def unwrap (v : Option Value) : Run Value :=
  match v with
  | none => raiseFault "operand has no value"
  | some (.box _ none) => raiseFault nilText
  | some (.box _ (some x)) => pure x
  | some v => pure v

/-- Whether the dynamic type of a value fits `t`; an empty interface fits nothing. -/
def dynamicIs (v : Option Value) (t : Ty) : Bool :=
  match v.bind Value.content with
  | some x => x.typeOf.assignableTo t
  | none => false

/-- The error a raised value holds. -/
def asError? (v : Option Value) : Option Value :=
  match v.bind Value.content with
  | some x => if x.typeOf.implements .error then some x else none
  | none => none

end Run

end Resumable
