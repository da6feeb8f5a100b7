import Resumable.Ty.Method

/-!
# `Ty.Relation`: which values fit which types

`Ty.assignableTo` says when a value may be stored without conversion, `Ty.convertibleTo` when a
conversion exists at all, `Ty.isComparable` when two values of a type may be tested for equality.
-/

namespace Resumable.Ty

/-- What is left of a type without its name, where that is one thing for several types: an interface is the list
of its methods, and of the structs of the runtime that declare the same hidden fields one stands for all. -/
def layout : Ty → Ty
  | .interface _ ms => .interface "" ms
  | .named n => (n.interface?.map (Ty.interface "")).getD (.named n)
  | .any => .interface "" []
  | .applied .valueTaskSource args => .applied .task args
  | .applied .valueTaskAwaiter [.unit] => .named .valueFuture
  | t => t

/-- Two declared or written types behind which the same composite stands. -/
def sameUnderlying (a b : Ty) : Bool :=
  if a == b then true
  else
    match a.underlying, b.underlying with
    | .named m, .named n =>
      (m.isEmptyStruct && n.isEmptyStruct) ||
        (m.interface?.isNone && n.interface?.isNone && !m.fields.isEmpty &&
          m.fields.map (fun f => (f.name, f.type, f.exported)) ==
            n.fields.map (fun f => (f.name, f.type, f.exported)) && m.fields.all (·.exported))
    | .named m, .unit | .unit, .named m => m.isEmptyStruct
    | x, y => x.layout == y.layout

/-- The identity of channel types that differ in direction only, when `from` runs both ways. -/
def channelAssignable (source target : Ty) : Bool :=
  (!source.isNamed || !target.isNamed) &&
    match source.underlying, target.underlying with
    | .chan .both a, .chan _ b => a == b
    | _, _ => false

/-- Whether a value of type `source` may be stored in a place of type `target` as it is: the types are
the same, the target is an interface the source implements, or one of them has no name of its own and
both stand for the same composite. -/
def assignableTo (source target : Ty) : Bool :=
  source == target || source.implements target ||
    (!(source.isNamed && target.isNamed) && source.kind == target.kind &&
      (channelAssignable source target || sameUnderlying source target))

/-- The element of a slice type that text converts to and from: bytes or code points. -/
def textElem? (t : Ty) : Option Kind :=
  match t.underlying with
  | .slice (.scalar .uint8) => some .uint8
  | .slice (.scalar .int32) => some .int32
  | _ => none

/-- Whether some conversion takes values of type `source` to type `target`. -/
def convertibleTo (source target : Ty) : Bool :=
  let s := source.kind
  let t := target.kind
  let real (k : Kind) : Bool := k.integer?.isSome || k.isFloat
  (real s && real t) ||
  (s.integer?.isSome && t == .string) ||
  (s.isComplex && t.isComplex) ||
  (s == .string && target.textElem?.isSome) ||
  (source.textElem?.isSome && t == .string) ||
  (match source.underlying, target.underlying with
    | .slice a, .array _ b => a == b
    | .slice a, .pointer (.array _ b) => a == b
    | _, _ => false) ||
  channelAssignable source target ||
  sameUnderlying source target ||
  (match source, target with
    | .pointer a, .pointer b => sameUnderlying a b
    | _, _ => false) ||
  source.implements target

/-- Whether values of the type may be compared: no slice, map or func inside. -/
def isComparable (t : Ty) : Bool :=
  match t.underlying with
  | .slice _ | .map _ _ | .func _ _ _ => false
  | .array _ e => match e.underlying with
    | .slice _ | .map _ _ | .func _ _ _ => false
    | _ => true
  | _ => true

end Resumable.Ty
