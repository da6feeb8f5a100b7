import Resumable.Expr.Facts
import Resumable.Ty.Method

/-!
# `Expr.Safe`: trees that cannot raise

A tree is safe when it is built only from constants, reads and stores of variables, built-in operators
that cannot fail and structural control flow. Calls, raises, operators and comparers given by functions,
fields behind pointers and conversions that assert are not safe. Looking into an empty slot gives no
answer.
-/

namespace Resumable

namespace Expr

/-- The static type of an operand that is looked into. -/
def type? (e : Expr) : Option Ty := if e.isAbsent then none else some e.type

/-- An integer literal other than zero. -/
def isNonZero : Expr → Bool
  | .node _ _ _ (.constant (some (.int _ n))) => n != 0
  | _ => false

/-- A literal that is no negative integer, or a value of an unsigned type. -/
def isUnsigned? (e : Expr) : Option Bool :=
  match e with
  | .absent => none
  | .node _ _ _ (.constant (some (.int t n))) => some (!t.kind.isSigned || n ≥ 0)
  | .node _ _ _ (.constant _) => some true
  | .node _ _ t _ => some t.kind.isUnsigned

end Expr

namespace Ty

/-- The types numeric conversions go between without failing. -/
def convertsFreely (t : Ty) : Bool :=
  (t.kind.integer?.isSome || t.kind.isFloat) && t.kind != .uintptr

/-- Conversions that cannot fail: between numbers, and to an interface that the value implements. -/
def safeConversion (source target : Ty) : Bool :=
  source == target ||
    (if target.isInterface then source.implements target
     else source.convertsFreely && target.convertsFreely)

end Ty

namespace Expr

/-- Whether a node of type `t` itself cannot raise, whatever its operands do. -/
def safeNode? (t : Ty) (d : Data Expr) : Option Bool :=
  match d with
  | .constant _ | .default | .var _ | .block _ _ | .conditional _ _ _ | .loop _ _ _ | .goto _ _ _
  | .label _ _ | .typeIs _ _ | .lambda _ _ _ _ _ => some true
  | .assign op target value =>
    if !target.hasKind .variable then some false
    else if op == .div || op == .mod then some value.isNonZero
    else some true
  | .binary op left right method =>
    if method.isSome then some false
    else match op with
      | .div | .mod => some right.isNonZero
      | .shl | .shr => right.isUnsigned?
      | .equal | .notEqual =>
        left.type?.bind fun l =>
          if l.isInterface then some false else right.type?.map fun r => !r.isInterface
      | _ => some true
  | .unary op operand method =>
    if method.isSome then some false
    else if op == .convert then operand.type?.map fun s => s.safeConversion t
    else some true
  | .switch value _ _ comparer =>
    if comparer.isSome then some false else value.type?.map fun v => !v.isInterface
  | .field object _ => object.type?.map fun o => o.kind == .struct
  | .throw _ | .protect _ _ _ _ | .call _ _ | .methodCall _ _ _ | .await _ _ | .yield _ => some false

/-- Whether every answer in a list is yes, asking no further after the first no. -/
def allYes : List (Unit → Option Bool) → Option Bool
  | [] => some true
  | a :: rest =>
    match a () with
    | some true => allYes rest
    | r => r

/-- Whether a tree cannot raise. Making a closure runs nothing. -/
def isSafe? (e : Expr) : Option Bool :=
  match e with
  | .absent => some true
  | .node _ _ t d =>
    match safeNode? t d with
    | some true =>
      if d.kind == .lambda then some true
      else allYes ((operands d).attach.map fun c => fun _ => isSafe? c.1)
    | r => r
  termination_by sizeOf e
  decreasing_by
    have := sizeOf_lt_of_mem_operands c.2
    simp only [Expr.node.sizeOf_spec]
    omega

end Expr

end Resumable
