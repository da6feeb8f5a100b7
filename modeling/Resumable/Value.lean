import Resumable.Decimal.Number
import Resumable.Diagnostic.Code
import Resumable.Expr.Op
import Resumable.Native
import Resumable.Text.Bytes
import Resumable.Ty.Relation
import Resumable.Ty.Text

/-!
# `Value`: run-time values

A value carries its type. Scalars are held as numbers and bytes, structs as lists of field values in
declaration order, pointers as addresses into a store, functions by what they stand for. A value of
interface type is a `box` around a value of another type, or empty. Equality (`Value.equal?`) fails on
types that cannot be compared.
-/

namespace Resumable

/-- Functions of the asynchronous library that generated code calls. -/
inductive Library where
  | newTask (t : Ty) | fromResult (t : Ty) | fromError (t : Ty)
  | newFuture | completed | failedFuture
  | rentValueTask (t : Ty) | valueTaskOf (t : Ty) | valueTaskFailed (t : Ty)
  | rentValueFuture | completeValueFuture | asValueFuture | completedValueFuture | failedValueFuture
  | newInvariantError | newSequence | adapt
  deriving Inhabited

namespace Library

/-- The func type. -/
def type : Library → Ty
  | .newTask t => .func [] false [.task t]
  | .fromResult t => .func [t] false [.task t]
  | .fromError t => .func [.error] false [.task t]
  | .newFuture | .completed => .func [] false [.future]
  | .failedFuture => .func [.error] false [.future]
  | .rentValueTask t => .func [] false [.source t]
  | .valueTaskOf t => .func [t] false [.valueTask t]
  | .valueTaskFailed t => .func [.error] false [.valueTask t]
  | .rentValueFuture => .func [] false [.source .unit]
  | .completeValueFuture => .func [.source .unit] false [.bool]
  | .asValueFuture => .func [.valueTask .unit] false [.named .valueFuture]
  | .completedValueFuture => .func [] false [.named .valueFuture]
  | .failedValueFuture => .func [.error] false [.named .valueFuture]
  | .newInvariantError => .func [.int] false [.pointer (.named .invariantError)]
  | .newSequence => .func [.func [] false [.step]] false [.sequence]
  | .adapt => .func [.sequence, .named .typeIface] false [.any]

end Library

/-- What a function value runs. -/
inductive Func where
  | native (n : Native)
  | library (f : Library)
  /-- A closure, by its number in the store. -/
  | closure (id : Nat)
  /-- The range function of a sequence object, which gives its elements as they are. -/
  | pairs (sequence : Nat)
  /-- A sequence object adapted to a range function of another type. -/
  | ranging (sequence : Nat)
  /-- A consumer of elements, by its number in the store. -/
  | consumer (id : Nat)
  /-- A scripted enumeration: the factory of it, and one of its steps. -/
  | script (id : Nat)
  | scriptStep (id : Nat)
  deriving Inhabited

/-- A failure of the evaluator itself, as opposed to an error raised by the evaluated tree. -/
structure Refusal where
  code : Code
  node : Nat
  kind : ExprKind
  msg : String
  deriving DecidableEq, Repr, Inhabited

def Refusal.message (r : Refusal) : String :=
  r.code.id ++ " at " ++ r.kind.text ++ " node " ++ toString r.node ++ ": " ++ r.msg

/-- Values. -/
inductive Value where
  | bool (type : Ty) (b : Bool)
  | int (type : Ty) (n : Int)
  | float (type : Ty) (x : Float)
  | complex (type : Ty) (re im : Float)
  | text (type : Ty) (s : Bytes)
  | struct (type : Ty) (fields : List Value)
  | slice (type : Ty) (elems : List Value)
  | array (type : Ty) (elems : List Value)
  | pointer (type : Ty) (address : Nat)
  | func (type : Ty) (f : Func)
  /-- The nil of a pointer, slice, map, channel or func type. -/
  | null (type : Ty)
  /-- A value of interface type, empty or around a value of another type. -/
  | box (type : Ty) (content : Option Value)
  /-- A type used as a value. -/
  | type (t : Ty)
  | refusal (r : Refusal)
  deriving Inhabited

namespace Value

/-- The type a value carries. -/
def typeOf : Value → Ty
  | .bool t _ | .int t _ | .float t _ | .complex t _ _ | .text t _ | .struct t _ | .slice t _
  | .array t _ | .pointer t _ | .func t _ | .null t | .box t _ => t
  | .type _ => .pointer (.named .typeRep)
  | .refusal _ => .pointer (.named .evalError)

def kind (v : Value) : Kind := v.typeOf.kind

def ofBool (b : Bool) : Value := .bool .bool b
def ofInt (n : Int) : Value := .int .int n
def ofText (s : String) : Value := .text .string (Bytes.ofString s)

/-- A native function as a value. -/
def ofNative (n : Native) : Value := .func n.type (.native n)

/-- The same value under another type that stands for the same composite. -/
def retype (t : Ty) : Value → Value
  | .bool _ b => .bool t b
  | .int _ n => .int t n
  | .float _ x => .float t x
  | .complex _ a b => .complex t a b
  | .text _ s => .text t s
  | .struct _ fs => .struct t fs
  | .slice _ es => .slice t es
  | .array _ es => .array t es
  | .pointer _ a => .pointer t a
  | .func _ f => .func t f
  | .null _ => .null t
  | .box _ c => .box t c
  | v => v

/-- The value inside a box, `none` when it is empty; other values are their own content. -/
def content : Value → Option Value
  | .box _ c => c
  | v => some v

/-- Whether a value is the nil of its type. -/
def isNil : Value → Bool
  | .null _ => true
  | .box _ none => true
  | _ => false

/-- A possibly missing value as a value of interface type `t`. -/
def boxed (t : Ty) (v : Option Value) : Value := .box t (v.bind content)

mutual
/-- Equality of two values outside boxes: values of different types differ, a type that cannot be
compared is reported, and structs are compared field by field up to the first difference. -/
def equal? : Value → Value → Except Ty Bool
  | .bool s a, .bool t b => .ok (s == t && a == b)
  | .int s a, .int t b => .ok (s == t && a == b)
  | .float s a, .float t b => .ok (s == t && a == b)
  | .complex s a b, .complex t c d => .ok (s == t && a == c && b == d)
  | .text s a, .text t b => .ok (s == t && a == b)
  | .pointer s a, .pointer t b => .ok (s == t && a == b)
  | .type s, .type t => .ok (s == t)
  | .refusal r, .refusal q => .ok (r == q)
  | .struct s as, .struct t bs => if s == t then equalList? as bs else .ok false
  | .array s as, .array t bs =>
    if s == t then if s.isComparable then equalList? as bs else .error s else .ok false
  | .box _ none, .box _ none => .ok true
  | .box _ (some a), .box _ (some b) => equal? a b
  | .null s, v | .slice s _, v | .func s _, v =>
    if s == v.typeOf then
      if s.isComparable then
        match v with
        | .null _ => .ok true
        | _ => .ok false
      else .error s
    else .ok false
  | .pointer _ _, .null _ => .ok false
  | _, _ => .ok false

/-- Equality of fields in order. -/
def equalList? : List Value → List Value → Except Ty Bool
  | a :: as, b :: bs =>
    match equal? a b with
    | .ok true => equalList? as bs
    | r => r
  | _, _ => .ok true
end

/-- Equality of the contents of two values that may be boxes. -/
def equalContents? (a b : Value) : Except Ty Bool :=
  match a.content, b.content with
  | none, none => .ok true
  | some x, some y => equal? x y
  | _, _ => .ok false

end Value

namespace Ty

/-- The zero value of a type; `depth` bounds the nesting of structs. -/
def zeroAt : Nat → Ty → Value
  | depth, t =>
    match t.kind with
    | .bool => .bool t false
    | .string => .text t []
    | .float32 | .float64 => .float t 0
    | .complex64 | .complex128 => .complex t 0 0
    | .chan | .func | .map | .pointer | .slice => .null t
    | .interface => .box t none
    | .struct =>
      match depth with
      | 0 => .struct t []
      | d + 1 => .struct t (t.fields.map fun f => zeroAt d f.type)
    | .array =>
      match depth, t.underlying with
      | d + 1, .array n e => .array t (List.replicate n (zeroAt d e))
      | _, _ => .array t []
    | _ => .int t 0

/-- The zero value of a type. -/
def zero (t : Ty) : Value := zeroAt 6 t

end Ty

end Resumable
