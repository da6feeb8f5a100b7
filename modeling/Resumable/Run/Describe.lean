import Resumable.Expr.Dump
import Resumable.Run.Show
import Resumable.Text.Quoted

/-!
# `Run.Describe`: constants in writing

In a rendering of a tree scalars are written as literals, functions by name, errors by message and
everything else by type. Where a constant is written as it is built, pointers to structs stand with the
fields behind them, and functions with an address.
-/

namespace Resumable.World

/-- The written form of a constant. -/
def describe (w : World) (v : Option Value) : String :=
  match v with
  | none => "<nil>"
  | some v =>
    let t := v.typeOf
    let byType := "<" ++ t.text ++ ">"
    let errorText : Option String :=
      if t.implements .error then (w.message? v).map Bytes.toText else none
    match v, errorText with
    | _, some m => "<error " ++ m ++ ">"
    | .func _ (.native n), _ => "<func " ++ n.text ++ ">"
    | .func _ _, _ => "<func>"
    | .null t, _ => if t.kind == .func then "<func>" else byType
    | .type t, _ => "<type " ++ t.text ++ ">"
    | .bool _ b, _ => if b then "true" else "false"
    | .int t n, _ =>
      if t.kind.isUnsigned then "0x" ++ String.ofList (Nat.toDigits 16 n.toNat) else toString n
    | .float t x, _ => if t.kind == .float32 then Decimal.ofSingle x else Decimal.ofDouble x
    | .complex t a b, _ =>
      if t.kind == .complex64 then Decimal.ofComplexSingle a b else Decimal.ofComplex a b
    | .text _ s, _ => Text.quoteBytes s
    | _, _ => byType

/-- The rendering of a tree in a world. -/
def dump (w : World) (e : Expr) : String := e.dump w.describe

/-- The written form of a struct. -/
def structLiteral (w : World) (t : Ty) (fs : List Value) : String :=
  let field (p : Value × FieldDecl) : String := p.2.name ++ ":" ++ w.describe (some p.1)
  t.text ++ "\x7b" ++ ", ".intercalate ((fs.zip t.fields).map field) ++ "\x7d"

/-- The written form of a settled cell that nothing waits for. -/
def cellLiteral (w : World) (t : Ty) (c : Completion) : String :=
  let mutex := "sync.Mutex\x7b_:sync.noCopy\x7b\x7d, mu:sync.Mutex\x7bstate:0, sema:0x0\x7d\x7d"
  let error := match c.err with
    | none => "error(nil)"
    | some e => w.describe (some e)
  let value := match c.value with
    | none => ""
    | some v => ", value:" ++ w.describe (some v)
  t.text ++ "\x7bcompletion:asyncrt.completion\x7bmu:" ++ mutex ++ ", done:" ++
    (if c.done then "true" else "false") ++ ", err:" ++ error ++
    ", wakers:[]func()(nil), doneCh:(chan struct \x7b\x7d)(nil), sched:asyncrt.Scheduler(nil), version:0x" ++
    String.ofList (Nat.toDigits 16 c.version.toNat) ++ "\x7d" ++ value ++ "\x7d"

/-- The written form of a constant, with what is behind a pointer. -/
def literal (w : World) (v : Option Value) : String :=
  match v with
  | some (.func t _) => "(" ++ t.text ++ ")(0x1)"
  | some (.pointer (.pointer t) a) =>
    match w.store[a]? with
    | some (.value (.struct _ fs)) => "&" ++ w.structLiteral t fs
    | some (.completion c) => "&" ++ w.cellLiteral t c
    | _ => w.describe v
  | v => w.describe v

end Resumable.World
