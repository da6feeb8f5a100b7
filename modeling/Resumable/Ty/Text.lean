import Resumable.Ty.Kind

/-!
# `Ty.Text`: how types are written

`Ty.text` writes a type, `Ty.parse?` reads one back. Reading also accepts `any` for the interface
without methods and `void` for the type of nodes without a value.
-/

namespace Resumable

namespace Scalar

def text (s : Scalar) : String := s.kind.text

def all : List Scalar :=
  [.bool, .int, .int8, .int16, .int32, .int64, .uint, .uint8, .uint16, .uint32, .uint64, .uintptr,
    .float32, .float64, .complex64, .complex128, .string]

end Scalar

namespace TypeName

def text : TypeName → String
  | .error => "error" | .void => "expr.voidType"
  | .inner => "main.Inner" | .point => "main.Point" | .myInt => "main.MyInt"
  | .myStr => "main.MyStr" | .speaker => "main.Speaker" | .gen => "main.Gen"
  | .valErr => "main.ValErr" | .sliceErr => "main.SliceErr"
  | .job => "main.Job" | .voidJob => "main.VoidJob" | .errJob => "main.ErrJob"
  | .inline => "main.Inline" | .twice => "main.Twice" | .ifaceJob => "main.IfaceJob"
  | .broken => "main.Broken" | .badGet => "main.BadGet" | .noDoneJob => "main.NoDoneJob"
  | .badOnJob => "main.BadOnJob" | .badResJob => "main.BadResJob"
  | .resArgJob => "main.ResArgJob" | .badConf => "main.BadConf"
  | .confBroken => "main.ConfBroken"
  | .aw => "main.aw" | .voidAw => "main.voidAw" | .errAw => "main.errAw"
  | .inlineAw => "main.inlineAw" | .twiceAw => "main.twiceAw" | .noDone => "main.noDone"
  | .badOn => "main.badOn" | .badRes => "main.badRes" | .resArg => "main.resArg"
  | .bag => "main.Bag" | .badBag => "main.BadBag" | .ptrBag => "main.PtrBag"
  | .future => "asyncrt.Future" | .futureAwaiter => "asyncrt.FutureAwaiter"
  | .configuredFuture => "asyncrt.ConfiguredFuture" | .valueFuture => "asyncrt.ValueFuture"
  | .valueFutureAwaiter => "asyncrt.ValueFutureAwaiter" | .sequence => "asyncrt.Sequence"
  | .enumerator => "asyncrt.Enumerator" | .current => "asyncrt.Current" | .loop => "asyncrt.Loop"
  | .virtualClock => "asyncrt.VirtualClock" | .timer => "asyncrt.Timer"
  | .timerId => "asyncrt.TimerID" | .config => "asyncrt.Config"
  | .scheduler => "asyncrt.Scheduler" | .clock => "asyncrt.Clock"
  | .invariantError => "asyncrt.InvariantError"
  | .invalidOperation => "samples.InvalidOperation" | .argumentError => "samples.ArgumentError"
  | .runtimeError => "eval.RuntimeError" | .evalError => "eval.Error"
  | .errorText => "errors.errorString" | .joinedError => "errors.joinError"
  | .wrappedError => "fmt.wrapError" | .diagError => "diag.Error"
  | .code => "diag.Code" | .nodeId => "expr.NodeID" | .exprKind => "expr.ExprKind"
  | .context => "context.Context" | .typeIface => "reflect.Type" | .typeRep => "reflect.rtype"

def all : List TypeName :=
  [.error, .void, .inner, .point, .myInt, .myStr, .speaker, .gen, .valErr, .sliceErr, .job, .voidJob,
    .errJob, .inline, .twice, .ifaceJob, .broken, .badGet, .noDoneJob, .badOnJob, .badResJob,
    .resArgJob, .badConf, .confBroken, .aw, .voidAw, .errAw, .inlineAw, .twiceAw, .noDone, .badOn,
    .badRes, .resArg, .bag, .badBag, .ptrBag, .future, .futureAwaiter, .configuredFuture,
    .valueFuture, .valueFutureAwaiter, .sequence, .enumerator, .current, .loop, .virtualClock,
    .timer, .timerId, .config, .scheduler, .clock, .invariantError, .invalidOperation,
    .argumentError, .runtimeError, .evalError, .errorText, .joinedError, .wrappedError, .diagError,
    .code, .nodeId, .exprKind, .context, .typeIface, .typeRep]

end TypeName

namespace Generic

def text : Generic → String
  | .task => "asyncrt.Task" | .taskAwaiter => "asyncrt.TaskAwaiter"
  | .configuredTask => "asyncrt.ConfiguredTask" | .valueTaskSource => "asyncrt.ValueTaskSource"
  | .valueTask => "asyncrt.ValueTask" | .valueTaskAwaiter => "asyncrt.ValueTaskAwaiter"
  | .seq => "iter.Seq" | .seq2 => "iter.Seq2"

def all : List Generic :=
  [.task, .taskAwaiter, .configuredTask, .valueTaskSource, .valueTask, .valueTaskAwaiter, .seq, .seq2]

end Generic

namespace Ty

mutual
/-- The written form of a type. -/
def text : Ty → String
  | .scalar s => s.text
  | .named n => n.text
  | .applied g args => g.text ++ "[" ++ ",".intercalate (textList args) ++ "]"
  | .pointer t => "*" ++ t.text
  | .slice t => "[]" ++ t.text
  | .array n t => "[" ++ toString n ++ "]" ++ t.text
  | .map k t => "map[" ++ k.text ++ "]" ++ t.text
  | .chan .both t => "chan " ++ t.text
  | .chan .receive t => "<-chan " ++ t.text
  | .chan .send t => "chan<- " ++ t.text
  | .func ins variadic outs =>
    "func(" ++ ", ".intercalate (textParams variadic ins) ++ ")" ++
      match textList outs with
      | [] => ""
      | [t] => " " ++ t
      | ts => " (" ++ ", ".intercalate ts ++ ")"
  | .interface name _ => name
  | .any => "interface \x7b\x7d"
  | .unit => "struct \x7b\x7d"

/-- The written forms of several types. -/
def textList : List Ty → List String
  | [] => []
  | t :: ts => t.text :: textList ts

/-- The written forms of parameters; a variadic last one shows its element type. -/
def textParams (variadic : Bool) : List Ty → List String
  | [] => []
  | [t] =>
    match variadic, t with
    | true, .slice e => ["..." ++ e.text]
    | _, t => [t.text]
  | t :: u :: ts => t.text :: textParams variadic (u :: ts)
end

/-- The type as a node header shows it: `void` for no value. -/
def label (t : Ty) : String := if t.isVoid then "void" else t.text

/-! ### Reading -/

/-- The rest of `cs` after the text `s`. -/
def after? (s : String) (cs : List Char) : Option (List Char) :=
  let p := s.toList
  if p.isPrefixOf cs then some (cs.drop p.length) else none

/-- A character that may stand in a declared name. -/
def nameChar (c : Char) : Bool := c.isAlphanum || c == '.' || c == '_'

/-- The name without parameters that `s` spells. -/
def ofName? (s : String) : Option Ty :=
  if s == "any" then some .any
  else if s == "void" then some void
  else match Scalar.all.find? (·.text == s) with
    | some k => some (.scalar k)
    | none => (TypeName.all.find? (·.text == s)).map .named

mutual
/-- Reads one type; `fuel` bounds the nesting. -/
def read : Nat → List Char → Option (Ty × List Char)
  | 0, _ => none
  | fuel + 1, cs =>
    match cs with
    | '*' :: r => (read fuel r).map fun (t, r) => (.pointer t, r)
    | '[' :: ']' :: r => (read fuel r).map fun (t, r) => (.slice t, r)
    | '[' :: r =>
      match (String.ofList (r.takeWhile Char.isDigit)).toNat?, r.dropWhile Char.isDigit with
      | some n, ']' :: r => (read fuel r).map fun (t, r) => (.array n t, r)
      | _, _ => none
    | _ =>
      match after? "map[" cs with
      | some r =>
        match read fuel r with
        | some (k, ']' :: r) => (read fuel r).map fun (t, r) => (.map k t, r)
        | _ => none
      | none =>
      match after? "chan<- " cs with
      | some r => (read fuel r).map fun (t, r) => (.chan .send t, r)
      | none =>
      match after? "<-chan " cs with
      | some r => (read fuel r).map fun (t, r) => (.chan .receive t, r)
      | none =>
      match after? "chan " cs with
      | some r => (read fuel r).map fun (t, r) => (.chan .both t, r)
      | none =>
      match after? "interface \x7b\x7d" cs with
      | some r => some (.any, r)
      | none =>
      match after? "struct \x7b\x7d" cs with
      | some r => some (.unit, r)
      | none =>
      match after? "func(" cs with
      | some r =>
        match readList fuel r with
        | some (ins, variadic, r) =>
          match r with
          | ' ' :: '(' :: r =>
            (readList fuel r).map fun (outs, _, r) => (.func ins variadic outs, r)
          | ' ' :: r => (read fuel r).map fun (t, r) => (.func ins variadic [t], r)
          | r => some (.func ins variadic [], r)
        | none => none
      | none =>
        let name := String.ofList (cs.takeWhile nameChar)
        match cs.dropWhile nameChar with
        | '[' :: r =>
          match Generic.all.find? (·.text == name) with
          | some g => (readArgs fuel r).map fun (args, r) => (.applied g args, r)
          | none => none
        | r => (ofName? name).map fun t => (t, r)

/-- Reads parameters up to the closing parenthesis. -/
def readList : Nat → List Char → Option (List Ty × Bool × List Char)
  | 0, _ => none
  | fuel + 1, cs =>
    match cs with
    | ')' :: r => some ([], false, r)
    | '.' :: '.' :: '.' :: r =>
      match read fuel r with
      | some (t, ')' :: r) => some ([.slice t], true, r)
      | _ => none
    | _ =>
      match read fuel cs with
      | some (t, ')' :: r) => some ([t], false, r)
      | some (t, ',' :: ' ' :: r) => (readList fuel r).map fun (ts, v, r) => (t :: ts, v, r)
      | _ => none

/-- Reads type arguments up to the closing bracket. -/
def readArgs : Nat → List Char → Option (List Ty × List Char)
  | 0, _ => none
  | fuel + 1, cs =>
    match read fuel cs with
    | some (t, ']' :: r) => some ([t], r)
    | some (t, ',' :: r) => (readArgs fuel r).map fun (ts, r) => (t :: ts, r)
    | _ => none
end

/-- Reads a type from its whole written form. -/
def parse? (s : String) : Option Ty :=
  match read (s.length + 1) s.toList with
  | some (t, []) => some t
  | _ => none

end Ty

end Resumable
