import Resumable.Form.Basic
import Resumable.Session
import Resumable.Run.Describe

/-!
# `Form.Write`: values, errors and trees as forms

Numbers that a run has handed out itself depend on how a tree was processed, so texts show them renamed
in the order of their appearance.
-/

namespace Resumable

/-- The numbers that belong to what was read, as opposed to what was generated later. -/
structure Origin where
  names : Nat
  nodes : Nat

namespace Form

/-- Renames the numbers above `names` that follow a `$` or `#`; `seen` holds those met so far, and
`fuel` bounds the length of the text. -/
def maskChars (names : Nat) : Nat → List Nat → List Char → List Char
  | _, _, [] => []
  | 0, _, cs => cs
  | fuel + 1, seen, c :: rest =>
    let ds := rest.takeWhile Char.isDigit
    if (c == '$' || c == '#') && !ds.isEmpty then
      let n := ds.foldl (fun n d => 10 * n + (d.toNat - 48)) 0
      let rest := rest.drop ds.length
      if n > names then
        let seen := if seen.contains n then seen else seen ++ [n]
        c :: 'g' :: (toString (seen.idxOf n + 1)).toList ++ maskChars names fuel seen rest
      else c :: ds ++ maskChars names fuel seen rest
    else c :: maskChars names fuel seen rest

/-- Renames the generated numbers of a text. -/
def mask (o : Origin) (s : String) : String :=
  String.ofList (maskChars o.names (s.length + 1) [] s.toList)

/-- A text, in hexadecimal when it is none. -/
def ofBytes (bs : Bytes) : Form :=
  if bs.isUtf8 then .text bs.toText else .record [("hex", .text bs.toHex)]

/-- The bits of a floating-point number. -/
def ofFloat (t : Ty) (x : Float) : Form :=
  let bits (width n : Nat) : Form := .text ("0x" ++ String.ofList (Text.hex width n))
  if x.isNaN then .text "NaN"
  else if t.kind == .float32 || t.kind == .complex64 then bits 8 x.toFloat32.toBits.toNat
  else bits 16 x.toBits.toNat

/-- The word for the sort of an error. -/
def errorWord (v : Value) : String :=
  match v.typeOf with
  | .pointer (.named .runtimeError) => "RuntimeError"
  | .pointer (.named .invalidOperation) => "InvalidOperation"
  | .pointer (.named .argumentError) => "ArgumentError"
  | .pointer (.named .invariantError) => "InvariantError"
  | .named .valErr => "ValErr"
  | .named .sliceErr => "SliceErr"
  | _ => "error"

/-- What is told about an error. -/
def errorFields (w : World) (o : Origin) (v : Value) : List (String × Form) :=
  match v with
  | .refusal r =>
    [("error", .text "eval"), ("message", .text (mask o r.msg)), ("code", .text r.code.id),
      ("kind", .text r.kind.text),
      ("node", if r.node ≤ o.nodes then .nat r.node else .text "generated")]
  | v =>
    [("error", .text (errorWord v)), ("message", .text (mask o ((w.message? v).getD []).toText))]

/-- The longest slice that is written out. -/
def longestSlice : Nat := 1000

/-- A value as a form; `depth` bounds the nesting. -/
def ofValueAt (w : World) (o : Origin) : Nat → Option Value → Form
  | 0, _ => .null
  | _, none => .list [.text "nil"]
  | depth + 1, some v =>
    let t := Form.text v.typeOf.text
    let point (fs : List Value) : Form :=
      let inner := match fs.getD 2 (.null .any) with
        | .struct _ [v] => v.asInt
        | _ => 0
      .list [t, .num (fs.getD 0 (.null .any)).asInt, .num (fs.getD 1 (.null .any)).asInt, .num inner,
        .bool !(fs.getD 3 (.null .any)).isNil, ofValueAt w o depth (fs.getD 4 (.null .any)).content]
    match v with
    | .box _ c => ofValueAt w o depth c
    | .null _ => .list [t, .text "nil"]
    | v =>
      if v.typeOf.implements .error then .list [.text "error", .record (errorFields w o v)]
      else match v with
        | .bool _ b => .list [t, .bool b]
        | .int _ n => .list [t, .text (toString n)]
        | .float ty x => .list [t, ofFloat ty x]
        | .complex ty a b => .list [t, ofFloat ty a, ofFloat ty b]
        | .text _ s => .list [t, ofBytes s]
        | .slice ty es =>
          if ty == .slice (.scalar .uint8) then .list [t, .text (Value.bytesOf es).toHex]
          else if es.length > longestSlice then
            .list [t, .record [("len", .nat es.length), ("first", ofValueAt w o depth es.head?),
              ("last", ofValueAt w o depth es.getLast?)]]
          else .list [t, .list (es.map fun e => ofValueAt w o depth (some e))]
        | .struct (.named .point) fs => point fs
        | .pointer (.pointer (.named .point)) a => point (w.fieldsAt a)
        | _ => .list [t]

/-- A value as a form. -/
def ofValue (w : World) (o : Origin) (v : Option Value) : Form := ofValueAt w o 64 v

/-- What is told about a panic. -/
def panicFields (w : World) (o : Origin) (p : Panic) : List (String × Form) :=
  match p with
  | .text s => [("error", .text "panic"), ("message", .text (mask o s.toText))]
  | .error e => errorFields w o e ++ [("panic", .bool true)]
  | .machine _ => [("error", .text "runtime_panic")]
  | .uncaught e => [("error", .text "uncaught"), ("cause", .record (errorFields w o e))]

/-- What is told about a computation that stopped. -/
def stopFields (w : World) (o : Origin) (s : Stop) : List (String × Form) :=
  match s with
  | .raised e => errorFields w o e
  | .jump l _ =>
    [("error", .text "error"), ("message", .text (mask o ("unresolved jump to " ++ l.text)))]
  | .panic p => panicFields w o p
  | .exhausted => [("error", .text "exhausted")]

/-- What is told about a construction that stopped. -/
def faultFields (o : Origin) (f : Fault) : List (String × Form) :=
  match f with
  | .misuse s => [("error", .text "panic"), ("message", .text (mask o s))]
  | .missing => [("error", .text "runtime_panic")]
  | .defect s =>
    [("error", .text "error"), ("message", .text ("lower: " ++ s)), ("panic", .bool true)]

/-- A diagnostic as a form. -/
def ofDiagnostic (d : Diagnostic) : Form :=
  let notes := d.notes.map fun n => Form.list [.text n.loc.lambda, .nat n.loc.node, .text n.msg]
  .record ([("sev", .text d.severity.text), ("code", .text d.code.id),
    ("lambda", .text d.primary.lambda), ("node", .nat d.primary.node), ("msg", .text d.message)] ++
    if notes.isEmpty then [] else [("notes", .list notes)])

/-- What is told about a tree that cannot be lowered. -/
def refusedFields (ds : List Diagnostic) : List (String × Form) :=
  [("error", .text "diag"), ("message", .text (failureText ds)),
    ("diags", .list (ds.map ofDiagnostic))]

/-- What is told about work that failed. -/
def failureFields (w : World) (o : Origin) (f : Failure) : List (String × Form) :=
  match f with
  | .fault f => faultFields o f
  | .stop s => stopFields w o s
  | .refused ds => refusedFields ds
  | .unread s => [("error", .text "bad_input"), ("message", .text s)]

/-- The log, when there is one. -/
def logFields (log : Array Bytes) : List (String × Form) :=
  if log.isEmpty then [] else [("log", .list (log.toList.map ofBytes))]

/-- The rendering of a tree. -/
def ofTree (w : World) (o : Origin) (e : Expr) : Form := .text (mask o (w.dump e))

end Form

namespace Work

/-- The numbers handed out so far, which belong to what was read. -/
def origin : Work Origin := do
  let s ← get
  return ⟨s.vars.length + s.labels.length, s.supply.nodes⟩

/-- What is told about an outcome. -/
def outcomeFields (o : Origin) (r : Except Failure (Option Value)) : Work (List (String × Form)) := do
  let w := (← get).world
  match r with
  | .ok v => return [("value", Form.ofValue w o v)]
  | .error f => return Form.failureFields w o f

/-- Takes the log and tells about it. -/
def takeLogFields : Work (List (String × Form)) := Form.logFields <$> run Run.takeLog

/-- The form of an outcome, with what was logged on the way. -/
def report (o : Origin) (x : Work (Option Value)) : Work Form := do
  let r ← attempt x
  let fields ← outcomeFields o r
  return .record (fields ++ (← takeLogFields))

end Work

end Resumable
