import Resumable.Text.Blank
import Resumable.Text.Json
import Resumable.Text.Layout

/-!
# `Trace.Event`: what a trace records

An event begins or ends a span, or marks a point. Its scope says how fine it is, and a level lets through
the scopes up to its own. All of them are numbers with names; other numbers are unknown.

**Contents**
* `Kind`, `Scope`, `Level`: numbers with names.
* `Event`: one record, as a line of text or of JSON.
* `stamp`: the time of an event.
-/

namespace Resumable.Trace

/-- The name of a number that has none. -/
def unknown : String := "unknown"

/-- What an event marks. -/
structure Kind where
  number : Nat
  deriving DecidableEq, Repr, Inhabited

namespace Kind

def start : Kind := ⟨1⟩
def finish : Kind := ⟨2⟩
def point : Kind := ⟨3⟩

def text (k : Kind) : String :=
  match k.number with
  | 1 => "begin" | 2 => "end" | 3 => "point" | _ => unknown

/-- The arrow in front of a name. -/
def arrow (k : Kind) : String :=
  match k.number with
  | 1 => "→ " | 2 => "← " | 3 => "• " | _ => ""

end Kind

/-- How fine an event is: smaller numbers are coarser. -/
structure Scope where
  number : Nat
  deriving DecidableEq, Repr, Inhabited

namespace Scope

def batch : Scope := ⟨1⟩
def pass : Scope := ⟨2⟩
def lambda : Scope := ⟨3⟩
def state : Scope := ⟨4⟩

def text (s : Scope) : String :=
  match s.number with
  | 1 => "batch" | 2 => "pass" | 3 => "lambda" | 4 => "state" | _ => unknown

end Scope

/-- How much is traced. -/
structure Level where
  number : Nat
  deriving DecidableEq, Repr, Inhabited

namespace Level

def off : Level := ⟨0⟩
def phase : Level := ⟨1⟩
def detail : Level := ⟨2⟩
def debug : Level := ⟨3⟩

def text (l : Level) : String :=
  match l.number with
  | 0 => "off" | 1 => "phase" | 2 => "detail" | 3 => "debug" | _ => unknown

/-- Whether events of a scope pass. -/
def admits (l : Level) (s : Scope) : Bool :=
  match l.number with
  | 1 => s.number ≤ Scope.pass.number
  | 2 => s.number ≤ Scope.lambda.number
  | 3 => true
  | _ => false

/-- Whether anything is recorded at all. -/
def isOn (l : Level) : Bool := l.number > 0

/-- Reads the name of a level, or gives what is wrong with it. -/
def parse (s : String) : Except String Level :=
  match Text.lower (Text.trim s) with
  | "" | "off" => .ok off
  | "phase" => .ok phase
  | "detail" => .ok detail
  | "debug" => .ok debug
  | _ => .error ("invalid trace level: " ++ Text.quote s ++ " (expected: off|phase|detail|debug)")

end Level

/-! ### Time -/

/-- `n` in at least `width` digits. -/
def digits (width : Nat) (n : Nat) : String :=
  let s := toString n
  "".pushn '0' (width - s.length) ++ s

/-- The year, month and day of a day counted from the first of January 1970: days are counted from the
first of March of the year 0, in eras of 400 years. -/
def civil (day : Int) : Int × Nat × Nat :=
  let z := day + 719468
  let era := z.fdiv 146097
  let doe := (z - era * 146097).toNat
  let yoe := (doe - doe / 1460 + doe / 36524 - doe / 146096) / 365
  let doy := doe - (365 * yoe + yoe / 4 - yoe / 100)
  let mp := (5 * doy + 2) / 153
  let d := doy - (153 * mp + 2) / 5 + 1
  let m := if mp < 10 then mp + 3 else mp - 9
  let y := (yoe : Int) + era * 400 + (if m ≤ 2 then 1 else 0)
  (y, m, d)

/-- The time that is `us` microseconds after the beginning of 1970, in UTC. -/
def stamp (us : Int) : String :=
  let day := us.fdiv 86400000000
  let rest := (us - day * 86400000000).toNat
  let (y, m, d) := civil day
  let year := if y < 0 then "-" ++ digits 4 (-y).toNat else digits 4 y.toNat
  let seconds := rest / 1000000
  year ++ "-" ++ digits 2 m ++ "-" ++ digits 2 d ++ "T" ++ digits 2 (seconds / 3600) ++ ":" ++
    digits 2 (seconds / 60 % 60) ++ ":" ++ digits 2 (seconds % 60) ++ "." ++
    digits 6 (rest % 1000000) ++ "Z"

/-! ### Events -/

/-- One record of a trace. -/
structure Event where
  /-- Microseconds since the beginning of 1970, where the time is known. -/
  time : Option Int := none
  seq : UInt64 := 0
  kind : Kind
  scope : Scope
  /-- The number of the span, 0 for none. -/
  span : UInt64 := 0
  /-- The number of the span around it, 0 for none. -/
  parent : UInt64 := 0
  name : String := ""
  detail : String := ""
  attrs : List (String × String) := []
  deriving Inhabited, DecidableEq

/-- What stands for a time or duration that is not known. -/
def unmeasured : String := "-"

/-- How events are written. -/
inductive Format where
  /-- As the path of the output says. -/
  | auto
  | text
  | json
  deriving DecidableEq, Repr, Inhabited

namespace Format

def all : List Format := [.auto, .text, .json]

/-- Reads the name of a format, or gives what is wrong with it. -/
def parse (s : String) : Except String Format :=
  match Text.lower s with
  | "" | "auto" => .ok .auto
  | "text" => .ok .text
  | "ndjson" | "json" => .ok .json
  | _ => .error ("invalid trace format: " ++ Text.quote s ++ " (expected: auto|text|ndjson)")

/-- The format for an output with a path. -/
def resolve (f : Format) (path : String) : Format :=
  if f != .auto then f
  else if path.endsWith ".ndjson" || path.endsWith ".jsonl" then .json
  else .text

end Format

namespace Event

/-- A line of text, indented by the scope. -/
def line (e : Event) : String :=
  "#" ++ Text.padRight 6 (toString e.seq) ++ " " ++ Text.padRight 6 e.scope.text ++ " " ++
    "".pushn ' ' (2 * (e.scope.number - 1)) ++ e.kind.arrow ++ e.name ++
    (if e.detail.isEmpty then "" else " (" ++ e.detail ++ ")") ++
    String.join (e.attrs.map fun (k, v) => " " ++ k ++ "=" ++ v) ++ "\n"

/-- The attributes by key, the last of several with one key. -/
def attrMap (e : Event) : List (String × String) :=
  let latest := e.attrs.foldl (fun m (k, v) => m.filter (·.1 != k) ++ [(k, v)]) []
  latest.mergeSort fun a b => !decide (b.1 < a.1)

/-- A line of JSON. -/
def json (e : Event) : String :=
  let string := Text.Json.string
  let some_ (key : String) (isEmpty : Bool) (v : String) : List (String × String) :=
    if isEmpty then [] else [(key, v)]
  Text.Json.object (
    [("time", string ((e.time.map stamp).getD unmeasured)), ("seq", toString e.seq),
      ("kind", string e.kind.text), ("scope", string e.scope.text)] ++
    some_ "span" (e.span == 0) (toString e.span) ++
    some_ "parent" (e.parent == 0) (toString e.parent) ++
    [("name", string e.name)] ++
    some_ "detail" e.detail.isEmpty (string e.detail) ++
    some_ "attrs" e.attrs.isEmpty
      (Text.Json.object (e.attrMap.map fun (k, v) => (k, string v)))) ++ "\n"

/-- The event in a format. -/
def render (e : Event) (f : Format) : String := if f == .json then e.json else e.line

end Event

end Resumable.Trace
