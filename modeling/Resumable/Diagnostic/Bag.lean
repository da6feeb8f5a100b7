import Resumable.Diagnostic.Basic
import Resumable.Text.Blank

/-!
# `Diagnostic.Bag`: a bounded collection, and the reporters that fill it

A bag takes diagnostics in report order until it is full. A deduplicating reporter forwards each
combination of code, severity, place and message once, because one node may sit at several places of a
tree and every place reports.
-/

namespace Resumable

/-- A bounded list of diagnostics in report order. -/
structure Bag where
  items : List Diagnostic
  max : Nat
  deriving Repr, Inhabited

namespace Bag

/-- The largest bound. -/
def limit : Nat := 65535

/-- An empty bag; a bound outside `1 … limit` means `limit`. -/
def empty (max : Int) : Bag :=
  ⟨[], if max ≤ 0 || max > limit then limit else max.toNat⟩

/-- Appends `d`, or reports `false` when the bag is full. -/
def add (b : Bag) (d : Diagnostic) : Bool × Bag :=
  if b.items.length ≥ b.max then (false, b) else (true, { b with items := b.items ++ [d] })

def hasErrors (b : Bag) : Bool := b.items.any (·.severity == .error)

def hasWarnings (b : Bag) : Bool := b.items.any (·.severity != .info)

/-- The first diagnostic with a code. -/
def first? (b : Bag) (c : Code) : Option Diagnostic := b.items.find? (·.code == c)

/-- Stable order by lambda, node, descending severity and code. -/
def sort (b : Bag) : Bag :=
  { b with items := b.items.mergeSort fun x y => !y.sortedBefore x }

end Bag

/-- The text of the failure that diagnostics with errors stand for. -/
def failureText : List Diagnostic → String
  | [d] => d.text
  | ds => "; ".intercalate ((ds.filter Diagnostic.isError).map Diagnostic.text)

/-- Puts a message on one line. -/
def oneLine (msg : String) : String :=
  let rec go : List Char → List Char
    | '\r' :: '\n' :: r => ' ' :: go r
    | '\r' :: r => ' ' :: go r
    | '\n' :: r => ' ' :: go r
    | c :: r => c :: go r
    | [] => []
  Text.trim (String.ofList (go msg.toList))

/-- One line per diagnostic in a stable order, with its notes below it when asked for. -/
def formatShort (ds : List Diagnostic) (notes : Bool) : String :=
  let sorted := ds.mergeSort fun x y => !y.before x
  "\n".intercalate (sorted.flatMap fun d =>
    (d.severity.text ++ " " ++ d.code.id ++ " " ++ d.primary.text ++ " " ++ oneLine d.message) ::
      (if notes then
        d.notes.map fun n => "note " ++ d.code.id ++ " " ++ n.loc.text ++ " " ++ oneLine n.msg
      else []))

/-- What decides whether a diagnostic was seen before. -/
structure Fingerprint where
  code : Code
  severity : Severity
  loc : Location
  msg : String
  deriving DecidableEq, Repr

def Diagnostic.fingerprint (d : Diagnostic) : Fingerprint :=
  ⟨d.code, d.severity, d.primary, d.message⟩

/-- A bag behind a reporter that drops repetitions. A full bag still remembers what it was shown. -/
structure Reporter where
  bag : Bag
  seen : List Fingerprint
  deriving Repr

namespace Reporter

def ofBag (b : Bag) : Reporter := ⟨b, []⟩

/-- Forwards `d` unless it was reported before. -/
def report (r : Reporter) (d : Diagnostic) : Reporter :=
  if r.seen.contains d.fingerprint then r
  else ⟨(r.bag.add d).2, d.fingerprint :: r.seen⟩

end Reporter

end Resumable
