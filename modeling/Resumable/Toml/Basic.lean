import Resumable.Text.Quoted

/-!
# `Toml`: documents of nested tables

A document is a table of keys and values. Tables are opened by headers, by the parts of dotted keys and by
braces. A table that was only passed through on the way to another one is implicit and may still be opened
by a header of its own; anything else may be defined once.

**Contents**
* `Item`, `Key`: values and paths to them.
* `Document`: the tables so far, and the keys in the order of their appearance.
* `Document.set?`, `Document.enter?`: definitions and headers.
-/

namespace Resumable.Toml

/-- A value. Numbers with a fraction and times are kept as they are written. -/
inductive Item where
  | text (s : String)
  | integer (n : Int)
  | float (written : String)
  | bool (b : Bool)
  | time (written : String)
  | array (xs : List Item)
  | table (entries : List (String × Item))
  /-- The tables of one header in double brackets, latest first. -/
  | tables (ts : List (List (String × Item)))
  deriving Inhabited

/-- The entries of a table. -/
abbrev Entries := List (String × Item)

/-- A path of names. -/
abbrev Key := List String

/-- Whether a character may stand in a name without quotes. -/
def isBare (c : Char) : Bool := c.isAlphanum || c == '_' || c == '-'

namespace Key

/-- A name as it is written. -/
def nameText (s : String) : String :=
  if !s.isEmpty && s.toList.all isBare then s
  else
    let char (c : Char) : List Char :=
      match c with
      | '"' => ['\\', '"'] | '\\' => ['\\', '\\'] | '\n' => ['\\', 'n'] | '\t' => ['\\', 't']
      | '\r' => ['\\', 'r'] | c => [c]
    String.ofList ('"' :: s.toList.flatMap char ++ ['"'])

/-- A path as it is written. -/
def text (k : Key) : String := ".".intercalate (k.map nameText)

end Key

namespace Entries

/-- The value of a name. -/
def find? (es : Entries) (name : String) : Option Item := es.lookup name

/-- Sets the value of a name, which stays where it is. -/
def put (es : Entries) (name : String) (v : Item) : Entries :=
  if es.any (·.1 == name) then es.map fun (k, x) => (k, if k == name then v else x)
  else es ++ [(name, v)]

/-- Changes the table at a path; nothing when the path does not lead through tables. A path through several
tables of one header leads to the latest. -/
def modify? (f : Entries → Option Entries) : Key → Entries → Option Entries
  | [], es => f es
  | k :: ks, es =>
    match es.find? k with
    | some (.table inner) => (modify? f ks inner).map fun t => es.put k (.table t)
    | some (.tables (t :: ts)) => (modify? f ks t).map fun t => es.put k (.tables (t :: ts))
    | _ => none

/-- The table at a path. -/
def table? (es : Entries) : Key → Option Entries
  | [] => some es
  | k :: ks =>
    match es.find? k with
    | some (.table inner) => table? inner ks
    | some (.tables (t :: _)) => table? t ks
    | _ => none

end Entries

/-- A document while it is read. -/
structure Document where
  root : Entries := []
  /-- Every key that was written, latest first. -/
  keys : List Key := []
  /-- The tables that were only passed through. -/
  implicit : List Key := []
  /-- The keys whose last value was an array in brackets; such a value may be replaced. -/
  arrays : List Key := []
  /-- The table that keys belong to. -/
  context : Key := []
  deriving Inhabited

namespace Document

/-- Remembers that a key was written. -/
def note (d : Document) (k : Key) : Document := { d with keys := k :: d.keys }

/-- Remembers whether the value of a key is an array. -/
def markArray (d : Document) (k : Key) (isArray : Bool) : Document :=
  let others := d.arrays.filter (· != k)
  { d with arrays := if isArray then k :: others else others }

/-- A table that is passed through. -/
def markImplicit (d : Document) (k : Key) : Document :=
  if d.implicit.contains k then d else { d with implicit := k :: d.implicit }

/-- A table that is defined by itself. -/
def markExplicit (d : Document) (k : Key) : Document :=
  { d with implicit := d.implicit.filter (· != k) }

/-- Defines a name in the current table. An implicit table stays as it is and becomes explicit. -/
def set? (d : Document) (name : String) (v : Item) : Option Document := do
  let k := d.context ++ [name]
  let here ← d.root.table? d.context
  let put : Option Entries := d.root.modify? (fun es => some (es.put name v)) d.context
  match here.find? name with
  | none => return { d with root := ← put }
  | some _ =>
    if d.arrays.contains k then return { d with root := ← put }.markExplicit k
    if d.implicit.contains k then return d.markExplicit k
    none

/-- Passes through the tables of a path, making those that are missing; `done` is the path so far. -/
def passThrough? (d : Document) (done : Key) : Key → Option Document
  | [] => some d
  | k :: ks => do
    let path := done ++ [k]
    let here ← d.root.table? done
    let d ← match here.find? k with
      | none => do
        let root ← d.root.modify? (fun es => some (es.put k (.table []))) done
        pure ({ d with root }.markImplicit path)
      | some (.table _) | some (.tables _) => pure d
      | some _ => none
    passThrough? d path ks

/-- Opens the table of a header; `isArray` adds one more table to those of the header. -/
def enter? (d : Document) (k : Key) (isArray : Bool) : Option Document := do
  let outer := k.dropLast
  let name := k.getLastD ""
  let d ← d.passThrough? [] outer
  let d := { d with context := outer }
  let d ← if isArray then do
      let here ← d.root.table? outer
      let ts ← match here.find? name with
        | none => some []
        | some (.tables ts) => some ts
        | some _ => none
      pure { d with root := ← d.root.modify? (fun es => some (es.put name (.tables ([] :: ts)))) outer }
    else d.set? name (.table [])
  return { d with context := k }

/-- Opens the tables of the front part of a dotted key, one after the other. -/
def descend? (d : Document) : Key → Option Document
  | [] => some d
  | k :: ks => do
    let path := d.context ++ [k]
    descend? (← (d.markImplicit path).enter? path false) ks

end Document

end Resumable.Toml
