import Resumable.Text.Bytes

/-!
# `Report.Layout`: values as documents

What is stored is a document: scalars, texts, lists of documents and maps of them. A format writes documents
as bytes, reads them again, and decides which fields of a record are left out for being empty; it is chosen by
the caller. A layout says how the values of a type stand in a document. Reading is more liberal than writing:
integers of any width are cut down to the width that is wanted, null stands for the zero, and a record may have
its fields in any order, with others between them, or be a list of all its fields.

**Contents**
* `Doc`, `Format`: documents, and what is done with them.
* `Layout`: how values of a type stand in a document.
* `Field`, `Layout.record`: records as maps of their fields.
-/

namespace Resumable.Pack

/-- A document. -/
inductive Doc where
  | null
  | bool (b : Bool)
  /-- An integer in so many bytes, in two's complement when it is signed. -/
  | number (signed : Bool) (width : Nat) (n : Int)
  | double (x : Float)
  | text (s : Bytes)
  | list (xs : List Doc)
  | map (entries : List (Doc × Doc))
  /-- Bytes that stand for something else. -/
  | raw (bs : Bytes)
  deriving Inhabited

namespace Doc

/-- Whether the document holds nothing: a zero, a text of no length, nothing in a list or a map. -/
def isEmpty : Doc → Bool
  | .null => true
  | .bool b => !b
  | .number _ _ n => n == 0
  | .double x => x == 0
  | .text s => s.isEmpty
  | .list xs => xs.isEmpty
  | .map es => es.isEmpty
  | .raw bs => bs.isEmpty

/-- The integer of a document, in 64 bits. -/
def int? : Doc → Option Int
  | .null => some 0
  | .number _ _ n => some (Int.bmod n (Nat.pow 2 64))
  | _ => none

/-- The text of a document. -/
def text? : Doc → Option Bytes
  | .null => some []
  | .text s => some s
  | _ => none

end Doc

/-- What documents are stored with. -/
structure Format where
  write : Doc → Bytes
  /-- The document at the front of bytes. -/
  read : Bytes → Option Doc
  /-- Whether a field of a record is left out when this document stands for its value and the field may be. -/
  omits : Doc → Bool

/-! ### Values of a type -/

/-- How values of a type stand in a document. Reading starts from a value, which records and lists are read
over. -/
structure Layout (α : Type) where
  /-- What is read where nothing was written. -/
  zero : α
  /-- The document of a value; a terse writer leaves out whatever may be left out. -/
  pack : Format → (terse : Bool) → α → Doc
  unpack : α → Doc → Option α

namespace Layout

def text : Layout Bytes where
  zero := []
  pack _ _ s := .text s
  unpack _ d := d.text?

def word16 : Layout UInt16 where
  zero := 0
  pack _ _ n := .number false 2 n.toNat
  unpack _ d := d.int?.map UInt16.ofInt

def word32 : Layout UInt32 where
  zero := 0
  pack _ _ n := .number false 4 n.toNat
  unpack _ d := d.int?.map UInt32.ofInt

def int32 : Layout Int32 where
  zero := 0
  pack _ _ n := .number true 4 n.toInt
  unpack _ d := d.int?.map Int32.ofInt

def bool : Layout Bool where
  zero := false
  pack _ _ b := .bool b
  unpack _ d :=
    match d with
    | .null => some false
    | .bool b => some b
    | _ => none

def double : Layout Float where
  zero := 0
  pack _ _ x := .double x
  unpack _ d :=
    match d with
    | .double x => some x
    | d => d.int?.map Float.ofInt

/-- Reads elements over those of a list, and further ones over the zero. -/
def unpackElems (c : Layout α) : List Doc → List α → Option (List α)
  | [], _ => some []
  | d :: ds, old => do
    let v ← c.unpack (old.headD c.zero) d
    return v :: (← unpackElems c ds old.tail)

/-- Lists of values; a list without any is null. -/
def list (c : Layout α) : Layout (List α) where
  zero := []
  pack fmt terse xs := if xs.isEmpty then .null else .list (xs.map (c.pack fmt terse))
  unpack old d :=
    match d with
    | .null => some []
    | .list ds => unpackElems c ds old
    | _ => none

/-- Values that may be missing. -/
def nullable (c : Layout α) : Layout (Option α) where
  zero := none
  pack fmt terse v :=
    match v with
    | none => .null
    | some v => c.pack fmt terse v
  unpack _ d :=
    match d with
    | .null => some none
    | d => (c.unpack c.zero d).map some

end Layout

/-! ### Records -/

/-- A field of a record. -/
structure Field (σ : Type) where
  key : String
  /-- Whether the field is left out when it is empty, even by a writer that is not terse. -/
  optional : Bool
  pack : Format → (terse : Bool) → σ → Doc
  /-- Reads the field over that of a record. -/
  unpack : σ → Doc → Option σ

/-- The field with a key that is seen through `get` and `set`. -/
def Layout.field (c : Layout α) (key : String) (get : σ → α) (set : σ → α → σ) (optional : Bool) : Field σ where
  key
  optional
  pack fmt terse s := c.pack fmt terse (get s)
  unpack s d := (c.unpack (get s) d).map (set s)

namespace Layout

/-- What is written of the fields of a record. -/
def entries (fields : List (Field σ)) (fmt : Format) (terse : Bool) (s : σ) : List (Doc × Doc) :=
  fields.filterMap fun f =>
    let d := f.pack fmt terse s
    if (terse || f.optional) && fmt.omits d then none else some (.text (Bytes.ofString f.key), d)

/-- Reads an entry over a record, by its key; one without a field is passed over. -/
def unpackEntry (fields : List (Field σ)) (s : σ) (entry : Doc × Doc) : Option σ := do
  let key ← entry.1.text?
  match fields.find? fun f => Bytes.ofString f.key == key with
  | some f => f.unpack s entry.2
  | none => return s

/-- Records as maps of their fields; null and the empty list stand for the zero, and a list of as many
documents as there are fields for all of them in order. -/
def record (zero : σ) (fields : List (Field σ)) : Layout σ where
  zero
  pack fmt terse s := .map (entries fields fmt terse s)
  unpack old d :=
    match d with
    | .null | .list [] => some zero
    | .map es => es.foldlM (unpackEntry fields) old
    | .list ds =>
      if ds.length == fields.length then (fields.zip ds).foldlM (fun s (f, d) => f.unpack s d) old else none
    | _ => none

end Layout

end Resumable.Pack
