import Resumable.Report.Codec
import Resumable.Report.Digest
import Resumable.Report.Pack

/-!
# `Report.Cache`: records by key

The cache holds one file a key, each the bytes of a record. A file of another layout counts as a miss,
and one that cannot be read is a fault.
-/

namespace Resumable

/-- The files of a cache by their names, latest first; none before the first one is stored. -/
structure Cache where
  files : Option (List (String × Bytes)) := none
  /-- What records are stored with. -/
  format : Pack.Format := Pack.messagePack

instance : Inhabited Cache := ⟨{}⟩

namespace Cache

/-- The name of the file of a key. -/
def fileName (key : Bytes) : String := key.toHex ++ ".mp"

/-- The names of the files in order. -/
def names (c : Cache) : List String :=
  ((c.files.getD []).map (·.1)).mergeSort fun a b => !decide (b < a)

/-- Sets the content of a file. -/
def write (c : Cache) (name : String) (bs : Bytes) : Cache :=
  { c with files := some ((name, bs) :: (c.files.getD []).filter (·.1 != name)) }

/-- Stores a record. -/
def put (c : Cache) (key : Bytes) (r : Record) : Cache :=
  c.write (fileName key) (c.format.write (Record.layout.pack c.format false r))

/-- Replaces the content of a file; false when there is no place for it yet. -/
def overwrite (c : Cache) (key content : Bytes) : Bool × Cache :=
  if c.files.isNone then (false, c) else (true, c.write (fileName key) content)

/-- The record under a key; a miss is no record, a fault is a file that holds none. -/
def get (c : Cache) (key : Bytes) : Except Unit (Option Record) :=
  match (c.files.getD []).lookup (fileName key) with
  | none => .ok none
  | some bs =>
    match (c.format.read bs).bind (Record.layout.unpack {}) with
    | none => .error ()
    | some r => .ok (if r.schema == Record.currentSchema then some r else none)

/-- Removes everything. -/
def clear (c : Cache) : Cache := { c with files := none }

end Cache

end Resumable
