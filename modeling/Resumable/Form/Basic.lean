/-!
# `Form`: nested lists of words

Trees, values and the steps of scripts are written as forms: nested lists whose first element usually
says what the rest is. A form is also what results are reported as.
-/

namespace Resumable

/-- Nested data. -/
inductive Form where
  | null
  | bool (b : Bool)
  | num (n : Int)
  | text (s : String)
  | list (xs : List Form)
  | record (fields : List (String × Form))

instance : Inhabited Form := ⟨.null⟩

namespace Form

def nat (n : Nat) : Form := .num n

/-- The elements of a list; other forms have none. -/
def elems : Form → List Form
  | .list xs => xs
  | _ => []

/-- The element at a position, null when there is none. -/
def nth (f : Form) (i : Nat) : Form := f.elems.getD i .null

/-- The word at the front of a list. -/
def head (f : Form) : String :=
  match f.nth 0 with
  | .text s => s
  | _ => ""

/-- The field of a record, null when there is none. -/
def field (f : Form) (key : String) : Form :=
  match f with
  | .record fs => (fs.lookup key).getD .null
  | _ => .null

def isNull : Form → Bool
  | .null => true
  | _ => false

/-- The text of a word, empty for other forms. -/
def asText : Form → String
  | .text s => s
  | _ => ""

def asBool : Form → Bool
  | .bool b => b
  | _ => false

/-- A number, also when it is written as a word. -/
def asInt : Form → Int
  | .num n => n
  | .text s => s.toInt?.getD 0
  | _ => 0

def asNat (f : Form) : Nat := f.asInt.toNat

/-- How deep lists are nested. -/
def depth : Form → Nat
  | .list xs => 1 + (xs.attach.map fun x => depth x.1).foldl max 0
  | _ => 1
  termination_by f => sizeOf f
  decreasing_by
    have := List.sizeOf_lt_of_mem x.2
    simp
    omega

end Form

end Resumable
