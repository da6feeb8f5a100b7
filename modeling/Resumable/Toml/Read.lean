import Resumable.Toml.Basic
import Resumable.Word

/-!
# `Toml.Read`: the grammar of documents

Reads a document line by line: comments, headers in brackets, and keys with values. Line ends are allowed
inside brackets, and nowhere else inside a value except in long strings.
-/

namespace Resumable.Toml

/-- What is still to be read, and the document so far. -/
structure Reader where
  rest : List Char
  doc : Document := {}

/-- Reading part of a document. -/
abbrev Reading := StateT Reader Option

namespace Reading

/-- A document that cannot be read. -/
def reject : Reading α := fun _ => none

def peek : Reading (Option Char) := return (← get).rest.head?

/-- The next character. -/
def next : Reading Char := do
  match (← get).rest with
  | c :: rest =>
    modify fun r => { r with rest }
    return c
  | [] => reject

/-- Passes over a text if it comes next. -/
def accept (s : String) : Reading Bool := do
  let rest := (← get).rest
  if s.toList.isPrefixOf rest then
    modify fun r => { r with rest := rest.drop s.length }
    return true
  return false

/-- Passes over a text that has to come next. -/
def expect (s : String) : Reading Unit := do if !(← accept s) then reject

/-- The longest run of characters of a kind. -/
def run (p : Char → Bool) : Reading (List Char) := do
  let rest := (← get).rest
  modify fun r => { r with rest := rest.dropWhile p }
  return rest.takeWhile p

def isBlank (c : Char) : Bool := c == ' ' || c == '\t'
def isLineEnd (c : Char) : Bool := c == '\n' || c == '\r'

def blanks : Reading Unit := discard (run isBlank)

/-- Changes the document. -/
def change (f : Document → Option Document) : Reading Unit := do
  match f (← get).doc with
  | some doc => modify fun r => { r with doc }
  | none => reject

/-- Passes over a comment if there is one. -/
def comment : Reading Unit := do
  if (← peek) == some '#' then discard (run fun c => !isLineEnd c)

/-- Passes over blanks, line ends and comments; `fuel` bounds the number of comments. -/
def gap : Nat → Reading Unit
  | 0 => pure ()
  | fuel + 1 => do
    discard (run fun c => isBlank c || isLineEnd c)
    if (← peek) == some '#' then
      comment
      gap fuel

/-! ### Strings -/

/-- The value of hexadecimal digits, exactly `count` of them. -/
def codePoint (count : Nat) : Reading Char := do
  let ds := (← get).rest.take count
  let digit? (c : Char) : Option Nat :=
    if c.isDigit then some (c.toNat - 48)
    else if 'a' ≤ c && c ≤ 'f' then some (c.toNat - 87)
    else if 'A' ≤ c && c ≤ 'F' then some (c.toNat - 55)
    else none
  match ds.mapM digit? with
  | some ns =>
    let n := ns.foldl (fun n d => 16 * n + d) 0
    if ns.length != count || !(n < 0xD800 || (0xDFFF < n && n < 0x110000)) then reject
    modify fun r => { r with rest := r.rest.drop count }
    return Char.ofNat n
  | none => reject

/-- What stands after a backslash. -/
def escape : Reading Char := do
  match ← next with
  | 'b' => return '\x08'
  | 't' => return '\t'
  | 'n' => return '\n'
  | 'f' => return '\x0c'
  | 'r' => return '\r'
  | '"' => return '"'
  | '\\' => return '\\'
  | 'u' => codePoint 4
  | 'U' => codePoint 8
  | _ => reject

/-- A string in quotes on one line, after the first quote; `fuel` bounds its length. -/
def line : Nat → List Char → Reading (List Char)
  | 0, _ => reject
  | fuel + 1, out => do
    match ← next with
    | '"' => return out.reverse
    | '\\' => line fuel ((← escape) :: out)
    | c => if isLineEnd c then reject else line fuel (c :: out)

/-- A string in single quotes, after the first of them. -/
def rawLine : Reading (List Char) := do
  let s ← run fun c => c != '\'' && !isLineEnd c
  expect "'"
  return s

/-- The end of a long string, of which up to two quotes belong to the string: their number, or nothing
when it goes on. -/
def closing (quote : Char) : Reading (Option Nat) := do
  let n := ((← get).rest.takeWhile (· == quote)).length
  if n < 3 then return none
  if n > 5 then reject
  modify fun r => { r with rest := r.rest.drop n }
  return some (n - 3)

/-- A long string, after the first three quotes; `raw` ones know no backslash. -/
def long (quote : Char) (raw : Bool) : Nat → List Char → Reading (List Char)
  | 0, _ => reject
  | fuel + 1, out => do
    match ← closing quote with
    | some n => return (List.replicate n quote ++ out).reverse
    | none =>
      let c ← next
      if raw || c != '\\' then long quote raw fuel (c :: out)
      else
        let after := (← get).rest.dropWhile isBlank
        if after.head?.any isLineEnd then
          modify fun r => { r with rest := after.dropWhile fun c => isBlank c || isLineEnd c }
          long quote raw fuel out
        else long quote raw fuel ((← escape) :: out)

/-- A string of any sort. -/
def string : Reading String := do
  let fuel := (← get).rest.length + 1
  let skipLineEnd : Reading Unit := do if !(← accept "\n") then discard (accept "\r\n")
  if ← accept "\"\"\"" then
    skipLineEnd
    return String.ofList (← long '"' false fuel [])
  if ← accept "'''" then
    skipLineEnd
    return String.ofList (← long '\'' true fuel [])
  if ← accept "\"" then return String.ofList (← line fuel [])
  expect "'"
  return String.ofList (← rawLine)

/-! ### Numbers and times -/

/-- Digits with single underscores between them. -/
def isDigits (p : Char → Bool) : List Char → Bool
  | [] => false
  | [c] => p c
  | c :: '_' :: rest => p c && isDigits p rest
  | c :: rest => p c && isDigits p rest

/-- Digits that do not begin with a zero, except zero itself. -/
def isWhole (cs : List Char) : Bool :=
  isDigits Char.isDigit cs && (cs.head? != some '0' || cs.length == 1)

/-- The number that digits stand for. -/
def digitsValue (base : Nat) (cs : List Char) : Nat :=
  (cs.filter (· != '_')).foldl (fun n c =>
    base * n + (if c.isDigit then c.toNat - 48 else c.toLower.toNat - 87)) 0

/-- A sign, and what follows it. -/
def signed (cs : List Char) : Bool × List Char :=
  match cs with
  | '-' :: cs => (true, cs)
  | '+' :: cs => (false, cs)
  | cs => (false, cs)

/-- The whole number that is written. -/
def integer? (cs : List Char) : Option Int :=
  let isHex (c : Char) : Bool := c.isDigit || ('a' ≤ c.toLower && c.toLower ≤ 'f')
  let isOctal (c : Char) : Bool := '0' ≤ c && c ≤ '7'
  let isBinary (c : Char) : Bool := c == '0' || c == '1'
  let based (p : Char → Bool) (base : Nat) (ds : List Char) : Option Int :=
    if isDigits p ds then some (digitsValue base ds) else none
  let n := match cs with
    | '0' :: 'x' :: ds => based isHex 16 ds
    | '0' :: 'o' :: ds => based isOctal 8 ds
    | '0' :: 'b' :: ds => based isBinary 2 ds
    | cs =>
      let (negative, ds) := signed cs
      if isWhole ds then some (if negative then -(digitsValue 10 ds : Int) else digitsValue 10 ds)
      else none
  n.filter (fitsSigned 64)

/-- Whether a number with a fraction or an exponent is written. -/
def isFloat (cs : List Char) : Bool :=
  let (_, cs) := signed cs
  let body := cs.takeWhile fun c => c != 'e' && c != 'E'
  let power := cs.drop body.length
  let whole := body.takeWhile (· != '.')
  let fraction := body.drop whole.length
  let powerOk := match power with
    | [] => true
    | _ :: ds => isDigits Char.isDigit (signed ds).2
  let fractionOk := match fraction with
    | [] => !power.isEmpty
    | _ :: ds => isDigits Char.isDigit ds
  cs == "inf".toList || cs == "nan".toList || (isWhole whole && fractionOk && powerOk)

/-- The numbers in a text of digits at fixed places; other places hold the given characters. -/
def places (pattern : String) (cs : List Char) : Option (List Nat) :=
  if cs.length != pattern.length then none
  else if !(pattern.toList.zip cs).all fun (p, c) => if p == '0' then c.isDigit else p == c then none
  else some (((String.ofList cs).split fun c => !c.isDigit).toList.map fun s => (s.toNat?).getD 0)

/-- The number of days of a month. -/
def daysOf (year month : Nat) : Nat :=
  if month == 2 then if (year % 4 == 0 && year % 100 != 0) || year % 400 == 0 then 29 else 28
  else if month == 4 || month == 6 || month == 9 || month == 11 then 30
  else 31

/-- Whether a day is written. -/
def isDate (cs : List Char) : Bool :=
  match places "0000-00-00" cs with
  | some [y, m, d] => 1 ≤ m && m ≤ 12 && 1 ≤ d && d ≤ daysOf y m
  | _ => false

/-- Whether a time of the day is written, and what follows it. -/
def clock? (cs : List Char) : Option (List Char) :=
  match places "00:00:00" (cs.take 8) with
  | some [h, m, s] =>
    if h < 24 && m < 60 && s < 60 then
      match cs.drop 8 with
      | '.' :: rest =>
        let ds := rest.takeWhile Char.isDigit
        if ds.isEmpty then none else some (rest.drop ds.length)
      | rest => some rest
    else none
  | _ => none

/-- Whether a zone is written, or none. -/
def isZone (cs : List Char) : Bool :=
  match cs with
  | [] | ['Z'] | ['z'] => true
  | c :: rest =>
    (c == '+' || c == '-') &&
      match places "00:00" rest with
      | some [h, m] => h ≤ 24 && m ≤ 60
      | _ => false

/-- Whether a day, a time of the day, or both are written. -/
def isTime (cs : List Char) : Bool :=
  isDate cs || clock? cs == some [] ||
    (isDate (cs.take 10) && cs.length > 10 && (clock? (cs.drop 11)).any isZone)

/-- A number or a time. -/
def number : Reading Item := do
  let isPart (c : Char) : Bool := c.isAlphanum || c == '_' || c == '+' || c == '-' || c == ':' || c == '.'
  let cs ← run isPart
  let rest := (← get).rest
  let cs ← if isDate cs && rest.head? == some ' ' && (rest.drop 1).head?.any Char.isDigit then do
      discard next
      pure (cs ++ ' ' :: (← run isPart))
    else pure cs
  match integer? cs with
  | some n => return .integer n
  | none =>
    if isFloat cs then return .float (String.ofList cs)
    if isTime cs then return .time (String.ofList cs)
    reject

/-! ### Keys and values -/

/-- One name of a key. -/
def name : Reading String := do
  blanks
  match ← peek with
  | some '"' =>
    discard next
    return String.ofList (← line ((← get).rest.length + 1) [])
  | some '\'' =>
    discard next
    return String.ofList (← rawLine)
  | _ =>
    let s ← run isBare
    if s.isEmpty then reject
    return String.ofList s

/-- The names of a key. -/
def key : Nat → Reading Key
  | 0 => reject
  | fuel + 1 => do
    let n ← name
    blanks
    if ← accept "." then return n :: (← key fuel)
    return [n]

mutual

/-- A value for a name of the current table; `inArray` marks an element of an array. -/
def value (fuel : Nat) (target : String) (inArray : Bool) : Reading Item := do
  blanks
  match ← peek with
  | some '[' =>
    discard next
    change fun d => some (d.markArray (d.context ++ [target]) true)
    return .array (← elements fuel target [])
  | some '\x7b' =>
    discard next
    let outer := (← get).doc.context
    let path := outer ++ [target]
    change fun d => (d.markImplicit path).enter? path inArray
    let entries ← fields fuel path []
    change fun d => some { d with context := outer }
    return .table entries
  | some '"' | some '\'' => return .text (← string)
  | some 't' =>
    expect "true"
    return .bool true
  | some 'f' =>
    expect "false"
    return .bool false
  | _ => number
  termination_by (fuel, 1)

/-- The elements of an array, after its bracket or a comma. -/
def elements (fuel : Nat) (target : String) (out : List Item) : Reading (List Item) := do
  match fuel with
  | 0 => reject
  | fuel + 1 =>
    gap ((← get).rest.length + 1)
    if ← accept "]" then return out.reverse
    let v ← value fuel target true
    gap ((← get).rest.length + 1)
    if ← accept "," then elements fuel target (v :: out)
    else
      expect "]"
      return (v :: out).reverse
  termination_by (fuel, 0)

/-- The fields of a table in braces, after its brace or a comma. -/
def fields (fuel : Nat) (path : Key) (out : Entries) : Reading Entries := do
  match fuel with
  | 0 => reject
  | fuel + 1 =>
    blanks
    if out.isEmpty then
      if ← accept "\x7d" then return []
    let (k, v) ← definition fuel
    change fun d => some { d with context := path }
    let out := out.put (k.headD "") v
    blanks
    if ← accept "," then fields fuel path out
    else
      expect "\x7d"
      return out
  termination_by (fuel, 0)

/-- A key with its value, which is defined in the current table. -/
def definition (fuel : Nat) : Reading (Key × Item) := do
  match fuel with
  | 0 => reject
  | fuel + 1 =>
    let k ← key ((← get).rest.length + 1)
    expect "="
    change (·.descend? k.dropLast)
    let last := k.getLastD ""
    change fun d => some (d.note (d.context ++ [last]))
    let v ← value fuel last false
    change (·.set? last v)
    change fun d => some (d.markArray (d.context ++ [last]) (v matches .array _))
    return (k, v)
  termination_by (fuel, 2)

end

/-- A header in brackets. -/
def header : Reading Unit := do
  expect "["
  let isArray ← accept "["
  let k ← key ((← get).rest.length + 1)
  expect (if isArray then "]]" else "]")
  change fun d => (d.enter? k isArray).map fun d => (d.markArray k false).note k

/-- The end of a line. -/
def lineEnd : Reading Unit := do
  blanks
  comment
  if !(← get).rest.isEmpty then
    if !(← accept "\n") then expect "\r\n"

/-- All lines; `fuel` bounds their number. -/
def lines : Nat → Reading Unit
  | 0 => pure ()
  | fuel + 1 => do
    gap ((← get).rest.length + 1)
    match ← peek with
    | none => pure ()
    | some '[' =>
      header
      lineEnd
      lines fuel
    | some _ =>
      let context := (← get).doc.context
      discard (definition (2 * (← get).rest.length + 4))
      change fun d => some { d with context }
      lineEnd
      lines fuel

end Reading

/-- Whether a text has no controls besides tabs and line ends. -/
def isClean : List Char → Bool
  | [] => true
  | '\r' :: rest => rest.head? == some '\n' && isClean rest
  | c :: rest => ((c.toNat ≥ 32 && c.toNat != 127) || c == '\t' || c == '\n') && isClean rest

/-- Reads a document, or nothing when it is none. -/
def Document.read? (s : String) : Option Document :=
  let cs := s.toList
  let cs := if cs.head? == some '\uFEFF' then cs.drop 1 else cs
  if !isClean cs then none
  else match Reading.lines (cs.length + 1) { rest := cs } with
    | some (_, r) => if r.rest.isEmpty then some r.doc else none
    | none => none

end Resumable.Toml
