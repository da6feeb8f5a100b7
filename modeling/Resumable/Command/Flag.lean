import Resumable.Run.Convert
import Resumable.Text.Layout
import Resumable.Text.Quoted
import Resumable.Word

/-!
# `Command.Flag`: the flags of a command line

Flags have long names, and some a letter too. A flag takes the argument after it as its value unless it is
a yes-or-no flag or its value is attached by an equals sign. Letters may be grouped. Flags and other
arguments may be mixed, and two dashes end the flags.

**Contents**
* `Flag`, `Flags`: flags and the values that were given to them.
* `Flag.read`: the arguments of a command.
* `Flag.usage`: flags as a table.
-/

namespace Resumable.Command

/-- What a flag holds. -/
inductive FlagKind where
  | text | int | bool
  deriving DecidableEq, Repr, Inhabited

/-- A flag. -/
structure Flag where
  name : String
  short : Option Char := none
  kind : FlagKind
  /-- The value when none is given. -/
  default : String := ""
  about : String

/-- What was given on a command line: flags with values, latest first, and other arguments. -/
structure Flags where
  given : List (String × String) := []
  args : List String := []
  deriving Inhabited

/-- Why arguments cannot be read. -/
inductive FlagFault where
  | badForm (arg : String)
  | unknown (name : String)
  | unknownLetter (letter : Char) (group : String)
  | needsValue (name : String)
  | letterNeedsValue (letter : Char) (group : String)
  | badValue (value flag reason : String)
  deriving Repr

namespace FlagFault

/-- A character in quotes. -/
def quoteLetter (c : Char) : String :=
  let inner := ((Text.quote c.toString).drop 1).dropEnd 1 |>.toString
  "'" ++ (if c == '\'' then "\\'" else if c == '"' then "\"" else inner) ++ "'"

def message : FlagFault → String
  | .badForm arg => "bad flag syntax: " ++ arg
  | .unknown name => "unknown flag: --" ++ name
  | .unknownLetter c group => "unknown shorthand flag: " ++ quoteLetter c ++ " in -" ++ group
  | .needsValue name => "flag needs an argument: --" ++ name
  | .letterNeedsValue c group => "flag needs an argument: " ++ quoteLetter c ++ " in -" ++ group
  | .badValue v flag reason =>
    "invalid argument " ++ Text.quote v ++ " for " ++ Text.quote flag ++ " flag: " ++ reason

end FlagFault

namespace Flag

/-! ### Values -/

/-- The truth value that is written. -/
def bool? (s : String) : Option Bool :=
  if ["1", "t", "T", "TRUE", "true", "True"].contains s then some true
  else if ["0", "f", "F", "FALSE", "false", "False"].contains s then some false
  else none

/-- The base of a written number, its digits, and whether a mark stands before them. -/
def based (cs : List Char) : Nat × List Char × Bool :=
  match cs with
  | '0' :: c :: rest =>
    match c.toLower with
    | 'x' => (16, rest, true)
    | 'b' => (2, rest, true)
    | 'o' => (8, rest, true)
    | _ => (8, c :: rest, true)
  | cs => (10, cs, false)

/-- The digits of a number without its underscores, which stand singly between digits or after a mark. -/
def withoutUnderscores (afterDigit : Bool) : List Char → Option (List Char)
  | [] => some []
  | ['_'] => none
  | '_' :: rest => if afterDigit then withoutUnderscores false rest else none
  | c :: rest => (withoutUnderscores true rest).map (c :: ·)

/-- The value of digits in a base. -/
def digits? (base : Nat) (cs : List Char) : Option Nat :=
  if cs.isEmpty then none
  else cs.foldlM (fun n c =>
    let d := if c.isDigit then c.toNat - 48 else if c.isAlpha then c.toLower.toNat - 87 else base
    if d < base then some (base * n + d) else none) 0

/-- The whole number that is written, or what is wrong with it. -/
def int? (s : String) : Except String Int :=
  let fault (what : String) : String := "strconv.ParseInt: parsing " ++ Text.quote s ++ ": " ++ what
  let (negative, cs) := match s.toList with
    | '-' :: cs => (true, cs)
    | '+' :: cs => (false, cs)
    | cs => (false, cs)
  let (base, ds, marked) := based cs
  match (withoutUnderscores marked ds).bind (digits? base) with
  | none => .error (fault "invalid syntax")
  | some n =>
    let n : Int := if negative then -(n : Int) else n
    if fitsSigned 64 n then .ok n else .error (fault "value out of range")

/-- How a flag is called in messages. -/
def label (f : Flag) : String :=
  match f.short with
  | some c => "-" ++ c.toString ++ ", --" ++ f.name
  | none => "--" ++ f.name

/-- Gives a value to a flag. -/
def set (f : Flag) (v : String) (fs : Flags) : Except FlagFault Flags :=
  let done : Flags := { fs with given := (f.name, v) :: fs.given }
  match f.kind with
  | .text => .ok done
  | .bool =>
    if (bool? v).isSome then .ok done
    else .error (.badValue v f.label ("strconv.ParseBool: parsing " ++ Text.quote v ++ ": invalid syntax"))
  | .int =>
    match int? v with
    | .ok _ => .ok done
    | .error e => .error (.badValue v f.label e)

/-! ### Reading -/

/-- The part of an argument before an equals sign, and the part after it if there is one. -/
def splitValue (cs : List Char) : List Char × Option (List Char) :=
  match cs.dropWhile (· != '=') with
  | [] => (cs, none)
  | _ :: v => (cs.takeWhile (· != '='), some v)

/-- Reads a long flag; also gives the arguments after it and its value. -/
def readLong (flags : List Flag) (arg : String) (rest : List String) (fs : Flags) :
    Except FlagFault (List String × Flags) := do
  let cs := arg.toList.drop 2
  if cs.isEmpty || cs.head? == some '-' || cs.head? == some '=' then throw (.badForm arg)
  let (name, value) := splitValue cs
  let name := String.ofList name
  match flags.find? (·.name == name), value, rest with
  | none, _, _ => throw (.unknown name)
  | some f, some v, rest => return (rest, ← f.set (String.ofList v) fs)
  | some f, none, rest =>
    if f.kind == .bool then return (rest, ← f.set "true" fs)
    match rest with
    | v :: rest => return (rest, ← f.set v fs)
    | [] => throw (.needsValue name)

/-- Reads a group of letters; also gives the arguments after it and after its value. -/
def readLetters (flags : List Flag) (rest : List String) :
    List Char → Flags → Except FlagFault (List String × Flags)
  | [], fs => return (rest, fs)
  | c :: more, fs => do
    let group := String.ofList (c :: more)
    match flags.find? (·.short == some c) with
    | none =>
      let first := (Bytes.ofString group).headD 0
      throw (.unknownLetter (Char.ofNat first.toNat) group)
    | some f =>
      match more with
      | '=' :: d :: v => return (rest, ← f.set (String.ofList (d :: v)) fs)
      | more =>
        if f.kind == .bool then readLetters flags rest more (← f.set "true" fs)
        else if !more.isEmpty then return (rest, ← f.set (String.ofList more) fs)
        else match rest with
          | v :: rest => return (rest, ← f.set v fs)
          | [] => throw (.letterNeedsValue c group)

/-- Reads arguments; `fuel` bounds their number. -/
def readAll (flags : List Flag) : Nat → List String → Flags → Except FlagFault Flags
  | 0, _, fs => return fs
  | _, [], fs => return fs
  | fuel + 1, arg :: rest, fs => do
    if arg == "--" then return { fs with args := fs.args ++ rest }
    if arg.startsWith "--" then
      let (rest, fs) ← readLong flags arg rest fs
      readAll flags fuel rest fs
    else if arg.startsWith "-" && arg.length > 1 then
      let (rest, fs) ← readLetters flags rest (arg.toList.drop 1) fs
      readAll flags fuel rest fs
    else readAll flags fuel rest { fs with args := fs.args ++ [arg] }

/-- Reads the arguments of a command. -/
def read (flags : List Flag) (args : List String) : Except FlagFault Flags :=
  readAll flags args.length args {}

/-! ### Usage -/

/-- The left column of a flag. -/
def column (f : Flag) : String :=
  let front := match f.short with
    | some c => "  -" ++ c.toString ++ ", --" ++ f.name
    | none => "      --" ++ f.name
  match f.kind with
  | .text => front ++ " string"
  | .int => front ++ " int"
  | .bool => front

/-- The right column of a flag. -/
def remark (f : Flag) : String :=
  match f.kind with
  | .text => if f.default.isEmpty then f.about else f.about ++ " (default " ++ Text.quote f.default ++ ")"
  | .int => if f.default.isEmpty then f.about else f.about ++ " (default " ++ f.default ++ ")"
  | .bool => f.about

/-- Flags as a table, in the order of their names. -/
def usage (flags : List Flag) : String :=
  let sorted := flags.mergeSort fun a b => !decide (b.name < a.name)
  let width := (sorted.map (·.column.length)).foldl max 0
  "\n".intercalate (sorted.map fun f => Text.padRight width f.column ++ "   " ++ f.remark)

end Flag

namespace Flags

/-- Whether a flag was given. -/
def has (fs : Flags) (name : String) : Bool := fs.given.any (·.1 == name)

/-- The value that was given to a flag. -/
def text? (fs : Flags) (name : String) : Option String := fs.given.lookup name

/-- The truth value that was given to a flag. -/
def bool? (fs : Flags) (name : String) : Option Bool := (fs.text? name).bind Flag.bool?

/-- Whether a flag is set. -/
def isSet (fs : Flags) (name : String) : Bool := fs.bool? name == some true

/-- The number that was given to a flag. -/
def int? (fs : Flags) (name : String) : Option Int :=
  (fs.text? name).bind fun s =>
    match Flag.int? s with
    | .ok n => some n
    | .error _ => none

end Flags

end Resumable.Command
