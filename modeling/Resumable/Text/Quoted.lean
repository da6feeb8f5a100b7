import Resumable.Text.Bytes
import Resumable.Text.Printable

/-!
# `Text.Quoted`: text in double quotes

Printable characters stand for themselves, the quote and the backslash are escaped, controls have their
short names, and everything else is written by number: a byte that is no part of a character in two
hexadecimal digits, a character in four or eight.
-/

namespace Resumable.Text

/-- `n` in at least `width` hexadecimal digits. -/
def hex (width n : Nat) : List Char :=
  let ds := Nat.toDigits 16 n
  List.replicate (width - ds.length) '0' ++ ds

/-- The written form of a character inside quotes. -/
def quoteChar (c : Char) : List Char :=
  let n := c.toNat
  if c == '"' || c == '\\' then ['\\', c]
  else if isPrintable c then [c]
  else match n with
    | 7 => ['\\', 'a']
    | 8 => ['\\', 'b']
    | 9 => ['\\', 't']
    | 10 => ['\\', 'n']
    | 11 => ['\\', 'v']
    | 12 => ['\\', 'f']
    | 13 => ['\\', 'r']
    | _ =>
      if n < 0x20 || n == 0x7F then '\\' :: 'x' :: hex 2 n
      else if n < 0x10000 then '\\' :: 'u' :: hex 4 n
      else '\\' :: 'U' :: hex 8 n

/-- The body of a quoted byte string. -/
def quoteBody : Bytes → List Char
  | [] => []
  | b :: rest =>
    let (c, _, ok) := Bytes.decodeHead b rest
    (if ok then quoteChar c else '\\' :: 'x' :: hex 2 b.toNat) ++
      quoteBody (Bytes.decodeHead b rest).2.1
  termination_by bs => bs.length
  decreasing_by
    have := Bytes.length_decodeHead b rest
    simp only [List.length_cons]
    omega

/-- A byte string in quotes. -/
def quoteBytes (bs : Bytes) : String := String.ofList ('"' :: quoteBody bs ++ ['"'])

/-- A text in quotes. -/
def quote (s : String) : String :=
  String.ofList ('"' :: s.toList.flatMap quoteChar ++ ['"'])

end Resumable.Text
