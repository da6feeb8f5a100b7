import Resumable.Text.Quoted

/-!
# `Text.Json`: JSON text

Objects are written on one line with their fields in the given order. Inside strings, characters that
could end a script or a line are written by number.
-/

namespace Resumable.Text.Json

/-- The written form of a character inside a string. -/
def char (c : Char) : List Char :=
  let n := c.toNat
  if c == '"' || c == '\\' then ['\\', c]
  else match n with
    | 8 => ['\\', 'b']
    | 9 => ['\\', 't']
    | 10 => ['\\', 'n']
    | 12 => ['\\', 'f']
    | 13 => ['\\', 'r']
    | _ =>
      if n < 0x20 || c == '<' || c == '>' || c == '&' || n == 0x2028 || n == 0x2029 then
        '\\' :: 'u' :: hex 4 n
      else [c]

/-- A string. -/
def string (s : String) : String := String.ofList ('"' :: s.toList.flatMap char ++ ['"'])

/-- An object of fields whose values are written already. -/
def object (fields : List (String × String)) : String :=
  "\x7b" ++ ",".intercalate (fields.map fun (k, v) => string k ++ ":" ++ v) ++ "\x7d"

end Resumable.Text.Json
