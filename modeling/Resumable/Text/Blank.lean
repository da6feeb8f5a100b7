/-!
# `Text.Blank`: white space and letter case

The white space of Unicode, and trimming it from both ends of a text. Keywords are ASCII and are recognized
in either case, so every character whose small letter is an ASCII letter is made small, and the others,
which no keyword holds, are left as they are.
-/

namespace Resumable.Text

/-- The characters with the property White_Space. -/
def isBlank (c : Char) : Bool :=
  let n := c.toNat
  (9 ≤ n && n ≤ 13) || n == 0x20 || n == 0x85 || n == 0xA0 || n == 0x1680 ||
    (0x2000 ≤ n && n ≤ 0x200A) || n == 0x2028 || n == 0x2029 || n == 0x202F || n == 0x205F ||
    n == 0x3000

/-- Removes white space at both ends. -/
def trim (s : String) : String :=
  let front := s.toList.dropWhile isBlank
  String.ofList (front.reverse.dropWhile isBlank).reverse

/-- The small form of a character, as far as it matters for ASCII words. -/
def lowerChar (c : Char) : Char :=
  if c.toNat == 0x130 then 'i' else if c.toNat == 0x212A then 'k' else c.toLower

/-- The small form of a word. -/
def lower (s : String) : String := s.map lowerChar

end Resumable.Text
