import Resumable.Text.Bytes

/-!
# `Text.Layout`: columns of text

Texts are filled up with blanks to a number of characters. A byte that is no part of a character counts
as one.
-/

namespace Resumable

namespace Text

/-- Blanks that bring a text of `size` characters to `width`. -/
def fill (width size : Nat) : String := "".pushn ' ' (width - size)

/-- A text with blanks in front of it. -/
def padLeft (width : Nat) (s : String) : String := fill width s.length ++ s

/-- A text with blanks after it. -/
def padRight (width : Nat) (s : String) : String := s ++ fill width s.length

end Text

namespace Bytes

/-- The number of characters. -/
def charCount (bs : Bytes) : Nat := bs.scalars.length

/-- A byte string with blanks after it. -/
def padRight (width : Nat) (bs : Bytes) : Bytes := bs ++ ofString (Text.fill width bs.charCount)

end Bytes

end Resumable
