import Resumable.Text.Bytes

/-!
# `Report.Paint`: coloured text

Colours are terminal codes in front of a text, undone after it: a weight by the code of normal weight,
anything else by a reset.
-/

namespace Resumable

/-- The codes that a piece of text is shown with. -/
structure Paint where
  codes : List Nat

namespace Paint

def success : Paint := ⟨[32, 1]⟩
def failure : Paint := ⟨[31, 1]⟩
def faint : Paint := ⟨[2]⟩
def name : Paint := ⟨[36]⟩
def major : Paint := ⟨[33, 1]⟩
def minor : Paint := ⟨[32, 1]⟩
def patch : Paint := ⟨[34, 1]⟩
def title : Paint := ⟨[36, 1]⟩

/-- The code that undoes another. -/
def undo (code : Nat) : Nat := if code == 1 || code == 2 then 22 else 0

/-- The sequence that sets codes. -/
def sequence (codes : List Nat) : String := "\x1b[" ++ ";".intercalate (codes.map toString) ++ "m"

/-- A text in a paint, or as it is when colours are off. -/
def text (p : Paint) (on : Bool) (s : String) : String :=
  if on then sequence p.codes ++ s ++ sequence (p.codes.map undo) else s

/-- A byte string in a paint. -/
def bytes (p : Paint) (on : Bool) (bs : Bytes) : Bytes :=
  if on then Bytes.ofString (sequence p.codes) ++ bs ++ Bytes.ofString (sequence (p.codes.map undo))
  else bs

end Paint

end Resumable
