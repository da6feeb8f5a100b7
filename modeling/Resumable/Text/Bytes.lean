/-!
# `Text.Bytes`: text as a byte string

Text values are byte strings that usually, but not always, hold UTF-8. The order on them is the
lexicographic order of their bytes. Decoding is total: a byte that starts no well-formed scalar is read
as the replacement character and consumed alone.
-/

namespace Resumable

/-- A byte string. -/
abbrev Bytes := List UInt8

namespace Bytes

/-- The UTF-8 bytes of a string. -/
def ofString (s : String) : Bytes := s.toUTF8.data.toList

/-- The scalar read for bytes that encode none. -/
def replacement : Char := Char.ofNat 0xFFFD

/-- A continuation byte of UTF-8. -/
def isContinuation (b : UInt8) : Bool := 0x80 ≤ b && b ≤ 0xBF

/-- The least and greatest second byte that may follow the lead byte `b` of a two-, three- or
four-byte scalar. -/
def secondRange (b : UInt8) : UInt8 × UInt8 :=
  if b == 0xE0 then (0xA0, 0xBF)
  else if b == 0xED then (0x80, 0x9F)
  else if b == 0xF0 then (0x90, 0xBF)
  else if b == 0xF4 then (0x80, 0x8F)
  else (0x80, 0xBF)

/-- The six payload bits of a continuation byte. -/
def payload (b : UInt8) : Nat := b.toNat % 64

/-- The first scalar of a non-empty byte string with the bytes after it, and whether it was
well formed. -/
def decodeHead (b : UInt8) (rest : Bytes) : Char × Bytes × Bool :=
  let bad := (replacement, rest, false)
  if b < 0x80 then (Char.ofNat b.toNat, rest, true)
  else if 0xC2 ≤ b && b ≤ 0xDF then
    match rest with
    | b1 :: r =>
      if isContinuation b1 then (Char.ofNat (b.toNat % 32 * 64 + payload b1), r, true) else bad
    | _ => bad
  else if 0xE0 ≤ b && b ≤ 0xEF then
    match rest with
    | b1 :: b2 :: r =>
      let (lo, hi) := secondRange b
      if lo ≤ b1 && b1 ≤ hi && isContinuation b2 then
        (Char.ofNat (b.toNat % 16 * 4096 + payload b1 * 64 + payload b2), r, true)
      else bad
    | _ => bad
  else if 0xF0 ≤ b && b ≤ 0xF4 then
    match rest with
    | b1 :: b2 :: b3 :: r =>
      let (lo, hi) := secondRange b
      if lo ≤ b1 && b1 ≤ hi && isContinuation b2 && isContinuation b3 then
        (Char.ofNat (b.toNat % 8 * 262144 + payload b1 * 4096 + payload b2 * 64 + payload b3), r, true)
      else bad
    | _ => bad
  else bad

/-- Decoding a head consumes at least the first byte. -/
theorem length_decodeHead (b : UInt8) (rest : Bytes) :
    (decodeHead b rest).2.1.length ≤ rest.length := by
  unfold decodeHead
  simp only
  repeat' split
  all_goals simp_all
  all_goals omega

/-- The scalars of a byte string, each with a flag that tells whether it was well formed, and its
bytes. -/
def scalars : Bytes → List (Char × Bool)
  | [] => []
  | b :: rest =>
    ((decodeHead b rest).1, (decodeHead b rest).2.2) :: scalars (decodeHead b rest).2.1
  termination_by bs => bs.length
  decreasing_by
    have := length_decodeHead b rest
    simp only [List.length_cons]
    omega

/-- Whether every scalar is well formed. -/
def isUtf8 (bs : Bytes) : Bool := bs.scalars.all (·.2)

/-- The text with every ill-formed byte replaced. -/
def toText (bs : Bytes) : String := String.ofList (bs.scalars.map (·.1))

/-- The UTF-8 bytes of one scalar. -/
def ofChar (c : Char) : Bytes := ofString c.toString

/-- The UTF-8 bytes of the code point `n`, or of the replacement character when `n` is no scalar. -/
def ofCodePoint (n : Int) : Bytes :=
  if 0 ≤ n && n.toNat.isValidChar then ofChar (Char.ofNat n.toNat) else ofChar replacement

/-- Lexicographic order. -/
def less : Bytes → Bytes → Bool
  | _, [] => false
  | [], _ :: _ => true
  | a :: as, b :: bs => if a == b then less as bs else a < b

/-- One hexadecimal digit in lower case. -/
def hexDigit (n : Nat) : Char :=
  if n < 10 then Char.ofNat (48 + n) else Char.ofNat (87 + n)

/-- The lower-case hexadecimal text of a byte string, two digits a byte. -/
def toHex (bs : Bytes) : String :=
  String.ofList (bs.flatMap fun b => [hexDigit (b.toNat / 16), hexDigit (b.toNat % 16)])

/-- The value of a hexadecimal digit of either case. -/
def hexValue? (c : Char) : Option Nat :=
  if '0' ≤ c && c ≤ '9' then some (c.toNat - 48)
  else if 'a' ≤ c && c ≤ 'f' then some (c.toNat - 87)
  else if 'A' ≤ c && c ≤ 'F' then some (c.toNat - 55)
  else none

/-- Reads pairs of hexadecimal digits. -/
def ofHexChars : List Char → Option Bytes
  | [] => some []
  | a :: b :: r => do
    let x ← hexValue? a
    let y ← hexValue? b
    let t ← ofHexChars r
    return UInt8.ofNat (16 * x + y) :: t
  | _ => none

/-- Reads a byte string from its hexadecimal text. -/
def ofHex? (s : String) : Option Bytes := ofHexChars s.toList

end Bytes

end Resumable
