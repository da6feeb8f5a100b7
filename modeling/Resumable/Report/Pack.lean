import Resumable.Report.Layout

/-!
# `Report.Pack`: documents in MessagePack

Documents are written with a code byte in front that says what follows. Numbers keep the width of their type
and are big-endian.

**Contents**
* `Reader`: taking bytes from the front.
* `Doc.write`, `Doc.read`: the bytes of a document, and the document of bytes.
* `messagePack`: the format.
-/

namespace Resumable.Pack

/-- Takes a value from the front of a byte string. -/
abbrev Reader := StateT Bytes Option

namespace Reader

/-- The next byte. -/
def byte : Reader UInt8 := fun bs =>
  match bs with
  | [] => none
  | b :: rest => some (b, rest)

/-- The next `n` bytes. -/
def take (n : Nat) : Reader Bytes := fun bs =>
  if n ≤ bs.length then some (bs.take n, bs.drop n) else none

end Reader

/-- A number in `width` bytes, the most significant first. -/
def bigEndian : Nat → Nat → Bytes
  | 0, _ => []
  | width + 1, n => UInt8.ofNat (n / Nat.pow 256 width) :: bigEndian width n

/-- The number that bytes stand for. -/
def ofBigEndian (bs : Bytes) : Nat := bs.foldl (fun n b => 256 * n + b.toNat) 0

/-- A number of `width` bytes. -/
def natural (width : Nat) : Reader Nat := ofBigEndian <$> Reader.take width

/-! ### Writing -/

def nilCode : UInt8 := 0xC0

/-- The code of an integer. -/
def numberCode (signed : Bool) (width : Nat) : UInt8 :=
  (if signed then 0xD0 else 0xCC) + (if width ≤ 1 then 0 else if width ≤ 2 then 1 else if width ≤ 4 then 2 else 3)

/-- The code of a text. -/
def textHead (n : Nat) : Bytes :=
  if n < 32 then [UInt8.ofNat (0xA0 + n)]
  else if n < Nat.pow 2 8 then 0xD9 :: bigEndian 1 n
  else if n < Nat.pow 2 16 then 0xDA :: bigEndian 2 n
  else 0xDB :: bigEndian 4 n

/-- The code of an array. -/
def arrayHead (n : Nat) : Bytes :=
  if n < 16 then [UInt8.ofNat (0x90 + n)]
  else if n < Nat.pow 2 16 then 0xDC :: bigEndian 2 n
  else 0xDD :: bigEndian 4 n

/-- The code of a map. -/
def mapHead (n : Nat) : Bytes :=
  if n < 16 then [UInt8.ofNat (0x80 + n)]
  else if n < Nat.pow 2 16 then 0xDE :: bigEndian 2 n
  else 0xDF :: bigEndian 4 n

mutual

/-- The bytes of a document. -/
def Doc.write : Doc → Bytes
  | .null => [nilCode]
  | .bool b => [if b then 0xC3 else 0xC2]
  | .number signed width n =>
    if width = 0 then [UInt8.ofInt n]
    else numberCode signed width :: bigEndian width (n % Nat.pow 256 width).toNat
  | .double x => 0xCB :: bigEndian 8 x.toBits.toNat
  | .text s => textHead s.length ++ s
  | .list xs => arrayHead xs.length ++ Doc.writeAll xs
  | .map es => mapHead es.length ++ Doc.writeEntries es
  | .raw bs => bs

/-- The bytes of documents, one after the other. -/
def Doc.writeAll : List Doc → Bytes
  | [] => []
  | x :: xs => x.write ++ Doc.writeAll xs

/-- The bytes of keys and what they stand for, one after the other. -/
def Doc.writeEntries : List (Doc × Doc) → Bytes
  | [] => []
  | (k, v) :: es => k.write ++ v.write ++ Doc.writeEntries es

end

/-! ### Reading -/

/-- The number that follows a code: the last two bits of the code say in how many bytes. -/
def numeral (signed : Bool) (c : UInt8) : Reader Doc := do
  let width := Nat.pow 2 (c.toNat % 4)
  let n ← natural width
  return .number signed width (if signed then Int.bmod n (Nat.pow 256 width) else n)

/-- Several of what a reader takes. -/
def many (r : Reader α) : Nat → Reader (List α)
  | 0 => pure []
  | n + 1 => do return (← r) :: (← many r n)

/-- Bytes of another kind; a byte before them says which. -/
def extension (c : UInt8) (size : Nat) : Reader Doc := return .raw (c :: (← Reader.take (size + 1)))

/-- The document at the front of bytes. Every document takes a byte, so `fuel` need not exceed the length of
the input. -/
def Doc.read : (fuel : Nat) → Reader Doc
  | 0 => failure
  | fuel + 1 => do
    let text (n : Nat) : Reader Doc := return .text (← Reader.take n)
    let list (n : Nat) : Reader Doc := return .list (← many (Doc.read fuel) n)
    let map (n : Nat) : Reader Doc := return .map (← many (do return (← Doc.read fuel, ← Doc.read fuel)) n)
    let c ← Reader.byte
    if c ≤ 0x7F || 0xE0 ≤ c then return .number true 0 (Int.bmod c.toNat 256)
    else if c ≤ 0x8F then map (c.toNat - 0x80)
    else if c ≤ 0x9F then list (c.toNat - 0x90)
    else if c ≤ 0xBF then text (c.toNat - 0xA0)
    else if c == nilCode then return .null
    else if c == 0xC2 || c == 0xC3 then return .bool (c == 0xC3)
    else if 0xC4 ≤ c && c ≤ 0xC6 then text (← natural (Nat.pow 2 (c.toNat - 0xC4)))
    else if 0xC7 ≤ c && c ≤ 0xC9 then extension c (← natural (Nat.pow 2 (c.toNat - 0xC7)))
    else if c == 0xCA then return .double (Float32.ofBits (UInt32.ofNat (← natural 4))).toFloat
    else if c == 0xCB then return .double (Float.ofBits (UInt64.ofNat (← natural 8)))
    else if 0xCC ≤ c && c ≤ 0xCF then numeral false c
    else if 0xD0 ≤ c && c ≤ 0xD3 then numeral true c
    else if 0xD4 ≤ c && c ≤ 0xD8 then extension c (Nat.pow 2 (c.toNat - 0xD4))
    else if 0xD9 ≤ c && c ≤ 0xDB then text (← natural (Nat.pow 2 (c.toNat - 0xD9)))
    else if c == 0xDC || c == 0xDD then list (← natural (if c == 0xDC then 2 else 4))
    else if c == 0xDE || c == 0xDF then map (← natural (if c == 0xDE then 2 else 4))
    else failure

/-- Documents in MessagePack. -/
def messagePack : Format where
  write := Doc.write
  read bs := (Doc.read (bs.length + 1) bs).map (·.1)
  omits := Doc.isEmpty

end Resumable.Pack
