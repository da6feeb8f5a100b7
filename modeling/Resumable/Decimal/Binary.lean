/-!
# `Decimal.Binary`: binary floating-point numbers as exact fractions

A finite number of a binary format is `m · 2 ^ q` with a natural mantissa. The shortest and the fixed
decimal printers both start from this form and use exact arithmetic only.
-/

namespace Resumable.Decimal

/-- What a bit pattern of a binary format stands for. -/
inductive Binary where
  | nan
  | infinite (negative : Bool)
  /-- `mantissa · 2 ^ exponent`; `tight` marks the least mantissa of its binade, whose lower neighbour
  is only half as far away as its upper one. -/
  | finite (negative : Bool) (mantissa : Nat) (exponent : Int) (tight : Bool)

namespace Binary

/-- Reads a format with `frac` fraction bits and `width` exponent bits. -/
def ofPattern (frac width : Nat) (bits : Nat) : Binary :=
  let negative := bits / Nat.pow 2 (frac + width) % 2 == 1
  let biased := bits / Nat.pow 2 frac % Nat.pow 2 width
  let fraction := bits % Nat.pow 2 frac
  let bias := Nat.pow 2 (width - 1) - 1
  if biased == Nat.pow 2 width - 1 then
    if fraction == 0 then .infinite negative else .nan
  else if biased == 0 then
    .finite negative fraction (1 - (bias : Int) - frac) false
  else
    .finite negative (fraction + Nat.pow 2 frac) ((biased : Int) - bias - frac) (fraction == 0 && biased > 1)

/-- The double-precision format. -/
def ofDouble (x : Float) : Binary := ofPattern 52 11 x.toBits.toNat

/-- The single-precision format. -/
def ofSingle (x : Float32) : Binary := ofPattern 23 8 x.toBits.toNat

end Binary

/-- `n · 2 ^ k` as a fraction. -/
def scaleTwo (n : Nat) (k : Int) : Nat × Nat :=
  if 0 ≤ k then (n * Nat.pow 2 k.toNat, 1) else (n, Nat.pow 2 (-k).toNat)

/-- `n / d · 10 ^ k` as a fraction. -/
def scaleTen (n d : Nat) (k : Int) : Nat × Nat :=
  if 0 ≤ k then (n * Nat.pow 10 k.toNat, d) else (n, d * Nat.pow 10 (-k).toNat)

/-- The decimal digits of `n`, most significant first, padded on the left to at least `width`. -/
def digitsOf (n : Nat) (width : Nat) : List Char :=
  let ds := Nat.toDigits 10 n
  List.replicate (width - ds.length) '0' ++ ds

end Resumable.Decimal
