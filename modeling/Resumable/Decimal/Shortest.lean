import Resumable.Decimal.Binary

/-!
# `Decimal.Shortest`: the fewest digits that read back

`Shortest.digits` tries one digit, two digits and so on, and stops at the first decimal grid on which
one of the two neighbours of the number lies in the interval of reals that round to it. Of two hits the
nearer is taken.
-/

namespace Resumable.Decimal

/-- Significant digits without a trailing zero; the value is `0.d₁d₂… · 10 ^ point`. -/
structure Digits where
  digits : List Char
  point : Int

namespace Shortest

/-- The least `k` from `lo` on with `num / den < 10 ^ k`, searched for at most `fuel` steps. -/
def magnitude (num den : Nat) : Nat → Int → Int
  | 0, k => k
  | fuel + 1, k =>
    let (n, d) := scaleTen num den (-k)
    if n < d then k else magnitude num den fuel (k + 1)

/-- The digits on the grid with `count` digits, when one of them reads back. The number is
`num / den`, and the reals between `lo / den` and `hi / den` round to it. -/
def onGrid (num lo hi den : Nat) (closed : Bool) (point : Int) (count : Nat) : Option Nat :=
  let unit := point - count
  let (n, d) := scaleTen num den (-unit)
  let (l, dl) := scaleTen lo den (-unit)
  let (h, dh) := scaleTen hi den (-unit)
  let inside (c : Nat) : Bool :=
    if closed then l ≤ c * dl && c * dh ≤ h else l < c * dl && c * dh < h
  let down := n / d
  let up := down + 1
  let twice := 2 * (n - down * d)
  match inside down, inside up with
  | true, true =>
    if twice < d || (twice == d && down % 2 == 0) then some down else some up
  | true, false => some down
  | false, true => some up
  | false, false => none

/-- The first grid from `count` digits on that has a hit. -/
def search (num lo hi den : Nat) (closed : Bool) (point : Int) : Nat → Nat → Nat × Nat
  | 0, count => (num / den, count)
  | fuel + 1, count =>
    match onGrid num lo hi den closed point count with
    | some c => (c, count)
    | none => search num lo hi den closed point fuel (count + 1)

/-- Removes trailing zeros. -/
def trim (ds : List Char) : List Char := (ds.reverse.dropWhile (· == '0')).reverse

/-- The shortest digits of `mantissa · 2 ^ exponent`. -/
def digits (mantissa : Nat) (exponent : Int) (tight : Bool) : Digits :=
  if mantissa == 0 then ⟨[], 0⟩ else
  let (num, den) := scaleTwo (4 * mantissa) (exponent - 2)
  let step := (scaleTwo 1 (exponent - 2)).1
  let lo := num - (if tight then step else 2 * step)
  let hi := num + 2 * step
  let guess := ((Nat.log2 mantissa : Int) + exponent) * 301 / 1000 - 1
  let point := magnitude num den 8 guess
  let (c, count) := search num lo hi den (mantissa % 2 == 0) point 20 1
  let ds := digitsOf c count
  ⟨trim ds, point + (ds.length - count : Int)⟩

end Shortest

/-- Scientific notation: one digit, a point, the other digits and an exponent of two digits at
least. -/
def scientific (d : Digits) : List Char :=
  let e := d.point - 1
  let body := match d.digits with
    | [] => ['0']
    | [c] => [c]
    | c :: r => c :: '.' :: r
  body ++ ['e', if e < 0 then '-' else '+'] ++ digitsOf e.natAbs 2

/-- Positional notation. -/
def positional (d : Digits) : List Char :=
  if d.point ≤ 0 then
    '0' :: (if d.digits.isEmpty then [] else
      '.' :: (List.replicate (-d.point).toNat '0' ++ d.digits))
  else
    let k := d.point.toNat
    let whole := d.digits.take k
    let tail := d.digits.drop k
    whole ++ List.replicate (k - whole.length) '0' ++ (if tail.isEmpty then [] else '.' :: tail)

/-- General notation: positional while the decimal exponent is at least -4 and below 6. -/
def general (d : Digits) : List Char :=
  let e := d.point - 1
  if d.digits.isEmpty then ['0']
  else if e < -4 || e ≥ 6 then scientific d
  else positional d

end Resumable.Decimal
