import Resumable.Decimal.Shortest

/-!
# `Decimal.Number`: the text of floating-point numbers

Numbers are written in general notation with the fewest digits that read back, in complex numbers the
imaginary part with its sign. Durations are written with a fixed number of places, a half going to the
even neighbour.
-/

namespace Resumable.Decimal

/-- The sign of a number, written for a positive one only when `plus` is set. -/
def sign (negative plus : Bool) : List Char :=
  if negative then ['-'] else if plus then ['+'] else []

/-- General notation of a binary number. -/
def Binary.general (b : Binary) (plus : Bool) : String :=
  match b with
  | .nan => if plus then "+NaN" else "NaN"
  | .infinite negative => String.ofList (sign negative true ++ "Inf".toList)
  | .finite negative m q tight =>
    String.ofList (sign negative plus ++ Decimal.general (Shortest.digits m q tight))

/-- A double in general notation. -/
def ofDouble (x : Float) : String := (Binary.ofDouble x).general false

/-- A double that holds a single-precision number, in general notation. -/
def ofSingle (x : Float) : String := (Binary.ofSingle x.toFloat32).general false

/-- A complex number. -/
def ofComplex (re im : Float) : String :=
  "(" ++ (Binary.ofDouble re).general false ++ (Binary.ofDouble im).general true ++ "i)"

/-- A complex number of single-precision parts. -/
def ofComplexSingle (re im : Float) : String :=
  "(" ++ (Binary.ofSingle re.toFloat32).general false ++
    (Binary.ofSingle im.toFloat32).general true ++ "i)"

/-- The nearest natural number to `n / d`, a half going to the even one. -/
def roundDiv (n d : Nat) : Nat :=
  let q := n / d
  let twice := 2 * (n % d)
  if twice > d || (twice == d && q % 2 == 1) then q + 1 else q

/-- Writes a double with `places` digits after the point. -/
def fixed (places : Nat) (x : Float) : String :=
  match Binary.ofDouble x with
  | .nan => "NaN"
  | .infinite negative => if negative then "-Inf" else "+Inf"
  | .finite negative m q _ =>
    let (n, d) := scaleTwo m q
    let ds := digitsOf (roundDiv (n * Nat.pow 10 places) d) (places + 1)
    let whole := ds.take (ds.length - places)
    let tail := ds.drop (ds.length - places)
    String.ofList (sign negative false ++ whole ++ (if places == 0 then [] else '.' :: tail))

end Resumable.Decimal
