import GoSyntax.Number.Binary64

/-!
# Shortest decimals: the fewest digits that read back

A finite double-precision number stands for all reals that round to it: those between the midpoints to its two neighbours, the
midpoints included if its mantissa is even. It is written by the fewest decimal digits that name a point of that interval. For
one digit, two, and so on, the number lies between two points of the decimal grid; the first grid with one of them in the
interval wins, and if both are, the nearer, the upper on a tie. The text has one digit before the point and a power of ten:
`2.5e-1`, `1e22`, `5e-324`.
-/

namespace GoSyntax.Binary64

/-- The number of decimal digits of a positive number; zero has none. -/
def digitCount (n : Nat) : Nat := if n = 0 then 0 else (Nat.toDigits 10 n).length

/-- The power of ten of the first digit of the positive quotient `n / d`. -/
def floorLog10 (n d : Nat) : Int :=
  if d ≤ n then (digitCount (n / d) : Int) - 1 else -(digitCount ((d - 1) / n) : Int)

/-- The reals that round to a number, over one denominator: the least, the number itself and the greatest. -/
structure Interval where
  low : Nat
  value : Nat
  high : Nat
  denominator : Nat
  inclusive : Bool

/-- The interval of `mantissa · 2 ^ exponent`. Below a power of two the neighbour is half as far away. -/
def Interval.of (mantissa : Nat) (exponent : Int) : Interval :=
  let unit := 1 <<< (exponent - 2).toNat
  { low := (4 * mantissa - (if mantissa = 1 <<< 52 then 1 else 2)) * unit
    value := 4 * mantissa * unit
    high := (4 * mantissa + 2) * unit
    denominator := 1 <<< (2 - exponent).toNat
    inclusive := mantissa % 2 = 0 }

/-- The point `digits · 10 ^ power` lies in the interval. -/
def Interval.holds (i : Interval) (digits : Nat) (power : Int) : Bool :=
  let point := digits * Nat.pow 10 power.toNat * i.denominator
  let scale := Nat.pow 10 (-power).toNat
  if i.inclusive then i.low * scale ≤ point && point ≤ i.high * scale
  else i.low * scale < point && point < i.high * scale

/-- The digits on the grid of step `10 ^ power` that name the number, if a neighbouring point of that grid does. -/
def Interval.onGrid? (i : Interval) (power : Int) : Option Nat :=
  let step := Nat.pow 10 power.toNat * i.denominator
  let value := i.value * Nat.pow 10 (-power).toNat
  let down := value / step
  match i.holds down power, i.holds (down + 1) power with
  | true, true => some (if 2 * (value % step) < step then down else down + 1)
  | true, false => some down
  | false, true => some (down + 1)
  | false, false => none

/-- The shortest digits and the power of ten of the last one, trying the grids of `count` more digits from a power down. -/
def Interval.shortestFrom (i : Interval) (power : Int) : Nat → Nat × Int
  | 0 => (i.value * Nat.pow 10 (-power).toNat / (Nat.pow 10 power.toNat * i.denominator), power)
  | count + 1 =>
    match i.onGrid? power with
    | some digits => (digits, power)
    | none => i.shortestFrom (power - 1) count

/-- The shortest digits of `mantissa · 2 ^ exponent`, positive, and the power of ten of the last one. Seventeen are enough. -/
def shortestDigits (mantissa : Nat) (exponent : Int) : Nat × Int :=
  let i := Interval.of mantissa exponent
  i.shortestFrom (floorLog10 i.value i.denominator) 17

/-- Digits in scientific notation: one before the point, the others after it, and the power of ten of the first. -/
def scientific (digits : Nat) (power : Int) : String :=
  let text := Nat.toDigits 10 digits
  let exponent := toString (power + (text.length - 1 : Nat))
  match text, text.tail.reverse.dropWhile (· == '0') with
  | first :: _, [] => String.ofList [first] ++ "e" ++ exponent
  | first :: _, fraction => String.ofList (first :: '.' :: fraction.reverse) ++ "e" ++ exponent
  | [], _ => "0e0"

/-- A number in scientific notation. -/
def toText : Binary64 → String
  | .infinite negative => if negative then "-inf" else "inf"
  | .finite negative mantissa exponent =>
    let (digits, power) := if mantissa = 0 then (0, 0) else shortestDigits mantissa exponent
    (if negative then "-" else "") ++ scientific digits power

example : (ofRat (mkRat 1 4)).toText = "2.5e-1" := by decide +kernel
example : (ofRat (mkRat 5 (10 ^ 324))).toText = "5e-324" := by decide +kernel
example : (ofRat (10 ^ 22 : Nat)).toText = "1e22" := by decide +kernel

end GoSyntax.Binary64
