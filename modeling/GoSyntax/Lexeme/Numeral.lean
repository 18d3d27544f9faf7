import GoSyntax.Character.Identifier
import GoSyntax.Lexeme.Basic

/-!
# Numerals

A numeral is read in two steps. First its parts: `0x` and hexadecimal digits, or decimal digits with, each at most once and in
this order, a fraction, an exponent and the `i` of an imaginary number. Then its value, which is exact. Digits with neither
fraction nor exponent nor `i` are an integer, in base eight if they start with a superfluous zero. All else is the integer of
the digits before and after the point, scaled by a power of ten, and a rational in lowest terms. The power is bounded: beyond
65536 either way the value is zero and the overflow is reported. A numeral with a part missing still has a value.
-/

namespace GoSyntax

/-- The exponent of a numeral: its sign, if one is written, and its digits. -/
structure Exponent where
  sign : Option Char
  digits : List Char
  deriving DecidableEq, Repr

/-- The parts of a numeral as they are written. -/
inductive Numeral where
  | hexadecimal (digits : List Char)
  | decimal (whole : List Char) (fraction : Option (List Char)) (exponent : Option Exponent) (imaginary : Bool)
  deriving DecidableEq, Repr

namespace Numeral

/-- A point and the digits after it, and what follows. -/
def readFraction : List Char → Option (List Char) × List Char
  | '.' :: cs => (some (cs.takeWhile Char.isDigit), cs.dropWhile Char.isDigit)
  | cs => (none, cs)

/-- A sign, and what follows. -/
def readSign : List Char → Option Char × List Char
  | '-' :: cs => (some '-', cs)
  | '+' :: cs => (some '+', cs)
  | cs => (none, cs)

/-- The mark of an exponent, its sign and digits, and what follows. -/
def readExponent : List Char → Option Exponent × List Char
  | c :: cs =>
    if c = 'e' || c = 'E' then
      let (sign, cs) := readSign cs
      (some ⟨sign, cs.takeWhile Char.isDigit⟩, cs.dropWhile Char.isDigit)
    else (none, c :: cs)
  | [] => (none, [])

/-- The parts of a decimal numeral, and what follows. -/
def readDecimal (cs : List Char) : Numeral × List Char :=
  let (fraction, rest) := readFraction (cs.dropWhile Char.isDigit)
  let (exponent, rest) := readExponent rest
  match rest with
  | 'i' :: rest => (decimal (cs.takeWhile Char.isDigit) fraction exponent true, rest)
  | rest => (decimal (cs.takeWhile Char.isDigit) fraction exponent false, rest)

/-- The numeral that a text starts with, and what follows. -/
def read : List Char → Numeral × List Char
  | '0' :: 'x' :: cs => (hexadecimal (cs.takeWhile (isDigitOf 16)), cs.dropWhile (isDigitOf 16))
  | '0' :: 'X' :: cs => (hexadecimal (cs.takeWhile (isDigitOf 16)), cs.dropWhile (isDigitOf 16))
  | cs => readDecimal cs

/-- The number of characters of an exponent with its mark. -/
def exponentWidth : Option Exponent → Nat
  | none => 0
  | some e => 1 + e.sign.toList.length + e.digits.length

/-- The number of characters of a fraction with its point. -/
def fractionWidth : Option (List Char) → Nat
  | none => 0
  | some f => 1 + f.length

/-- The number of characters of a numeral. -/
def width : Numeral → Nat
  | hexadecimal digits => 2 + digits.length
  | decimal whole fraction exponent imaginary =>
    whole.length + fractionWidth fraction + exponentWidth exponent + (if imaginary then 1 else 0)

/-- The largest power of ten, either way, that a value may be scaled by. -/
def maxScale : Nat := 65536

/-- `result · base ^ exponent` by squaring. A pass takes up the last bit of the exponent; the base is squared as long as bits are left. -/
def powerLoop (result base exponent : Nat) : Nat :=
  if exponent = 0 then result
  else powerLoop (if exponent % 2 = 1 then result * base else result) (if 0 < exponent / 2 then base * base else base) (exponent / 2)
termination_by exponent
decreasing_by exact Nat.div_lt_self (Nat.pos_of_ne_zero ‹_›) Nat.one_lt_two

/-- `10 ^ exponent` -/
def powerOfTen (exponent : Nat) : Nat := powerLoop 1 10 exponent

/-- `mantissa · 10 ^ scale`, none if the scale is out of bounds. -/
def scale? (mantissa : Nat) (scale : Int) : Option Rat :=
  if maxScale < scale.natAbs then none
  else if 0 ≤ scale then some ((mantissa * powerOfTen scale.natAbs : Nat) : Rat)
  else some (mkRat mantissa (powerOfTen scale.natAbs))

/-- The number an exponent denotes; none written is zero, and so is one without digits. -/
def exponentValue : Option Exponent → Int
  | none => 0
  | some e => if e.sign = some '-' then -(ofDigits 10 e.digits : Int) else ofDigits 10 e.digits

/-- The value of digits before and after the point and of an exponent. -/
def floatValue? (whole : List Char) (fraction : Option (List Char)) (exponent : Option Exponent) : Option Rat :=
  let digits := fraction.getD []
  scale? (ofDigits 10 (whole ++ digits)) (exponentValue exponent - digits.length)

/-- The digits are an octal integer: a zero that is not all of it comes first. -/
def isOctal : List Char → Bool
  | '0' :: _ :: _ => true
  | _ => false

/-- An octal integer has a digit that is not octal. -/
def misusesOctal (digits : List Char) : Bool := isOctal digits && digits.any (fun c => c == '8' || c == '9')

/-- The value of an integer without prefix. One that misuses octal is read in base ten. -/
def integerValue (digits : List Char) : Int :=
  if isOctal digits && !misusesOctal digits then ofDigits 8 digits else ofDigits 10 digits

/-- The value of a numeral. -/
def value : Numeral → Constant
  | hexadecimal digits => .int (ofDigits 16 digits)
  | decimal whole none none false => .int (integerValue whole)
  | decimal whole fraction exponent false => .float ((floatValue? whole fraction exponent).getD 0)
  | decimal whole fraction exponent true => .imaginary ((floatValue? whole fraction exponent).getD 0)

/-- What is wrong with the parts of a numeral. -/
def findings (n : Numeral) : List Finding :=
  match n with
  | hexadecimal digits => if digits.isEmpty then [⟨.malformedNumber "hexadecimal literal has no digits", 0, n.width + 1⟩] else []
  | decimal whole none none false =>
    if misusesOctal whole then [⟨.malformedNumber "invalid digit in octal literal", 0, n.width + 1⟩] else []
  | decimal whole fraction exponent imaginary =>
    let beforeMark := if imaginary then n.width else n.width + 1
    (match exponent with
      | some ⟨_, []⟩ => [⟨.malformedNumber "exponent has no digits", 0, beforeMark⟩]
      | _ => []) ++
    (if (floatValue? whole fraction exponent).isNone then [⟨.floatOverflow, 0, beforeMark⟩] else [])

/-- The lexeme of a numeral. Letters and digits that touch its end are taken with it and reported once. -/
def lexeme (cs : List Char) : Lexeme :=
  let (n, rest) := read cs
  let extra := rest.takeWhile Identifier.isPart
  let width := n.width + extra.length
  { kind := .token (.literal n.value)
    more := width - 1
    seen := width + 1
    findings := n.findings ++
      if extra.isEmpty then [] else [⟨.trailingCharacters "numeric literal", 0, width + 1⟩] }

example : (read "0x1Fz".toList) = (hexadecimal ['1', 'F'], ['z']) := by decide +kernel
example : (read "1.5e-3i;".toList).1.value = .imaginary (mkRat 3 2000) := by decide +kernel
example : (read "0755".toList).1.value = .int 493 := by decide +kernel

end Numeral

end GoSyntax
