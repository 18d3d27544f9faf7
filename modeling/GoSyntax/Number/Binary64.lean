/-!
# Binary64: the nearest number of 53 bits

The double-precision number nearest to a rational, found in exact integer arithmetic. A finite one is a sign, a mantissa below
2^53 and a power of two that is at least 2^-1074; a normal mantissa is at least 2^52. Of two equally near numbers the one with
the even mantissa is taken, what lies beyond the largest finite number is infinite, and a rational too small for any other
number becomes a zero that keeps its sign.

An integer of more than 64 bits is first cut to its 64 leading bits, the last of which is set if a bit that is not zero was seen
among those cut off. Rounding the 64 bits to 53 then decides as the whole integer would, except that not every bit is seen: the
integer is read in words of 64 bits, and of each word below the leading one only as many of its lowest bits as the leading word
has. An integer that is above the middle of two numbers by bits out of sight alone goes to the even one.
-/

namespace GoSyntax

/-- A double-precision number other than NaN: `mantissa · 2 ^ exponent` with a sign, or an infinity with a sign. -/
inductive Binary64 where
  | finite (negative : Bool) (mantissa : Nat) (exponent : Int)
  | infinite (negative : Bool)
  deriving DecidableEq, Repr

namespace Binary64

/-- The integer nearest to `n / d`, the even one of two. -/
def nearestQuotient (n d : Nat) : Nat :=
  let twice := 2 * (n % d)
  if twice < d then n / d
  else if d < twice then n / d + 1
  else n / d + n / d % 2

/-- The nearest integer is at most half a unit away. -/
theorem nearestQuotient_near (n d : Nat) (h : 0 < d) :
    2 * n ≤ 2 * (d * nearestQuotient n d) + d ∧ 2 * (d * nearestQuotient n d) ≤ 2 * n + d := by
  have hn := Nat.div_add_mod n d
  have hm := Nat.mod_lt n h
  have hs : d * (n / d + 1) = d * (n / d) + d := Nat.mul_succ d (n / d)
  simp only [nearestQuotient]
  split
  · omega
  · split
    · omega
    · rcases Nat.mod_two_eq_zero_or_one (n / d) with he | he <;> rw [he]
      · simp only [Nat.add_zero]
        omega
      · omega

/-- The quotient `n / (d · 2 ^ e)` as a pair of naturals. -/
def scaled (n d : Nat) (e : Int) : Nat × Nat := (n <<< (-e).toNat, d <<< e.toNat)

/-- The largest `k` with `2 ^ k ≤ n / d`, both positive. -/
def floorLog2 (n d : Nat) : Int :=
  let k : Int := (n.log2 : Int) - (d.log2 : Int)
  let (a, b) := scaled n d k
  if b ≤ a then k else k - 1

/-- The number nearest to `± n / d`. -/
def ofQuotient (negative : Bool) (n d : Nat) : Binary64 :=
  if n = 0 then .finite negative 0 0
  else
    let e := max (floorLog2 n d - 52) (-1074)
    let (a, b) := scaled n d e
    let m := nearestQuotient a b
    let (m, e) := if m = 1 <<< 53 then (1 <<< 52, e + 1) else (m, e)
    if 971 < e then .infinite negative else .finite negative m e

/-- The number nearest to a rational. -/
def ofRat (q : Rat) : Binary64 := ofQuotient (q.num < 0) q.num.natAbs q.den

/-- The number of 64-bit words of `n` below the leading one. -/
def lowerWords (n : Nat) : Nat := n.log2 / 64

/-- The number of bits of the leading 64-bit word of `n`. -/
def leadingBits (n : Nat) : Nat := n.log2 % 64 + 1

/-- A bit that is not zero is seen below the 64 leading bits: in one of the lower words, among as many of its lowest bits as the
leading word has. In the word next to the leading one these are all that are cut off. -/
def seenBelow (n : Nat) : Bool :=
  (List.range (lowerWords n)).any fun i => (n >>> (64 * i)) % (1 <<< leadingBits n) != 0

/-- The 64 leading bits of `n`, which has at least as many; the last one is set also if a bit is seen below them. -/
def leading (n : Nat) : Nat := n >>> (n.log2 - 63) ||| (seenBelow n).toNat

/-- The number that stands for an integer: the nearest one to it, or to its leading bits where it has more than 64. One that is cut
by more than 1024 bits is beyond every finite number. -/
def ofInt (i : Int) : Binary64 :=
  let n := i.natAbs
  let cut := n.log2 - 63
  if cut = 0 then ofQuotient (i < 0) n 1
  else if 1024 < cut then .infinite (i < 0)
  else ofQuotient (i < 0) (leading n <<< cut) 1

/-- A finite number other than zero. -/
def isFiniteNonzero : Binary64 → Bool
  | .finite _ m _ => m != 0
  | .infinite _ => false

example : ofRat (mkRat 1 10) = .finite false 7205759403792794 (-56) := by decide +kernel
example : ofRat (9007199254740993 : Rat) = .finite false 4503599627370496 1 := by decide +kernel
example : ofRat (mkRat (-1) (10 ^ 400)) = .finite true 0 (-1074) := by decide +kernel
example : ofRat ((2 : Rat) ^ 1024) = .infinite false := by decide +kernel
example : ofInt (2 ^ 128 + 2 ^ 75 + 1) = .finite false (2 ^ 52 + 1) 76 := by decide +kernel
example : ofInt (2 ^ 128 + 2 ^ 75 + 2) = .finite false (2 ^ 52) 76 := by decide +kernel

end Binary64

end GoSyntax
