/-!
# Decimals: integers in base ten

The digits of a number of any size. A number of many digits is cut in the middle, and each half is written in half as many places,
so that a long number costs little more than its divisions.
-/

namespace GoSyntax.Decimal

/-- A number below ten to the power `2 ^ k`, in `2 ^ k` places. -/
def places : Nat → Nat → List Char
  | 0, n => [Nat.digitChar (n % 10)]
  | k + 1, n =>
    let half := Nat.pow 10 (1 <<< k)
    places k (n / half) ++ places k (n % half)

/-- A `k` for which a number has at most `2 ^ k` digits. -/
def enough (n : Nat) : Nat := n.log2.log2 + 1

/-- The digits of a number, without zeros in front. -/
def digits (n : Nat) : List Char :=
  match (places (enough n) n).dropWhile (· == '0') with
  | [] => ['0']
  | ds => ds

/-- A natural number in base ten. -/
def ofNat (n : Nat) : String := String.ofList (digits n)

/-- An integer in base ten. -/
def ofInt (i : Int) : String := if i < 0 then "-" ++ ofNat i.natAbs else ofNat i.natAbs

/-- There are as many places as announced. -/
theorem length_places (k n : Nat) : (places k n).length = 1 <<< k := by
  induction k generalizing n with
  | zero => rfl
  | succ k ih =>
    simp only [places, List.length_append, ih, Nat.shiftLeft_eq, Nat.pow_succ]
    omega

example : [0, 7, 10, 99, 100, 65536].map ofNat = ["0", "7", "10", "99", "100", "65536"] := by decide +kernel
example : ofInt (-12345678901234567890) = "-12345678901234567890" := by decide +kernel

end GoSyntax.Decimal
