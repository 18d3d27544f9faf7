/-!
# Ranges of code points

A character class of the Unicode standard is given here as a list of closed ranges of code points in rising order.
-/

namespace GoSyntax

/-- A class of characters: closed ranges of code points, in rising order and apart from each other. -/
abbrev CodeRanges := List (Nat × Nat)

/-- The code point lies in one of the ranges; a range that starts above it ends the search. -/
def CodeRanges.contains : CodeRanges → Nat → Bool
  | [], _ => false
  | (low, high) :: rest, code => if code < low then false else code ≤ high || CodeRanges.contains rest code

theorem CodeRanges.contains_nil (code : Nat) : CodeRanges.contains [] code = false := rfl

end GoSyntax
