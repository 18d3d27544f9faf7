import GoSyntax.Diagnostic
import GoSyntax.Token.Basic

/-!
# Lexemes: the pieces of a text

A text is cut into lexemes: blanks, line breaks, comments, tokens, and characters that belong nowhere. A lexeme depends on the
characters from its start on and on nothing else. It says how many characters it takes (at least one), how many it had to look
at (its own and what lies ahead), and what it found wrong. A finding says the same of itself: at which character, and how many
characters had been looked at when it was made. That is enough to put findings and faults of the encoding into the order in
which they are met.
-/

namespace GoSyntax

/-- Something wrong in a lexeme: the cause, the offset of the character it is blamed on, and the number of characters looked at
when it was found. -/
structure Finding where
  fault : Fault
  offset : Nat
  seen : Nat
  deriving DecidableEq, Repr

/-- What a lexeme is. A comment may span a line break. -/
inductive LexemeKind where
  | blank
  | lineBreak
  | comment (spansLines : Bool)
  | token (kind : TokenKind)
  | stray
  deriving DecidableEq, Repr

/-- A lexeme: what it is, how many characters it takes after its first, how many it looks at in all, and its findings in order. -/
structure Lexeme where
  kind : LexemeKind
  more : Nat
  seen : Nat
  findings : List Finding
  deriving DecidableEq, Repr

/-- The number of characters a lexeme takes. -/
def Lexeme.width (l : Lexeme) : Nat := l.more + 1

/-- The value of a digit in a base of at most sixteen. -/
def digit? (base : Nat) (c : Char) : Option Nat :=
  let value? :=
    if '0' ≤ c && c ≤ '9' then some (c.toNat - 48)
    else if 'a' ≤ c && c ≤ 'f' then some (c.toNat - 87)
    else if 'A' ≤ c && c ≤ 'F' then some (c.toNat - 55)
    else none
  value?.filter (· < base)

/-- The character is a digit of the base. -/
def isDigitOf (base : Nat) (c : Char) : Bool := (digit? base c).isSome

/-- The number that digits denote, the most significant first. -/
def ofDigits (base : Nat) (digits : List Char) : Nat :=
  digits.foldl (fun value c => value * base + (digit? base c).getD 0) 0

end GoSyntax
