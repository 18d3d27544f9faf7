import GoSyntax.Text.Quotation
import GoSyntax.Number.Decimal
import GoSyntax.Number.Shortest

/-!
# Constants: the values of literals

A constant is what a literal denotes. It travels unchanged from the token to the tree. Numbers are exact: an integer or a rune is
an integer of any size, a floating-point value is a rational in lowest terms. A string is bytes and not text, since byte escapes
may spell what is no UTF-8. Two constants stand for no literal: `error` for one that is missing and `uninit` for none at all.
-/

namespace GoSyntax

/-- The value of a literal. `byteEscape` marks a rune that was written by an octal or a hexadecimal escape. -/
inductive Constant where
  | bool (value : Bool)
  | int (value : Int)
  | rune (value : Int) (byteEscape : Bool)
  | float (value : Rat)
  | complex (re im : Rat)
  | string (bytes : List UInt8)
  | error
  | uninit
  deriving DecidableEq, Repr

namespace Constant

instance : Inhabited Constant := ⟨uninit⟩

/-- The kind of a constant, as messages name it. -/
def kindName : Constant → String
  | bool _ => "boolean"
  | int _ => "integer"
  | rune _ _ => "rune"
  | float _ => "floating-point"
  | complex _ _ => "complex"
  | string _ => "string"
  | error => "error"
  | uninit => "uninitialized"

/-- A purely imaginary value. -/
def imaginary (im : Rat) : Constant := complex 0 im

/-- The text a string constant spells, if its bytes are UTF-8. -/
def text? : Constant → Option String
  | string bytes => String.fromUTF8? bytes.toByteArray
  | _ => none

/-- The double-precision number that stands for an integer or a floating-point constant: the nearest one, for an integer found from
its leading bits. -/
def nearest? : Constant → Option Binary64
  | int i => some (Binary64.ofInt i)
  | float q => some (Binary64.ofRat q)
  | _ => none

/-- A rational as it is shown: an integer by its digits, another by the shortest digits of the nearest double-precision number,
or as a quotient where that number is a zero or infinite. -/
def showRational (q : Rat) : String :=
  if q.den = 1 then Decimal.ofInt q.num
  else
    let near := Binary64.ofRat q
    if near.isFiniteNonzero then near.toText else Decimal.ofInt q.num ++ "/" ++ Decimal.ofNat q.den

/-- A rune as it is shown: the quoted character, or its number if it is no character. -/
def showRune (value : Int) : String :=
  if h : 0 ≤ value ∧ value.toNat.isValidChar then Quotation.ofChar (Char.ofNatAux value.toNat h.2)
  else "rune(" ++ Decimal.ofInt value ++ ")"

/-- A constant as it is shown. -/
def display : Constant → String
  | bool b => if b then "true" else "false"
  | int i => Decimal.ofInt i
  | rune value _ => showRune value
  | float q => showRational q
  | complex re im => "(" ++ showRational re ++ " + " ++ showRational im ++ "i)"
  | string bytes => Quotation.ofBytes bytes
  | error => "<error>"
  | uninit => "<uninit>"

end Constant

end GoSyntax
