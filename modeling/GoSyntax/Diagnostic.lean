import GoSyntax.Location
import GoSyntax.Text.Quotation

/-!
# Diagnostics: what is wrong, and where

Nothing stops a scan or a parse: what is wrong is reported, and the reports are the only sign of failure. A fault is a cause with
what its message needs; a diagnostic is a fault at a location. Faults of the text (encoding, characters, comments, literals) are
lexical, those of the order of tokens syntactic.
-/

namespace GoSyntax

/-- A cause of a diagnostic. The first nine are lexical, the others syntactic. -/
inductive Fault where
  | illegalUtf8
  | illegalCharacter (c : Char)
  | unterminatedComment
  | unterminatedLiteral (what : String)
  | malformedNumber (reason : String)
  | malformedRune (reason : String)
  | illegalEscape
  | trailingCharacters (after : String)
  | floatOverflow
  | expectedToken (expected found : String)
  | expectedDeclaration (found : String)
  | expectedField (found : String)
  | expectedMethodSpec (found : String)
  | expectedType (found : String)
  | expectedOperand (found : String)
  | expectedIdentifier (found : String)
  | illegalVariadic
  | arityMismatch (context : String) (expected found : Nat)
  | malformedSlice (reason : String)
  deriving DecidableEq, Repr

namespace Fault

/-- The fault lies in the text and not in the order of the tokens. -/
def isLexical : Fault → Bool
  | illegalUtf8 | illegalCharacter _ | unterminatedComment | unterminatedLiteral _ | malformedNumber _ | malformedRune _
  | illegalEscape | trailingCharacters _ | floatOverflow => true
  | _ => false

/-- The wording of a fault, without its location. -/
def message : Fault → String
  | illegalUtf8 => "illegal UTF-8 sequence"
  | illegalCharacter c => "illegal character " ++ Quotation.ofChar c
  | unterminatedComment => "comment not terminated"
  | unterminatedLiteral what => what ++ " literal not terminated"
  | malformedNumber reason => "malformed numeric literal: " ++ reason
  | malformedRune reason => "malformed rune literal: " ++ reason
  | illegalEscape => "illegal escape sequence"
  | trailingCharacters after => "extra characters after " ++ after
  | floatOverflow => "floating-point constant overflow"
  | expectedToken expected found => "expected " ++ expected ++ ", found " ++ found
  | expectedDeclaration found => "expected declaration, found " ++ found
  | expectedField found => "expected field declaration, found " ++ found
  | expectedMethodSpec found => "expected method or embedded interface, found " ++ found
  | expectedType found => "expected type, found " ++ found
  | expectedOperand found => "expected operand, found " ++ found
  | expectedIdentifier found => "expected identifier, found " ++ found
  | illegalVariadic => "illegal variadic parameter"
  | arityMismatch context expected found =>
    context ++ ": expected " ++ toString expected ++ " expression(s), found " ++ toString found
  | malformedSlice reason => "malformed slice expression: " ++ reason

/-- The name of the cause. -/
def label : Fault → String
  | illegalUtf8 => "IllegalUtf8"
  | illegalCharacter _ => "IllegalCharacter"
  | unterminatedComment => "UnterminatedComment"
  | unterminatedLiteral _ => "UnterminatedLiteral"
  | malformedNumber _ => "MalformedNumber"
  | malformedRune _ => "MalformedRune"
  | illegalEscape => "IllegalEscape"
  | trailingCharacters _ => "TrailingCharacters"
  | floatOverflow => "FloatOverflow"
  | expectedToken _ _ => "ExpectedToken"
  | expectedDeclaration _ => "ExpectedDeclaration"
  | expectedField _ => "ExpectedField"
  | expectedMethodSpec _ => "ExpectedMethodSpec"
  | expectedType _ => "ExpectedType"
  | expectedOperand _ => "ExpectedOperand"
  | expectedIdentifier _ => "ExpectedIdentifier"
  | illegalVariadic => "IllegalVariadic"
  | arityMismatch _ _ _ => "ArityMismatch"
  | malformedSlice _ => "MalformedSlice"

/-- The stable code of the cause, for tools. -/
def code : Fault → String
  | illegalUtf8 => "gofront::lex::illegal_utf8"
  | illegalCharacter _ => "gofront::lex::illegal_character"
  | unterminatedComment => "gofront::lex::unterminated_comment"
  | unterminatedLiteral _ => "gofront::lex::unterminated_literal"
  | malformedNumber _ => "gofront::lex::malformed_number"
  | malformedRune _ => "gofront::lex::malformed_rune"
  | illegalEscape => "gofront::lex::illegal_escape"
  | trailingCharacters _ => "gofront::lex::trailing_characters"
  | floatOverflow => "gofront::lex::float_overflow"
  | expectedToken _ _ => "gofront::parse::expected_token"
  | expectedDeclaration _ => "gofront::parse::expected_declaration"
  | expectedField _ => "gofront::parse::expected_field"
  | expectedMethodSpec _ => "gofront::parse::expected_method_spec"
  | expectedType _ => "gofront::parse::expected_type"
  | expectedOperand _ => "gofront::parse::expected_operand"
  | expectedIdentifier _ => "gofront::parse::expected_identifier"
  | illegalVariadic => "gofront::parse::illegal_variadic"
  | arityMismatch _ _ _ => "gofront::parse::arity_mismatch"
  | malformedSlice _ => "gofront::parse::malformed_slice"

/-- Advice on how to mend the fault, where there is some. -/
def help? : Fault → Option String
  | illegalEscape => some "valid escapes are \\a \\b \\f \\n \\r \\t \\v \\\\ \\NNN \\xNN \\uNNNN \\UNNNNNNNN"
  | illegalVariadic => some "only the final parameter may be declared with `...`"
  | _ => none

end Fault

/-- A fault at a location. -/
structure Diagnostic where
  fault : Fault
  loc : Location
  deriving DecidableEq, Repr

namespace Diagnostic

/-- A diagnostic on one line: where, then what. -/
def display (d : Diagnostic) : String := d.loc.display ++ ": " ++ d.fault.message

/-- The diagnostic is about the text and not about the order of the tokens. -/
def isLexical (d : Diagnostic) : Bool := d.fault.isLexical

end Diagnostic

end GoSyntax
