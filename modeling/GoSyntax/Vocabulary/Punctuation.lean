/-!
# Punctuation: separators, brackets and the marks of access

A punctuation mark joins or encloses; it computes nothing. A line break after a closing bracket ends the statement.
-/

namespace GoSyntax

/-- The punctuation marks. -/
inductive Punctuation where
  | comma | semicolon | colon
  | dot
  | ellipsis
  | lParen | rParen | lBracket | rBracket | lBrace | rBrace
  deriving DecidableEq, Repr

/-- What a mark is for. -/
inductive Punctuation.Category where
  | delimiter | separator | access | marker
  deriving DecidableEq, Repr

namespace Punctuation

/-- Every mark, in the order of the ordinals. -/
def all : List Punctuation :=
  [comma, semicolon, colon, dot, ellipsis, lParen, rParen, lBracket, rBracket, lBrace, rBrace]

/-- The position of a mark in `all`. -/
def ordinal (p : Punctuation) : Nat := p.ctorIdx

/-- The one spelling of a mark. -/
def spelling : Punctuation → String
  | comma => ","
  | semicolon => ";"
  | colon => ":"
  | dot => "."
  | ellipsis => "..."
  | lParen => "("
  | rParen => ")"
  | lBracket => "["
  | rBracket => "]"
  | lBrace => "\x7b"
  | rBrace => "\x7d"

/-- The name of a mark in a listing. -/
def label : Punctuation → String
  | comma => "Comma"
  | semicolon => "Semicolon"
  | colon => "Colon"
  | dot => "Dot"
  | ellipsis => "Ellipsis"
  | lParen => "LParen"
  | rParen => "RParen"
  | lBracket => "LBracket"
  | rBracket => "RBracket"
  | lBrace => "LBrace"
  | rBrace => "RBrace"

/-- What a mark is for. -/
def category : Punctuation → Category
  | comma | semicolon | colon => .separator
  | dot => .access
  | ellipsis => .marker
  | lParen | rParen | lBracket | rBracket | lBrace | rBrace => .delimiter

/-- A line break after a closing bracket ends the statement. -/
def endsStatement : Punctuation → Bool
  | rParen | rBracket | rBrace => true
  | _ => false

/-- The mark with a spelling. -/
def ofSpelling? (text : String) : Option Punctuation := all.find? (fun p => p.spelling == text)

/-- The name of a category. -/
def Category.label : Category → String
  | .delimiter => "Delimiter"
  | .separator => "Separator"
  | .access => "Access"
  | .marker => "Marker"

/-! ## The table is complete and unambiguous -/

theorem mem_all (p : Punctuation) : p ∈ all := by cases p <;> decide

theorem getElem?_all_ordinal (p : Punctuation) : all[p.ordinal]? = some p := by cases p <;> rfl

theorem ordinal_inj {a b : Punctuation} : a.ordinal = b.ordinal ↔ a = b := by
  refine ⟨fun h => ?_, congrArg ordinal⟩
  have hall := congrArg (all[·]?) h
  rw [getElem?_all_ordinal, getElem?_all_ordinal] at hall
  exact Option.some.inj hall

theorem ordinal_lt (p : Punctuation) : p.ordinal < 16 := by cases p <;> decide

theorem ofSpelling?_spelling (p : Punctuation) : ofSpelling? p.spelling = some p := by cases p <;> decide +kernel

end Punctuation

end GoSyntax
