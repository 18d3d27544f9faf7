import GoSyntax.Lexeme.Numeral
import GoSyntax.Lexeme.Quoted

/-!
# A text as lexemes

`Lexeme.read` reads the lexeme that a text starts with, and `lexemes` cuts a whole text into lexemes, which follow each other
without a gap: the next one starts where the last one ends.
-/

namespace GoSyntax

/-- A character that only keeps tokens apart. -/
def isBlank (c : Char) : Bool := c == ' ' || c == '\t' || c == '\r'

namespace Lexeme

/-- A run of blanks, from the text after its first. -/
def blanks (cs : List Char) : Lexeme :=
  let more := (cs.takeWhile isBlank).length
  ⟨.blank, more, more + 1, []⟩

/-- A comment up to the end of its line, from the text after its two slashes. -/
def lineComment (cs : List Char) : Lexeme :=
  let length := (cs.takeWhile (· != '\n')).length
  ⟨.comment false, length + 1, length + 3, []⟩

/-- The number of characters up to and with the first `*/`. -/
def toCommentEnd? : List Char → Option Nat
  | '*' :: '/' :: _ => some 2
  | _ :: cs => (toCommentEnd? cs).map (· + 1)
  | [] => none

/-- A comment up to `*/`, from the text after its opening; without `*/` it runs to the end of the text. -/
def blockComment (cs : List Char) : Lexeme :=
  match toCommentEnd? cs with
  | some n => ⟨.comment ((cs.take n).contains '\n'), n + 1, n + 2, []⟩
  | none =>
    ⟨.comment (cs.contains '\n'), cs.length + 1, cs.length + 3, [⟨.unterminatedComment, 0, cs.length + 3⟩]⟩

/-- The kind of token a word is: a keyword if it is reserved, else an identifier. -/
def wordKind (word : String) : TokenKind :=
  match Keyword.ofSpelling? word with
  | some k => .keyword k
  | none => .ident word

/-- A keyword or an identifier. -/
def word (c : Char) (cs : List Char) : Lexeme :=
  let rest := cs.takeWhile Identifier.isPart
  ⟨.token (wordKind (String.ofList (c :: rest))), rest.length, rest.length + 2, []⟩

/-- The longest symbol at the start of a text, or one character that belongs nowhere. -/
def symbol (c : Char) (cs : List Char) : Lexeme :=
  match Symbol.longest? (c :: cs) with
  | some (s, length) => ⟨.token s.tokenKind, length - 1, Symbol.maxLength, []⟩
  | none => ⟨.stray, 0, Symbol.maxLength, [⟨.illegalCharacter c, 0, Symbol.maxLength⟩]⟩

/-- A text starts with a digit. -/
def startsWithDigit : List Char → Bool
  | c :: _ => c.isDigit
  | [] => false

/-- The lexeme at the start of the text `c :: cs`. -/
def read (c : Char) (cs : List Char) : Lexeme :=
  if c = '\n' then ⟨.lineBreak, 0, 1, []⟩
  else if isBlank c then blanks cs
  else if c = '/' && cs.head? == some '/' then lineComment cs.tail
  else if c = '/' && cs.head? == some '*' then blockComment cs.tail
  else if Identifier.isStart c then word c cs
  else if c.isDigit || (c = '.' && startsWithDigit cs) then Numeral.lexeme (c :: cs)
  else if c = '"' then Quoted.string cs
  else if c = '\x60' then Quoted.rawString cs
  else if c = '\'' then Quoted.rune cs
  else symbol c cs

end Lexeme

/-- The lexemes of a text. -/
def lexemes : List Char → List Lexeme
  | [] => []
  | c :: cs => Lexeme.read c cs :: lexemes (cs.drop (Lexeme.read c cs).more)
termination_by text => text.length
decreasing_by simp only [List.length_drop, List.length_cons]; omega

theorem lexemes_nil : lexemes [] = [] := by rw [lexemes]

theorem lexemes_cons (c : Char) (cs : List Char) :
    lexemes (c :: cs) = Lexeme.read c cs :: lexemes (cs.drop (Lexeme.read c cs).more) := by
  rw [lexemes]

example : (lexemes "x+= /* c */1".toList).map Lexeme.width = [1, 2, 1, 7, 1] := by decide +kernel

end GoSyntax
