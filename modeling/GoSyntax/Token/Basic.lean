import GoSyntax.Vocabulary.Keyword
import GoSyntax.Vocabulary.Symbol
import GoSyntax.Constant
import GoSyntax.Location

/-!
# Tokens

A token is a kind at a location. Keywords, operators and punctuation marks are their entry in the vocabulary; an identifier
carries its name and a literal its value; the end of the input is a token too. Where only the kind of a token matters and not
what it carries, two kinds are compared by `sameKind`.
-/

namespace GoSyntax

/-- What a token is. -/
inductive TokenKind where
  | keyword (word : Keyword)
  | operator (op : Operator)
  | punctuation (mark : Punctuation)
  | ident (name : String)
  | literal (value : Constant)
  | eof
  deriving DecidableEq, Repr

instance : Coe Keyword TokenKind := ⟨.keyword⟩
instance : Coe Operator TokenKind := ⟨.operator⟩
instance : Coe Punctuation TokenKind := ⟨.punctuation⟩

/-- The kind of token a symbol makes. -/
def Symbol.tokenKind : Symbol → TokenKind
  | .operator o => .operator o
  | .punctuation p => .punctuation p

namespace TokenKind

instance : Inhabited TokenKind := ⟨eof⟩

/-- A token as messages name it. -/
def display : TokenKind → String
  | keyword k => "`" ++ k.spelling ++ "`"
  | operator o => "`" ++ o.spelling ++ "`"
  | punctuation p => "`" ++ p.spelling ++ "`"
  | ident name => "identifier `" ++ name ++ "`"
  | literal value => value.kindName ++ " literal"
  | eof => "end of input"

/-- The keyword, if this is one. -/
def keyword? : TokenKind → Option Keyword
  | keyword k => some k
  | _ => none

/-- The operator, if this is one. -/
def operator? : TokenKind → Option Operator
  | operator o => some o
  | _ => none

/-- The punctuation mark, if this is one. -/
def punctuation? : TokenKind → Option Punctuation
  | punctuation p => some p
  | _ => none

/-- This is an identifier. -/
def isIdent : TokenKind → Bool
  | ident _ => true
  | _ => false

/-- This is a string literal, the only kind that may name a package or tag a field. -/
def isStringLiteral : TokenKind → Bool
  | literal (.string _) => true
  | _ => false

/-- The kinds agree, whatever names and values they carry. -/
def sameKind : TokenKind → TokenKind → Bool
  | keyword a, keyword b => a == b
  | operator a, operator b => a == b
  | punctuation a, punctuation b => a == b
  | ident _, ident _ => true
  | literal _, literal _ => true
  | eof, eof => true
  | _, _ => false

/-- A line break after a token of this kind ends the statement. -/
def endsStatement : TokenKind → Bool
  | keyword k => k.endsStatement
  | operator o => o.family == .incDec
  | punctuation p => p.endsStatement
  | ident _ | literal _ => true
  | eof => false

end TokenKind

/-- A token: its kind and where it starts. -/
structure Token where
  kind : TokenKind
  loc : Location
  deriving DecidableEq, Repr

instance : Inhabited Location := ⟨⟨⟨0, anonymousPath⟩, 1⟩⟩
instance : Inhabited Token := ⟨⟨.eof, default⟩⟩

/-- A token on a line of a token dump: its location, its kind and, for a literal, its value. -/
def Token.dumpLine (t : Token) : String :=
  match t.kind with
  | .literal value => t.loc.display ++ "\t" ++ t.kind.display ++ "\t" ++ value.display ++ "\n"
  | kind => t.loc.display ++ "\t" ++ kind.display ++ "\n"

/-- The token dump: one line for each token. -/
def Token.dump (tokens : List Token) : String := String.join (tokens.map Token.dumpLine)

end GoSyntax
