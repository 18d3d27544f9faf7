import GoSyntax.Token.Set

/-!
# Recovery sets: where parsing goes on after an error

After an error the parser skips to a token at which the enclosing construct can be taken up again: one that closes or separates
its parts, or a keyword that starts the next statement or declaration. Each set also stops at the end of the input.
-/

namespace GoSyntax.Recovery

/-- The keywords that start a declaration at the top level. -/
def declarationStart : TokenSet := .keywords [.const, .func, .import, .type, .var]

/-- The keywords that only start a statement. -/
def statementStart : TokenSet :=
  .keywords [.break, .const, .continue, .defer, .fallthrough, .for, .go, .goto, .if, .return, .select, .switch, .type, .var]

/-- The ends of a clause of a switch or a select. -/
def clauseEnd : TokenSet := .keywords [.case, .default] ∪ .punctuation [.rBrace]

/-- After a malformed statement. -/
def statement : TokenSet := statementStart ∪ clauseEnd ∪ .punctuation [.semicolon]

/-- In a group of declarations. -/
def group : TokenSet := declarationStart ∪ .punctuation [.rParen, .semicolon]

/-- In the body of a struct or an interface. -/
def body : TokenSet := declarationStart ∪ .punctuation [.semicolon, .rBrace]

/-- After a malformed operand or type. -/
def operand : TokenSet :=
  .punctuation [.comma, .semicolon, .colon, .rParen, .rBracket, .lBrace, .rBrace] ∪ statementStart ∪ declarationStart ∪ clauseEnd

/-- In brackets, after an index that nothing closes. -/
def index : TokenSet := .punctuation [.rBracket, .semicolon, .rParen, .rBrace]

end GoSyntax.Recovery
