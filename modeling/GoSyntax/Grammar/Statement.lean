import GoSyntax.Grammar.Control
import GoSyntax.Grammar.Specification

/-!
# Statements

The keyword a statement starts with says what it is. Without one it is a block, an empty statement, or a simple statement if its
first token can start an expression.
-/

namespace GoSyntax.Grammar

open Parse

/-- Reports that no statement starts here and skips to a place where one may. -/
def badStmt : Parse Stmt := do
  let here ← current
  reportExpected "statement"
  skipTo Recovery.statement
  return .bad here.loc

/-- A token other than a keyword can start a simple statement. -/
def startsSimple : TokenKind → Bool
  | .ident _ | .literal _ => true
  | .punctuation mark => mark == .lParen || mark == .lBracket
  | .operator op => op.standsBefore
  | _ => false

/-- `return` and its values. -/
def returnStmt (p : Productions) : Parse Stmt := do
  let here ← consume
  if ← isAt Punctuation.semicolon <||> isAt Punctuation.rBrace then return .return here.loc []
  else return .return here.loc (← exprs p)

/-- `break`, `continue` or `goto`, and the label if there is one. -/
def branchStmt (keyword : Keyword) : Parse Stmt := do
  let here ← consume
  if (← current).kind.isIdent then return .branch here.loc keyword (some (← name)) else return .branch here.loc keyword none

/-- A statement that starts with a keyword. -/
def keywordStmt (p : Productions) (keyword : Keyword) : Parse Stmt := do
  match keyword with
  | .const | .type | .var =>
    let here ← current
    return .declaration here.loc (← declGroup p keyword)
  | .go =>
    let here ← consume
    return .go here.loc (← expr p 0)
  | .defer =>
    let here ← consume
    return .defer here.loc (← expr p 0)
  | .return => returnStmt p
  | .break | .continue | .goto => branchStmt keyword
  | .fallthrough =>
    let here ← consume
    return .branch here.loc keyword none
  | .if => ifStmt p
  | .switch => switchStmt p
  | .select => selectStmt p
  | .for => forStmt p
  | .func | .struct | .map | .chan | .interface => simpleStmt p .block 0
  | _ => badStmt

/-- A statement, without the `;` behind it. -/
def stmt (p : Productions) : Parse Stmt := do
  let here ← current
  match here.kind with
  | .keyword keyword => keywordStmt p keyword
  | .punctuation .lBrace => .block <$> block p
  | .punctuation .semicolon | .punctuation .rBrace => return .empty here.loc
  | kind => if startsSimple kind then simpleStmt p .block 0 else badStmt

end GoSyntax.Grammar
