import GoSyntax.Grammar.Productions
import GoSyntax.Grammar.Recovery

/-!
# Blocks

Statements stand one after another, each with a `;` behind it. After a statement that nothing ends, parsing goes on at the next
place where a statement can start or a clause ends, and this costs one report: that of the statement itself, if it has made one,
or else one for the missing `;`.
-/

namespace GoSyntax.Grammar

open Parse

/-- The token ends a list of statements. -/
def endsStatements (kind : TokenKind) : Bool :=
  kind.sameKind Punctuation.rBrace || kind.sameKind .eof || kind.sameKind Keyword.case || kind.sameKind Keyword.default

/-- The next token ends a list of statements. -/
def isAtStatementsEnd : Parse Bool := do return endsStatements (← current).kind

/-- Reports that a token is missing here, unless something has been reported since there were `before` reports. -/
def reportMissing (before : Nat) (kind : TokenKind) : Parse Unit := do
  if (← reports) == before then reportExpected kind.display

/-- Goes on behind a statement that nothing ends. -/
def resumeStatements (before : Nat) : Parse Unit := do
  reportMissing before Punctuation.semicolon
  skipTo Recovery.statement
  let _ ← accept Punctuation.semicolon

/-- One more statement and what ends it. -/
def statementPass (p : Productions) (stmts : Array Stmt) : Parse (ForInStep (Array Stmt)) := do
  if ← isAtStatementsEnd then return .done stmts
  else
    let before ← reports
    let stmts := stmts.push (← p.stmt)
    if ← isAtStatementsEnd <||> accept Punctuation.semicolon then return .yield stmts
    else
      resumeStatements before
      return .yield stmts

/-- Statements up to a closing brace, a clause or the end of the input. -/
def statements (p : Productions) : Parse (List Stmt) := do return (← loop #[] (statementPass p)).toList

/-- Statements in braces. -/
def block (p : Productions) : Parse Block := do
  let loc ← expect Punctuation.lBrace
  let stmts ← statements p
  let _ ← expect Punctuation.rBrace
  return ⟨loc, stmts⟩

end GoSyntax.Grammar
