import GoSyntax.Grammar.Cursor

/-!
# Productions: the grammar as a knot

Types, expressions and statements contain each other. Each production is a parser over the productions it may enter again, and it
enters them only behind a token it has taken. So the productions for sources of bounded depth are built up from below: at depth 0
nothing can be read, and each next depth reads with the one below it. The number of tokens bounds the depth of a source.
-/

namespace GoSyntax

/-- The productions that are entered again from inside others. The nesting level of an expression is negative in the header of a
control statement and grows in brackets. -/
@[ext]
structure Productions where
  type? : Parse (Option Expr)
  expr : Int → Parse Expr
  unary : Int → Parse Expr
  elementValue : Int → Parse Expr
  stmt : Parse Stmt

namespace Productions

/-- An operand is reported as missing. -/
def missingOperand : Parse Expr := do
  let here ← Parse.current
  Parse.reportHere .expectedOperand
  return .bad here.loc

/-- A statement is reported as missing. -/
def missingStmt : Parse Stmt := do
  let here ← Parse.current
  Parse.reportExpected "statement"
  return .bad here.loc

/-- The productions of depth 0: nothing can be read. -/
def exhausted : Productions where
  type? := return none
  expr _ := missingOperand
  unary _ := missingOperand
  elementValue _ := missingOperand
  stmt := missingStmt

end Productions

end GoSyntax
