import GoSyntax.Grammar.Simple

/-!
# Control statements

The header of an `if`, a `switch` or a `for` holds simple statements between semicolons, read at nesting level -1. Which of them is
the condition shows when the header has been read; it must then be an expression. The clauses of a `switch` and a `select` start
with `case` or `default`.
-/

namespace GoSyntax.Grammar

open Parse

/-- The expression of a header statement; any other statement is reported. -/
def headerExpr (what : String) (s : Stmt) : Parse Expr := do
  match s with
  | .expr _ e => return e
  | _ =>
    report (.expectedToken what "simple statement") s.loc
    return .bad s.loc

/-- A simple statement of a header. -/
def headerStmt (p : Productions) : Parse Stmt := simpleStmt p .header (-1)

/-- A statement of a header, unless the token that would end it comes first. -/
def headerStmtBefore? (p : Productions) (stop : TokenKind) : Parse (Option Stmt) := do
  if ← isAt stop then return none else some <$> headerStmt p

/-- A header `[ init ; ] [ stmt ]` in front of a brace. -/
def header (p : Productions) : Parse (Option Stmt × Option Stmt) := do
  let first ← headerStmtBefore? p Punctuation.semicolon
  if ← accept Punctuation.semicolon then return (first, ← headerStmtBefore? p Punctuation.lBrace)
  else return (none, first)

/-! ## If -/

/-- Reports that a condition is missing. -/
def missingCondition : Parse Expr := do
  let here ← current
  reportExpected "condition"
  return .bad here.loc

/-- The init statement and the condition of an `if`. -/
def ifHeader (p : Productions) : Parse (Option Stmt × Expr) := do
  if ← isAt Punctuation.lBrace then return (none, ← missingCondition)
  else
    let (init, cond) ← header p
    match cond with
    | some s => return (init, ← headerExpr "condition" s)
    | none => return (init, ← missingCondition)

/-- What stands behind `else`: another `if` or a block. -/
def otherwise (p : Productions) : Parse Stmt := do
  if ← isAt Keyword.if then p.stmt
  else if ← isAt Punctuation.lBrace then .block <$> block p
  else
    let here ← current
    reportExpected "`if` or `\x7b`"
    return .bad here.loc

/-- `if [ init ; ] cond block [ else ... ]` -/
def ifStmt (p : Productions) : Parse Stmt := do
  let here ← consume
  let (init, cond) ← ifHeader p
  let body ← block p
  if ← accept Keyword.else then return .if here.loc init cond body (some (← otherwise p))
  else return .if here.loc init cond body none

/-! ## Switch and select -/

/-- `x.(type)`, the operand of a type switch. -/
def isTypeGuard : Expr → Bool
  | .assertion _ _ none => true
  | _ => false

/-- `x.(type)` or `v := x.(type)`, the guard of a type switch. -/
def isTypeSwitchGuard : Stmt → Bool
  | .expr _ e => isTypeGuard e
  | .assign _ .define [_] [e] => isTypeGuard e
  | _ => false

/-- The token starts a clause. -/
def startsClause (kind : TokenKind) : Bool := kind.sameKind Keyword.case || kind.sameKind Keyword.default

/-- One more clause. What starts none is reported and skipped. -/
def clausePass {α : Type} (clause : Parse α) (list : Array α) : Parse (ForInStep (Array α)) := do
  let here ← current
  if here.kind.sameKind Punctuation.rBrace || here.kind.sameKind .eof then return .done list
  else if startsClause here.kind then return .yield (list.push (← clause))
  else
    reportExpected "`case` or `default`"
    skipTo Recovery.clauseEnd
    return .yield list

/-- Clauses in braces. -/
def clauses {α : Type} (clause : Parse α) : Parse (List α) := do
  let _ ← expect Punctuation.lBrace
  let list ← loop #[] (clausePass clause)
  let _ ← expect Punctuation.rBrace
  return list.toList

/-- What a clause that starts with this token is for; `default` is for nothing in particular. -/
def clauseLabel? {α : Type} (here : Token) (label : Parse α) : Parse (Option α) :=
  if here.kind.sameKind Keyword.case then some <$> label else return none

/-- Types between commas. -/
def types (p : Productions) : Parse (List Expr) := do
  let (first, others) ← separated (type p)
  return first :: others

/-- Expressions between commas. -/
def exprs (p : Productions) : Parse (List Expr) := do
  let (first, others) ← exprList p 0
  return first :: others

/-- The list of a case: types in a type switch, else expressions. -/
def caseList (p : Productions) (ofTypes : Bool) : Parse (List Expr) := if ofTypes then types p else exprs p

/-- `case list : statements` or `default : statements`. -/
def caseClause (p : Productions) (ofTypes : Bool) : Parse CaseClause := do
  let here ← consume
  let list ← clauseLabel? here (caseList p ofTypes)
  let _ ← expect Punctuation.colon
  return ⟨here.loc, list, ← statements p⟩

/-- The init statement and the tag or guard of a switch. -/
def switchHeader (p : Productions) : Parse (Option Stmt × Option Stmt) := do
  if ← isAt Punctuation.lBrace then return (none, none) else header p

/-- A switch on values, from behind its header on. -/
def valueSwitch (p : Productions) (loc : Location) (init : Option Stmt) (tag : Stmt) : Parse Stmt := do
  let list ← clauses (caseClause p false)
  return .switch loc init (some (← headerExpr "switch expression" tag)) list

/-- A switch on values or on types. -/
def switchStmt (p : Productions) : Parse Stmt := do
  let here ← consume
  let (init, tag) ← switchHeader p
  match tag with
  | none => return .switch here.loc init none (← clauses (caseClause p false))
  | some s =>
    if isTypeSwitchGuard s then return .typeSwitch here.loc init s (← clauses (caseClause p true))
    else valueSwitch p here.loc init s

/-- A receive whose values are assigned, from its operator on. -/
def receiveInto (p : Productions) (op : Operator) (targets : List Expr) (loc : Location) : Parse Stmt := do
  let _ ← consume
  checkAtMost 2 "receive statement" targets.length loc
  return .assign loc op targets [← expr p 0]

/-- A receive on its own. -/
def receive (first : Expr) (others : List Expr) (loc : Location) : Parse Stmt := do
  checkAtMost 1 "receive statement" (others.length + 1) loc
  return .expr loc first

/-- What a case of a select waits for, from behind its first expressions on. -/
def communicationFrom (p : Productions) (first : Expr) (others : List Expr) (loc : Location) : Parse Stmt := do
  match (← current).kind with
  | .operator .arrow => send p 0 first others loc
  | .operator op =>
    if op = .assign || op = .define then receiveInto p op (first :: others) loc else receive first others loc
  | _ => receive first others loc

/-- What a case of a select waits for: a send, or a receive whose values may be assigned. -/
def communication (p : Productions) : Parse Stmt := do
  let here ← current
  let (first, others) ← exprList p 0
  communicationFrom p first others here.loc

/-- `case communication : statements` or `default : statements`. -/
def commClause (p : Productions) : Parse CommClause := do
  let here ← consume
  let comm ← clauseLabel? here (communication p)
  let _ ← expect Punctuation.colon
  return ⟨here.loc, comm, ← statements p⟩

/-- `select { clauses }` -/
def selectStmt (p : Productions) : Parse Stmt := do
  let here ← consume
  return .select here.loc (← clauses (commClause p))

/-! ## For -/

/-- The header of a loop. -/
inductive LoopHeader where
  | clauses (init cond post : Option Stmt)
  | range (vars : List Expr) (define : Bool) (operand : Expr)

/-- The condition and the post statement of a loop with an init statement, from its first semicolon on. -/
def loopClauses (p : Productions) (init : Option Stmt) : Parse LoopHeader := do
  let _ ← consume
  let cond ← headerStmtBefore? p Punctuation.semicolon
  let _ ← expect Punctuation.semicolon
  return .clauses init cond (← headerStmtBefore? p Punctuation.lBrace)

/-- The header of a loop that does not start with its first semicolon. -/
def loopHeaderFrom (p : Productions) : Parse LoopHeader := do
  match ← simple p .loopHeader (-1) with
  | .range vars define operand => return .range vars define operand
  | .stmt s => if ← isAt Punctuation.semicolon then loopClauses p (some s) else return .clauses none (some s) none

/-- The header of a loop: empty, a range clause, a condition, or three parts between semicolons. -/
def loopHeader (p : Productions) : Parse LoopHeader := do
  if ← isAt Punctuation.lBrace then return .clauses none none none
  else if ← accept Keyword.range then return .range [] false (← expr p (-1))
  else if ← isAt Punctuation.semicolon then loopClauses p none
  else loopHeaderFrom p

/-- A loop. -/
def forStmt (p : Productions) : Parse Stmt := do
  let here ← consume
  let head ← loopHeader p
  let body ← block p
  match head with
  | .range vars define operand => return .range here.loc vars[0]? vars[1]? define operand body
  | .clauses init none post => return .for here.loc init none post body
  | .clauses init (some cond) post => return .for here.loc init (some (← headerExpr "loop condition" cond)) post body

end GoSyntax.Grammar
