import GoSyntax.Grammar.Expression

/-!
# Simple statements

A simple statement starts with expressions, and what follows them decides what it is: an assignment, `++` or `--`, a send, a label,
or an expression on its own. In the header of a loop the expressions may also be the variables of a range clause.
-/

namespace GoSyntax.Grammar

open Parse

/-- Where a simple statement stands. A label may stand before a statement of a block, a range clause in the header of a loop. -/
inductive SimplePosition where
  | header | block | loopHeader
  deriving DecidableEq, Repr

/-- What a simple statement turns out to be. A range clause is only the header of its loop. -/
inductive Simple where
  | stmt (s : Stmt)
  | range (vars : List Expr) (define : Bool) (operand : Expr)

/-- Reports more expressions than a place can take. -/
def checkAtMost (limit : Nat) (context : String) (found : Nat) (loc : Location) : Parse Unit :=
  reportUnless (found ≤ limit) (.arityMismatch context limit found) loc

/-- What is wrong with the numbers of targets and values of an assignment: one or as many values as targets are right for an
assignment or a definition, one of each for an operation. -/
def assignmentFault? (op : Operator) (targets values : Nat) : Option Fault :=
  if op = .assign || op = .define then
    if 1 < values && values != targets then
      some (.arityMismatch (if op = .define then "short variable declaration" else "assignment") targets values)
    else none
  else if targets != 1 then some (.arityMismatch "assignment operation" 1 targets)
  else if values != 1 then some (.arityMismatch "assignment operation" 1 values)
  else none

/-- Reports an assignment with the wrong number of targets or values. -/
def checkAssignment (op : Operator) (targets values : Nat) (loc : Location) : Parse Unit :=
  match assignmentFault? op targets values with
  | some fault => report fault loc
  | none => return ()

/-- A range clause, from behind its keyword. -/
def rangeClause (p : Productions) (level : Int) (vars : List Expr) (define : Bool) (loc : Location) : Parse Simple := do
  let operand ← expr p level
  checkAtMost 2 "range clause" vars.length loc
  return .range vars define operand

/-- An assignment, from behind its operator. -/
def assignment (p : Productions) (level : Int) (op : Operator) (targets : List Expr) (loc : Location) : Parse Stmt := do
  let (value, values) ← exprList p level
  checkAssignment op targets.length (values.length + 1) loc
  return .assign loc op targets (value :: values)

/-- An assignment or, in the header of a loop, a range clause, from its operator on. -/
def assignmentOrRange (p : Productions) (position : SimplePosition) (level : Int) (op : Operator) (targets : List Expr)
    (loc : Location) : Parse Simple := do
  let _ ← consume
  if ← pure (position == .loopHeader && (op == .assign || op == .define)) <&&> accept Keyword.range then
    rangeClause p level targets (op == .define) loc
  else .stmt <$> assignment p level op targets loc

/-- A send, from its arrow on. -/
def send (p : Productions) (level : Int) (channel : Expr) (others : List Expr) (loc : Location) : Parse Stmt := do
  let _ ← consume
  checkAtMost 1 "send statement" (others.length + 1) loc
  return .send loc channel (← expr p level)

/-- `++` or `--` behind its operand. -/
def incDec (op : Operator) (operand : Expr) (others : List Expr) (loc : Location) : Parse Stmt := do
  let _ ← consume
  checkAtMost 1 "increment statement" (others.length + 1) loc
  return .incDec loc op operand

/-- A labeled statement, from its colon on. A label before a closing brace labels an empty statement. -/
def labeled (p : Productions) (label : Name) (loc : Location) : Parse Stmt := do
  let _ ← consume
  if ← isAt Punctuation.rBrace then
    let here ← current
    return .labeled loc label (.empty here.loc)
  else return .labeled loc label (← p.stmt)

/-- One expression on its own; others behind it are reported. -/
def alone (first : Expr) (others : List Expr) (loc : Location) : Parse Stmt := do
  if others.isEmpty then return .expr loc first
  else
    reportExpected "`:=`, `=` or `,`"
    return .expr loc first

/-- Expressions that nothing makes into another statement: a label, or one expression on its own. -/
def bare (p : Productions) (position : SimplePosition) (first : Expr) (others : List Expr) (loc : Location) : Parse Stmt := do
  match position, first, others with
  | .block, .ident labelLoc label, [] =>
    if ← isAt Punctuation.colon then labeled p ⟨labelLoc, label⟩ loc else alone first others loc
  | _, _, _ => alone first others loc

/-- A simple statement from behind its first expressions on, where an operator other than an arrow comes next. -/
def simpleBy (p : Productions) (position : SimplePosition) (level : Int) (op : Operator) (first : Expr) (others : List Expr)
    (loc : Location) : Parse Simple :=
  match op.family with
  | .incDec => .stmt <$> incDec op first others loc
  | .assignment => assignmentOrRange p position level op (first :: others) loc
  | _ => .stmt <$> bare p position first others loc

/-- A simple statement from behind its first expressions on, or the range clause of a loop. -/
def simpleFrom (p : Productions) (position : SimplePosition) (level : Int) (first : Expr) (others : List Expr)
    (loc : Location) : Parse Simple := do
  match (← current).kind with
  | .operator .arrow => .stmt <$> send p level first others loc
  | .operator op => simpleBy p position level op first others loc
  | _ => .stmt <$> bare p position first others loc

/-- A simple statement, or the range clause of a loop. -/
def simple (p : Productions) (position : SimplePosition) (level : Int) : Parse Simple := do
  let here ← current
  let (first, others) ← exprList p level
  simpleFrom p position level first others here.loc

/-- A simple statement where no range clause can stand. -/
def simpleStmt (p : Productions) (position : SimplePosition) (level : Int) : Parse Stmt := do
  let here ← current
  match ← simple p position level with
  | .stmt s => return s
  | .range _ _ _ => return .bad here.loc

end GoSyntax.Grammar
