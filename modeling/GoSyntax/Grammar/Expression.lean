import GoSyntax.Grammar.TypeForm
import GoSyntax.Grammar.Block

/-!
# Expressions

An expression is read level by level: a binary operator joins operands of the next tighter family and groups to the left, unary
operators bind tighter than any binary one, and selectors, indices, calls, assertions and the bodies of composite literals bind
tightest.

Each production knows the nesting level. In the header of a control statement, where it is negative, a brace behind a type name
starts the block and not a composite literal; brackets raise it.
-/

namespace GoSyntax.Grammar

open Parse

/-! ## Which expressions take a body in braces -/

/-- A type name, plain or qualified: with a brace behind it, it may also stand before a block. -/
def isTypeName : Expr → Bool
  | .ident _ _ => true
  | .selector _ (.ident _ _) _ => true
  | _ => false

/-- The expression can be the type of a composite literal. -/
def isLiteralType : Expr → Bool
  | .arrayType _ _ _ | .structType _ _ | .mapType _ _ _ => true
  | e => isTypeName e

/-- A brace behind the expression starts the body of a composite literal. -/
def takesBody (level : Int) (e : Expr) : Bool := isLiteralType e && (0 ≤ level || !isTypeName e)

/-! ## Suffixes -/

/-- A bound of a slice, if one comes next. -/
def sliceBound (p : Productions) (level : Int) : Parse (Option Expr) := do
  let here ← current
  if here.kind.sameKind Punctuation.colon || here.kind.sameKind Punctuation.rBracket || here.kind.sameKind .eof then return none
  else some <$> p.expr level

/-- Reports a bound that the three-index form requires and that is missing. -/
def requireBound (bound : Option Expr) (reason : String) (loc : Location) : Parse Unit :=
  reportUnless bound.isSome (.malformedSlice reason) loc

/-- The rest of a slice from its first colon on. -/
def sliceFrom (p : Productions) (level : Int) (operand : Expr) (low : Option Expr) : Parse Expr := do
  let _ ← consume
  let high ← sliceBound p level
  if ← accept Punctuation.colon then
    let max ← sliceBound p level
    let _ ← expect Punctuation.rBracket
    requireBound high "middle index required in 3-index slice" operand.loc
    requireBound max "final index required in 3-index slice" operand.loc
    return .slice operand.loc operand low high max true
  else
    let _ ← expect Punctuation.rBracket
    return .slice operand.loc operand low high none false

/-- The rest of an index or a slice from behind its first index on. -/
def indexFrom (p : Productions) (level : Int) (operand low : Expr) : Parse Expr := do
  if ← isAt Punctuation.colon then sliceFrom p level operand (some low)
  else if ← accept Punctuation.rBracket then return .index operand.loc operand low
  else
    reportExpected (TokenKind.punctuation .colon).display
    skipTo Recovery.index
    let _ ← accept Punctuation.rBracket
    return .slice operand.loc operand (some low) none none false

/-- `x[i]`, `x[low:high]` or `x[low:high:max]`. -/
def indexOrSlice (p : Productions) (level : Int) (operand : Expr) : Parse Expr := do
  let _ ← consume
  if ← isAt Punctuation.colon then sliceFrom p (level + 1) operand none
  else indexFrom p (level + 1) operand (← p.expr (level + 1))

/-- An argument of a call, and whether a `...` stands behind it. -/
def argument (p : Productions) (level : Int) : Parse (Expr × Bool) := do
  let e ← p.expr level
  return (e, ← accept Punctuation.ellipsis)

/-- `f(arguments)`; the call spreads its last argument if a `...` stands behind one. -/
def call (p : Productions) (level : Int) (callee : Expr) : Parse Expr := do
  let _ ← consume
  let args ← members Punctuation.rParen (argument p (level + 1))
  let _ ← expect Punctuation.rParen
  return .call callee.loc callee (args.map Prod.fst) (args.any Prod.snd)

/-- An element of a composite literal: a value, or a key and a value. -/
def element (p : Productions) (level : Int) : Parse Expr := do
  let key ← p.elementValue level
  if ← accept Punctuation.colon then return .keyValue key.loc key (← p.elementValue level) else return key

/-- The body of a composite literal, behind its type if it has one. -/
def composite (p : Productions) (level : Int) (t : Option Expr) : Parse Expr := do
  let here ← current
  let _ ← expect Punctuation.lBrace
  let list ← members Punctuation.rBrace (element p (level + 1))
  let _ ← expect Punctuation.rBrace
  return .composite ((t.map Expr.loc).getD here.loc) t list

/-- The type of an assertion, none for `type`. -/
def assertedType? (p : Productions) : Parse (Option Expr) := do
  if ← accept Keyword.type then return none else some <$> type p

/-- `x.(T)`, `x.(type)` or `x.name`, from the dot on. -/
def selectorOrAssertion (p : Productions) (operand : Expr) : Parse Expr := do
  let _ ← consume
  if ← accept Punctuation.lParen then
    let t ← assertedType? p
    let _ ← expect Punctuation.rParen
    return .assertion operand.loc operand t
  else return .selector operand.loc operand (← name)

/-- One suffix of an operand, or its end. -/
def suffix (p : Productions) (level : Int) (operand : Expr) : Parse (ForInStep Expr) := do
  match (← current).kind with
  | .punctuation .dot => .yield <$> selectorOrAssertion p operand
  | .punctuation .lBracket => .yield <$> indexOrSlice p level operand
  | .punctuation .lParen => .yield <$> call p level operand
  | .punctuation .lBrace =>
    if takesBody level operand then .yield <$> composite p level (some operand) else return .done operand
  | _ => return .done operand

/-- All suffixes of an operand. -/
def suffixes (p : Productions) (level : Int) (operand : Expr) : Parse Expr := loop operand (suffix p level)

/-! ## Operands -/

/-- A function type, or a function if a body follows. -/
def functionOrType (p : Productions) : Parse Expr := do
  let here ← consume
  let sig ← signature p
  if ← isAt Punctuation.lBrace then return .function here.loc sig (← block p) else return .functionType here.loc sig

/-- An expression in parentheses. -/
def parenExpr (p : Productions) (level : Int) : Parse Expr := do
  let here ← consume
  let inner ← p.expr (level + 1)
  let _ ← expect Punctuation.rParen
  return .paren here.loc inner

/-- A type where an operand may stand; where none starts, the operand is reported as missing. -/
def typeOperand (p : Productions) : Parse Expr := do
  match ← type? p true with
  | some t => return t
  | none =>
    let here ← current
    reportHere .expectedOperand
    skipTo Recovery.operand
    return .bad here.loc

/-- A name, a literal, an expression in parentheses, a function or a type. -/
def operand (p : Productions) (level : Int) : Parse Expr := do
  let here ← current
  match here.kind with
  | .ident text =>
    let _ ← consume
    return .ident here.loc text
  | .literal value =>
    let _ ← consume
    return .literal here.loc value
  | .punctuation .lParen => parenExpr p level
  | .keyword .func => functionOrType p
  | _ => typeOperand p

/-! ## Operators -/

/-- An operand and its suffixes. -/
def primary (p : Productions) (level : Int) : Parse Expr := do suffixes p level (← operand p level)

/-- An operator before its operand. -/
def prefixed (p : Productions) (level : Int) (op : Operator) : Parse Expr := do
  let here ← consume
  let operand ← p.unary level
  if op = .mul then return .star here.loc operand else return .unary here.loc op operand

/-- Operators before a primary expression. An arrow may also start a channel type. -/
def unary (p : Productions) (level : Int) : Parse Expr := do
  match (← current).kind with
  | .operator .arrow =>
    if (← peek 1).kind.sameKind Keyword.chan then suffixes p level (← channelType p) else prefixed p level .arrow
  | .operator op => if op.standsBefore then prefixed p level op else primary p level
  | _ => primary p level

/-- One more operand behind an operator of a family. -/
def binaryPass (family : Operator.Family) (operand : Parse Expr) (left : Expr) : Parse (ForInStep Expr) := do
  match (← current).kind with
  | .operator op =>
    if op.family = family then
      let _ ← consume
      return .yield (.binary left.loc op left (← operand))
    else return .done left
  | _ => return .done left

/-- Operands joined by the operators of one family, grouped to the left. -/
def binaryLevel (family : Operator.Family) (operand : Parse Expr) : Parse Expr := do
  loop (← operand) (binaryPass family operand)

/-- The binary families, the loosest first. -/
def binaryFamilies : List Operator.Family := [.logicalOr, .logicalAnd, .relational, .additive, .multiplicative]

/-- An expression. -/
def expr (p : Productions) (level : Int) : Parse Expr := binaryFamilies.foldr binaryLevel (unary p level)

/-- Expressions between commas: the first and the others. -/
def exprList (p : Productions) (level : Int) : Parse (Expr × List Expr) := separated (expr p level)

/-- The value of an element of a composite literal: an expression, or a body in braces without a type. -/
def elementValue (p : Productions) (level : Int) : Parse Expr := do
  if ← isAt Punctuation.lBrace then composite p level none else expr p level

end GoSyntax.Grammar
