import GoSyntax.Grammar.Expression

/-!
# Declarations of imports, constants, variables and types

A keyword introduces one specification, or a group of them in parentheses with a `;` behind each. A malformed member of a group
costs one report, and the group goes on at its next member; if a declaration keyword comes first, the group is given up without
another report.
-/

namespace GoSyntax.Grammar

open Parse

/-- The name an import is to go by, if one comes next. -/
def importName? : Parse (Option Name) := do
  let here ← current
  if here.kind.sameKind Punctuation.dot then
    let _ ← consume
    return some ⟨here.loc, "."⟩
  else if here.kind.isIdent then some <$> name
  else return none

/-- The path of an import; a missing one is reported. -/
def importPath : Parse Literal := do
  match ← stringLiteral? with
  | some path => return path
  | none =>
    let here ← current
    reportExpected "import path"
    return ⟨here.loc, .error⟩

/-- `"path"`, `name "path"` or `. "path"`. -/
def importSpec : Parse ImportSpec := do
  let name ← importName?
  return ⟨name, ← importPath⟩

/-- Reports the `=` in front of values that must be there. -/
def missingValues (required : Bool) : Parse Unit :=
  if required then reportExpected (TokenKind.operator .assign).display else return ()

/-- The values of a specification. A constant must have them if it is the first of its group or typed; another one repeats the
values before it. -/
def specValues (p : Productions) (required : Bool) : Parse (List Expr) := do
  if ← accept Operator.assign then
    let (value, values) ← exprList p 0
    return value :: values
  else
    missingValues required
    return []

/-- Constants or variables, from their names on. -/
def valueSpec (p : Productions) (keyword : Keyword) (isFirst : Bool) (loc : Location) : Parse Spec := do
  let list ← names
  let t ← p.type?
  return .value loc list t (← specValues p (keyword == .const && (t.isSome || isFirst)))

/-- A type, from its name on. -/
def typeSpec (p : Productions) (loc : Location) : Parse Spec := do
  let name ← name
  return .type loc name (← type p)

/-- One specification of a declaration. -/
def spec (p : Productions) (keyword : Keyword) (isFirst : Bool) : Parse Spec := do
  let here ← current
  match keyword with
  | .import => return .import here.loc (← importSpec)
  | .type => typeSpec p here.loc
  | _ => valueSpec p keyword isFirst here.loc

/-- The token can start a specification. -/
def startsSpec (keyword : Keyword) (kind : TokenKind) : Bool :=
  if keyword = .import then kind.isIdent || kind.sameKind Punctuation.dot || kind.isStringLiteral else kind.isIdent

/-- Goes on with the next member of a group behind a `;`, or at its end. Without either the group is given up: its closing
parenthesis is not asked for. -/
def nextMember (specs : Array Spec) : Parse (ForInStep (Array Spec × Bool)) := do
  if ← accept Punctuation.semicolon <||> isAt Punctuation.rParen then return .yield (specs, true)
  else return .done (specs, false)

/-- Goes on behind a member that does not end as it should. -/
def resumeGroup (before : Nat) (specs : Array Spec) : Parse (ForInStep (Array Spec × Bool)) := do
  reportMissing before Punctuation.rParen
  skipTo Recovery.group
  nextMember specs

/-- One more member of a group and what ends it. The flag says whether the closing parenthesis is to follow. -/
def specPass (p : Productions) (keyword : Keyword) (group : Array Spec × Bool) : Parse (ForInStep (Array Spec × Bool)) := do
  let here ← current
  if here.kind.sameKind Punctuation.rParen || here.kind.sameKind .eof then return .done (group.1, true)
  else
    let before ← reports
    if startsSpec keyword here.kind then
      let specs := group.1.push (← spec p keyword group.1.isEmpty)
      if ← isAt Punctuation.rParen <||> accept Punctuation.semicolon then return .yield (specs, true)
      else resumeGroup before specs
    else resumeGroup before group.1

/-- The closing parenthesis of a group that has not been given up. -/
def closeGroup (closes : Bool) : Parse Unit := do
  if closes then
    let _ ← expect Punctuation.rParen

/-- A group of specifications, from behind its opening parenthesis on. -/
def specGroup (p : Productions) (keyword : Keyword) : Parse (List Spec) := do
  let (specs, closes) ← loop (#[], true) (specPass p keyword)
  closeGroup closes
  return specs.toList

/-- A keyword and what it declares. -/
def declGroup (p : Productions) (keyword : Keyword) : Parse DeclGroup := do
  let _ ← consume
  if ← accept Punctuation.lParen then return ⟨keyword, ← specGroup p keyword, true⟩
  else return ⟨keyword, [← spec p keyword true], false⟩

end GoSyntax.Grammar
