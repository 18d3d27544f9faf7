import GoSyntax.Grammar.Statement

/-!
# Files and fragments

A file is a package clause and declarations, each with a `;` behind it. An expression and a statement can also be parsed on their
own. The grammar is run at a depth that no source of this many tokens exceeds.
-/

namespace GoSyntax

namespace Productions

/-- The productions of one more depth. -/
def deepen (p : Productions) : Productions where
  type? := Grammar.type? p false
  expr := Grammar.expr p
  unary := Grammar.unary p
  elementValue := Grammar.elementValue p
  stmt := Grammar.stmt p

/-- The productions of so many more depths. -/
def deepenBy (depth : Nat) (p : Productions) : Productions := Nat.repeat deepen depth p

/-- The productions of a depth. -/
def ofDepth (depth : Nat) : Productions := deepenBy depth exhausted

end Productions

namespace Grammar

open Parse

/-- Reports the `;` that is missing behind a declaration; `quiet` says that the declaration has already been reported. -/
def missingEnd (quiet : Bool) : Parse Unit :=
  if quiet then return () else reportExpected (TokenKind.punctuation .semicolon).display

/-- The `;` behind a declaration. Without one, parsing goes on at the next declaration. -/
def declEnd (quiet : Bool) : Parse Unit := do
  if ← accept Punctuation.semicolon then return ()
  else
    missingEnd quiet
    skipTo Recovery.declarationStart

/-- The receiver of a method, if one comes next. -/
def receiver? (p : Productions) : Parse (Option (List Field)) := do
  if ← isAt Punctuation.lParen then some <$> parameters p false else return none

/-- The body of a function, if one comes next. -/
def body? (p : Productions) : Parse (Option Block) := do
  if ← isAt Punctuation.lBrace then some <$> block p else return none

/-- `func [ receiver ] name signature [ body ]` -/
def funcDecl (p : Productions) : Parse FuncDecl := do
  let _ ← consume
  let receiver ← receiver? p
  let name ← name
  let sig ← signature p
  return ⟨receiver, name, sig, ← body? p⟩

/-- Reports that no declaration starts here and skips to one that does. -/
def badDecl : Parse Decl := do
  let here ← current
  reportHere .expectedDeclaration
  skipTo Recovery.declarationStart
  return .bad here.loc

/-- A declaration and the `;` behind it. -/
def decl (p : Productions) : Parse Decl := do
  let here ← current
  let before ← reports
  match here.kind with
  | .keyword .func =>
    let func ← funcDecl p
    declEnd (before < (← reports))
    return .func here.loc func
  | .keyword keyword =>
    if keyword = .const || keyword = .var || keyword = .type || keyword = .import then
      let group ← declGroup p keyword
      declEnd (before < (← reports))
      return .group here.loc group
    else badDecl
  | _ => badDecl

/-- The package clause; in place of a missing one `_` names the package. -/
def packageClause : Parse Name := do
  let here ← current
  if ← accept Keyword.package then
    let package ← name
    declEnd false
    return package
  else
    reportExpected "`package`"
    return ⟨here.loc, "_"⟩

/-- One more declaration, unless no token is left. -/
def declPass (p : Productions) (decls : Array Decl) : Parse (ForInStep (Array Decl)) := do
  if ← isAtEnd then return .done decls else return .yield (decls.push (← decl p))

/-- A package clause and declarations up to the end of the input. -/
def sourceFile (p : Productions) : Parse SourceFile := do
  let here ← current
  let package ← packageClause
  let decls ← loop #[] (declPass p)
  return ⟨here.loc, package, decls.toList⟩

/-- The end of a fragment: a `;` may stand before the end of the input. -/
def fragmentEnd : Parse Unit := do
  let _ ← accept Punctuation.semicolon
  unless ← isAtEnd do reportExpected "end of input"

/-- An expression on its own. -/
def exprFragment (p : Productions) : Parse Expr := do
  let e ← expr p 0
  fragmentEnd
  return e

/-- A statement on its own. -/
def stmtFragment (p : Productions) : Parse Stmt := do
  let s ← stmt p
  fragmentEnd
  return s

/-- Runs a parser at a depth that the tokens left do not exceed. -/
def run {α : Type} (parser : Productions → Parse α) : Parse α := fun c => parser (.ofDepth (c.feed.items.length + 1)) c

end Grammar

/-- What a parse gives: a tree, whatever the input, and all diagnostics in the order in which they were met. -/
structure Parsed (α : Type) where
  tree : α
  diagnostics : List Diagnostic

namespace Parsed

variable {α : Type}

/-- The tree and the reports of a parser over the tokens of a source. -/
def ofParse (parser : Parse α) (path : SourcePath) (bytes : List UInt8) : Parsed α :=
  let (tree, c) := parser (.start path bytes)
  ⟨tree, c.log.toList⟩

/-- The tree and the reports of a parser that is run at the depth of its source. -/
def ofBytes (parser : Productions → Parse α) (path : SourcePath) (bytes : List UInt8) : Parsed α :=
  ofParse (Grammar.run parser) path bytes

/-- Nothing was reported. -/
def isClean (r : Parsed α) : Bool := r.diagnostics.isEmpty

/-- The number of lexical diagnostics. -/
def lexicalCount (r : Parsed α) : Nat := r.diagnostics.countP Diagnostic.isLexical

/-- The outcome on one line: the path and `ok`, or how many diagnostics there are of each sort. -/
def summary (r : Parsed α) (path : String) : String :=
  let total := r.diagnostics.length
  if total = 0 then path ++ ": ok"
  else
    let noun := if total = 1 then "diagnostic" else "diagnostics"
    let lexical := r.lexicalCount
    path ++ ": " ++ toString total ++ " " ++ noun ++ " (" ++ toString lexical ++ " lexical, " ++ toString (total - lexical)
      ++ " syntactic)"

end Parsed

/-- Parses a source file. -/
def parseFile (path : SourcePath) (bytes : List UInt8) : Parsed SourceFile := .ofBytes Grammar.sourceFile path bytes

/-- Parses an expression on its own. -/
def parseExpr (path : SourcePath) (bytes : List UInt8) : Parsed Expr := .ofBytes Grammar.exprFragment path bytes

/-- Parses a statement on its own. -/
def parseStmt (path : SourcePath) (bytes : List UInt8) : Parsed Stmt := .ofBytes Grammar.stmtFragment path bytes

end GoSyntax
