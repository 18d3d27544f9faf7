import GoSyntax.Feed
import GoSyntax.Token.Basic
import GoSyntax.Tree.Basic

/-!
# Moving: the same tree at other locations

The same tokens may stand on other lines, because something stands before them. A tree is moved by moving all of its locations alike, and
so are a token and a diagnostic.
-/

namespace GoSyntax

/-- The location so many lines further down. -/
def Location.down (lines : Nat) (l : Location) : Location := ⟨l.path, l.line + lines⟩

/-- A token moved. -/
def Token.move (shift : Location → Location) (t : Token) : Token := ⟨t.kind, shift t.loc⟩

/-- A diagnostic moved. -/
def Diagnostic.move (shift : Location → Location) (d : Diagnostic) : Diagnostic := ⟨d.fault, shift d.loc⟩

/-- An item whose value and whose diagnostics are changed. -/
def Noted.relabel {α β : Type} (value : α → β) (note : Diagnostic → Diagnostic) (n : Noted α) : Noted β := ⟨value n.value, n.notes.map note⟩

/-- A feed whose values and diagnostics are changed. -/
def Feed.relabel {α β : Type} (value : α → β) (note : Diagnostic → Diagnostic) (f : Feed α) : Feed β :=
  ⟨f.items.map (Noted.relabel value note), f.last.relabel value note⟩

/-- A feed of tokens moved, with what it has to report. -/
def Feed.move (shift : Location → Location) : Feed Token → Feed Token := relabel (Token.move shift) (Diagnostic.move shift)

/-- A name moved. -/
def Name.move (shift : Location → Location) (n : Name) : Name := ⟨shift n.loc, n.text⟩

/-- A literal moved. -/
def Literal.move (shift : Location → Location) (l : Literal) : Literal := ⟨shift l.loc, l.value⟩

/-- An import moved. -/
def ImportSpec.move (shift : Location → Location) (s : ImportSpec) : ImportSpec := ⟨s.name.map (Name.move shift), s.path.move shift⟩

mutual

/-- An expression moved. -/
def Expr.move (shift : Location → Location) : Expr → Expr
  | .bad loc => .bad (shift loc)
  | .ident loc name => .ident (shift loc) name
  | .literal loc value => .literal (shift loc) value
  | .composite loc type elements => .composite (shift loc) (moveOfExpr? shift type) (movesOfExprs shift elements)
  | .function loc sig body => .function (shift loc) (sig.move shift) (body.move shift)
  | .paren loc inner => .paren (shift loc) (inner.move shift)
  | .selector loc operand field => .selector (shift loc) (operand.move shift) (field.move shift)
  | .assertion loc operand type => .assertion (shift loc) (operand.move shift) (moveOfExpr? shift type)
  | .index loc operand subscript => .index (shift loc) (operand.move shift) (subscript.move shift)
  | .slice loc operand low high max three =>
    .slice (shift loc) (operand.move shift) (moveOfExpr? shift low) (moveOfExpr? shift high) (moveOfExpr? shift max) three
  | .call loc callee args spread => .call (shift loc) (callee.move shift) (movesOfExprs shift args) spread
  | .star loc operand => .star (shift loc) (operand.move shift)
  | .unary loc op operand => .unary (shift loc) op (operand.move shift)
  | .binary loc op left right => .binary (shift loc) op (left.move shift) (right.move shift)
  | .keyValue loc key value => .keyValue (shift loc) (key.move shift) (value.move shift)
  | .arrayType loc length elem => .arrayType (shift loc) (length.move shift) (elem.move shift)
  | .structType loc fields => .structType (shift loc) (movesOfFields shift fields)
  | .functionType loc sig => .functionType (shift loc) (sig.move shift)
  | .interfaceType loc elems => .interfaceType (shift loc) (movesOfElems shift elems)
  | .mapType loc key value => .mapType (shift loc) (key.move shift) (value.move shift)
  | .channelType loc direction elem => .channelType (shift loc) direction (elem.move shift)
  | .variadicType loc elem => .variadicType (shift loc) (elem.move shift)

/-- An expression that may be missing moved. -/
def moveOfExpr? (shift : Location → Location) : Option Expr → Option Expr
  | some e => some (e.move shift)
  | none => none

/-- Expressions moved. -/
def movesOfExprs (shift : Location → Location) : List Expr → List Expr
  | [] => []
  | e :: es => e.move shift :: movesOfExprs shift es

/-- The length of an array type moved. -/
def ArrayLength.move (shift : Location → Location) : ArrayLength → ArrayLength
  | .slice => .slice
  | .inferred => .inferred
  | .fixed length => .fixed (length.move shift)

/-- A field moved. -/
def Field.move (shift : Location → Location) : Field → Field
  | ⟨loc, fieldNames, type, tag⟩ => ⟨shift loc, fieldNames.map (Name.move shift), type.move shift, tag.map (Literal.move shift)⟩

/-- Fields moved. -/
def movesOfFields (shift : Location → Location) : List Field → List Field
  | [] => []
  | f :: fs => f.move shift :: movesOfFields shift fs

/-- A signature moved. -/
def Signature.move (shift : Location → Location) : Signature → Signature
  | ⟨params, results⟩ => ⟨movesOfFields shift params, movesOfFields shift results⟩

/-- An element of an interface moved. -/
def InterfaceElem.move (shift : Location → Location) : InterfaceElem → InterfaceElem
  | .method loc name sig => .method (shift loc) (name.move shift) (sig.move shift)
  | .embedded loc type => .embedded (shift loc) (type.move shift)

/-- Elements of an interface moved. -/
def movesOfElems (shift : Location → Location) : List InterfaceElem → List InterfaceElem
  | [] => []
  | e :: es => e.move shift :: movesOfElems shift es

/-- A block moved. -/
def Block.move (shift : Location → Location) : Block → Block
  | ⟨loc, stmts⟩ => ⟨shift loc, movesOfStmts shift stmts⟩

/-- A statement moved. -/
def Stmt.move (shift : Location → Location) : Stmt → Stmt
  | .bad loc => .bad (shift loc)
  | .declaration loc group => .declaration (shift loc) (group.move shift)
  | .empty loc => .empty (shift loc)
  | .labeled loc label stmt => .labeled (shift loc) (label.move shift) (stmt.move shift)
  | .expr loc e => .expr (shift loc) (e.move shift)
  | .send loc channel value => .send (shift loc) (channel.move shift) (value.move shift)
  | .incDec loc op operand => .incDec (shift loc) op (operand.move shift)
  | .assign loc op left right => .assign (shift loc) op (movesOfExprs shift left) (movesOfExprs shift right)
  | .go loc call => .go (shift loc) (call.move shift)
  | .defer loc call => .defer (shift loc) (call.move shift)
  | .return loc values => .return (shift loc) (movesOfExprs shift values)
  | .branch loc keyword label => .branch (shift loc) keyword (label.map (Name.move shift))
  | .block body => .block (body.move shift)
  | .if loc init cond body otherwise => .if (shift loc) (moveOfStmt? shift init) (cond.move shift) (body.move shift) (moveOfStmt? shift otherwise)
  | .switch loc init tag clauses => .switch (shift loc) (moveOfStmt? shift init) (moveOfExpr? shift tag) (movesOfCases shift clauses)
  | .typeSwitch loc init guard clauses => .typeSwitch (shift loc) (moveOfStmt? shift init) (guard.move shift) (movesOfCases shift clauses)
  | .select loc clauses => .select (shift loc) (movesOfComms shift clauses)
  | .for loc init cond post body =>
    .for (shift loc) (moveOfStmt? shift init) (moveOfExpr? shift cond) (moveOfStmt? shift post) (body.move shift)
  | .range loc key value define operand body =>
    .range (shift loc) (moveOfExpr? shift key) (moveOfExpr? shift value) define (operand.move shift) (body.move shift)

/-- A statement that may be missing moved. -/
def moveOfStmt? (shift : Location → Location) : Option Stmt → Option Stmt
  | some s => some (s.move shift)
  | none => none

/-- Statements moved. -/
def movesOfStmts (shift : Location → Location) : List Stmt → List Stmt
  | [] => []
  | s :: ss => s.move shift :: movesOfStmts shift ss

/-- A clause of a switch moved. -/
def CaseClause.move (shift : Location → Location) : CaseClause → CaseClause
  | ⟨loc, cases, body⟩ => ⟨shift loc, moveOfCaseList shift cases, movesOfStmts shift body⟩

/-- The list of a clause moved. -/
def moveOfCaseList (shift : Location → Location) : Option (List Expr) → Option (List Expr)
  | some es => some (movesOfExprs shift es)
  | none => none

/-- Clauses of a switch moved. -/
def movesOfCases (shift : Location → Location) : List CaseClause → List CaseClause
  | [] => []
  | c :: cs => c.move shift :: movesOfCases shift cs

/-- A clause of a select moved. -/
def CommClause.move (shift : Location → Location) : CommClause → CommClause
  | ⟨loc, comm, body⟩ => ⟨shift loc, moveOfStmt? shift comm, movesOfStmts shift body⟩

/-- Clauses of a select moved. -/
def movesOfComms (shift : Location → Location) : List CommClause → List CommClause
  | [] => []
  | c :: cs => c.move shift :: movesOfComms shift cs

/-- A declaration other than that of a function moved. -/
def DeclGroup.move (shift : Location → Location) : DeclGroup → DeclGroup
  | ⟨keyword, specs, grouped⟩ => ⟨keyword, movesOfSpecs shift specs, grouped⟩

/-- A specification moved. -/
def Spec.move (shift : Location → Location) : Spec → Spec
  | .import loc spec => .import (shift loc) (spec.move shift)
  | .value loc specNames type values => .value (shift loc) (specNames.map (Name.move shift)) (moveOfExpr? shift type) (movesOfExprs shift values)
  | .type loc name type => .type (shift loc) (name.move shift) (type.move shift)

/-- Specifications moved. -/
def movesOfSpecs (shift : Location → Location) : List Spec → List Spec
  | [] => []
  | s :: ss => s.move shift :: movesOfSpecs shift ss

end

/-- The declaration of a function moved. -/
def FuncDecl.move (shift : Location → Location) (f : FuncDecl) : FuncDecl :=
  ⟨f.receiver.map (movesOfFields shift), f.name.move shift, f.sig.move shift, f.body.map (Block.move shift)⟩

/-- A declaration moved. -/
def Decl.move (shift : Location → Location) : Decl → Decl
  | .bad loc => .bad (shift loc)
  | .group loc g => .group (shift loc) (g.move shift)
  | .func loc f => .func (shift loc) (f.move shift)

/-- A file moved. -/
def SourceFile.move (shift : Location → Location) (f : SourceFile) : SourceFile := ⟨shift f.loc, f.package.move shift, f.decls.map (Decl.move shift)⟩

end GoSyntax
