import GoSyntax.Token.Basic
import GoSyntax.Tree.Basic

/-!
# Shapes: trees without locations

The shape of a tree is the tree with one and the same location everywhere. Two trees of one shape are the same tree, locations aside.
-/

namespace GoSyntax

/-- The shape of a name. -/
def Name.shape (n : Name) : Name := ⟨default, n.text⟩

/-- The shape of a literal. -/
def Literal.shape (l : Literal) : Literal := ⟨default, l.value⟩

/-- The shape of an import. -/
def ImportSpec.shape (s : ImportSpec) : ImportSpec := ⟨s.name.map Name.shape, s.path.shape⟩

mutual

/-- The shape of an expression. -/
def Expr.shape : Expr → Expr
  | .bad _ => .bad default
  | .ident _ name => .ident default name
  | .literal _ value => .literal default value
  | .composite _ type elements => .composite default (shapeOfExpr? type) (shapesOfExprs elements)
  | .function _ sig body => .function default sig.shape body.shape
  | .paren _ inner => .paren default inner.shape
  | .selector _ operand field => .selector default operand.shape field.shape
  | .assertion _ operand type => .assertion default operand.shape (shapeOfExpr? type)
  | .index _ operand subscript => .index default operand.shape subscript.shape
  | .slice _ operand low high max three =>
    .slice default operand.shape (shapeOfExpr? low) (shapeOfExpr? high) (shapeOfExpr? max) three
  | .call _ callee args spread => .call default callee.shape (shapesOfExprs args) spread
  | .star _ operand => .star default operand.shape
  | .unary _ op operand => .unary default op operand.shape
  | .binary _ op left right => .binary default op left.shape right.shape
  | .keyValue _ key value => .keyValue default key.shape value.shape
  | .arrayType _ length elem => .arrayType default length.shape elem.shape
  | .structType _ fields => .structType default (shapesOfFields fields)
  | .functionType _ sig => .functionType default sig.shape
  | .interfaceType _ elems => .interfaceType default (shapesOfElems elems)
  | .mapType _ key value => .mapType default key.shape value.shape
  | .channelType _ direction elem => .channelType default direction elem.shape
  | .variadicType _ elem => .variadicType default elem.shape

/-- The shape of an expression that may be missing. -/
def shapeOfExpr? : Option Expr → Option Expr
  | some e => some e.shape
  | none => none

/-- The shapes of expressions. -/
def shapesOfExprs : List Expr → List Expr
  | [] => []
  | e :: es => e.shape :: shapesOfExprs es

/-- The shape of the length of an array type. -/
def ArrayLength.shape : ArrayLength → ArrayLength
  | .slice => .slice
  | .inferred => .inferred
  | .fixed length => .fixed length.shape

/-- The shape of a field. -/
def Field.shape : Field → Field
  | ⟨_, fieldNames, type, tag⟩ => ⟨default, fieldNames.map Name.shape, type.shape, tag.map Literal.shape⟩

/-- The shapes of fields. -/
def shapesOfFields : List Field → List Field
  | [] => []
  | f :: fs => f.shape :: shapesOfFields fs

/-- The shape of a signature. -/
def Signature.shape : Signature → Signature
  | ⟨params, results⟩ => ⟨shapesOfFields params, shapesOfFields results⟩

/-- The shape of an element of an interface. -/
def InterfaceElem.shape : InterfaceElem → InterfaceElem
  | .method _ name sig => .method default name.shape sig.shape
  | .embedded _ type => .embedded default type.shape

/-- The shapes of elements of an interface. -/
def shapesOfElems : List InterfaceElem → List InterfaceElem
  | [] => []
  | e :: es => e.shape :: shapesOfElems es

/-- The shape of a block. -/
def Block.shape : Block → Block
  | ⟨_, stmts⟩ => ⟨default, shapesOfStmts stmts⟩

/-- The shape of a statement. -/
def Stmt.shape : Stmt → Stmt
  | .bad _ => .bad default
  | .declaration _ group => .declaration default group.shape
  | .empty _ => .empty default
  | .labeled _ label stmt => .labeled default label.shape stmt.shape
  | .expr _ e => .expr default e.shape
  | .send _ channel value => .send default channel.shape value.shape
  | .incDec _ op operand => .incDec default op operand.shape
  | .assign _ op left right => .assign default op (shapesOfExprs left) (shapesOfExprs right)
  | .go _ call => .go default call.shape
  | .defer _ call => .defer default call.shape
  | .return _ values => .return default (shapesOfExprs values)
  | .branch _ keyword label => .branch default keyword (label.map Name.shape)
  | .block body => .block body.shape
  | .if _ init cond body otherwise => .if default (shapeOfStmt? init) cond.shape body.shape (shapeOfStmt? otherwise)
  | .switch _ init tag clauses => .switch default (shapeOfStmt? init) (shapeOfExpr? tag) (shapesOfCases clauses)
  | .typeSwitch _ init guard clauses => .typeSwitch default (shapeOfStmt? init) guard.shape (shapesOfCases clauses)
  | .select _ clauses => .select default (shapesOfComms clauses)
  | .for _ init cond post body =>
    .for default (shapeOfStmt? init) (shapeOfExpr? cond) (shapeOfStmt? post) body.shape
  | .range _ key value define operand body =>
    .range default (shapeOfExpr? key) (shapeOfExpr? value) define operand.shape body.shape

/-- The shape of a statement that may be missing. -/
def shapeOfStmt? : Option Stmt → Option Stmt
  | some s => some s.shape
  | none => none

/-- The shapes of statements. -/
def shapesOfStmts : List Stmt → List Stmt
  | [] => []
  | s :: ss => s.shape :: shapesOfStmts ss

/-- The shape of a clause of a switch. -/
def CaseClause.shape : CaseClause → CaseClause
  | ⟨_, cases, body⟩ => ⟨default, shapeOfCaseList cases, shapesOfStmts body⟩

/-- The shape of the list of a clause. -/
def shapeOfCaseList : Option (List Expr) → Option (List Expr)
  | some es => some (shapesOfExprs es)
  | none => none

/-- The shapes of clauses of a switch. -/
def shapesOfCases : List CaseClause → List CaseClause
  | [] => []
  | c :: cs => c.shape :: shapesOfCases cs

/-- The shape of a clause of a select. -/
def CommClause.shape : CommClause → CommClause
  | ⟨_, comm, body⟩ => ⟨default, shapeOfStmt? comm, shapesOfStmts body⟩

/-- The shapes of clauses of a select. -/
def shapesOfComms : List CommClause → List CommClause
  | [] => []
  | c :: cs => c.shape :: shapesOfComms cs

/-- The shape of a declaration other than that of a function. -/
def DeclGroup.shape : DeclGroup → DeclGroup
  | ⟨keyword, specs, grouped⟩ => ⟨keyword, shapesOfSpecs specs, grouped⟩

/-- The shape of a specification. -/
def Spec.shape : Spec → Spec
  | .import _ spec => .import default spec.shape
  | .value _ specNames type values => .value default (specNames.map Name.shape) (shapeOfExpr? type) (shapesOfExprs values)
  | .type _ name type => .type default name.shape type.shape

/-- The shapes of specifications. -/
def shapesOfSpecs : List Spec → List Spec
  | [] => []
  | s :: ss => s.shape :: shapesOfSpecs ss

end

/-- The shape of the declaration of a function. -/
def FuncDecl.shape (f : FuncDecl) : FuncDecl :=
  ⟨f.receiver.map shapesOfFields, f.name.shape, f.sig.shape, f.body.map Block.shape⟩

/-- The shape of a declaration. -/
def Decl.shape : Decl → Decl
  | .bad _ => .bad default
  | .group _ g => .group default g.shape
  | .func _ f => .func default f.shape

/-- The shape of a file. -/
def SourceFile.shape (f : SourceFile) : SourceFile := ⟨default, f.package.shape, f.decls.map Decl.shape⟩

end GoSyntax
