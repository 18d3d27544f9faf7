import GoSyntax.Tree.Basic

/-!
# Nodes: a tree walked from the root down

The nodes of a tree are listed in the order in which they start in the source, each with all that is below it, and behind it the
nodes below it. What is said of every node of a tree is said of the members of this list. A node that stands for something that
could not be read is a placeholder.

Every node has a location of its own. The places of a tree are those of its nodes in the order of the walk. The place of a file is that
of its first token.
-/

namespace GoSyntax

/-- A node of a tree: a part that has a location of its own. -/
inductive Node where
  | expr (e : Expr)
  | stmt (s : Stmt)
  | decl (d : Decl)
  | spec (s : Spec)
  | field (f : Field)
  | elem (e : InterfaceElem)
  | block (b : Block)
  | case (c : CaseClause)
  | comm (c : CommClause)
  | name (n : Name)
  | literal (l : Literal)

/-- Where a placeholder stands: a node for an expression, a statement or a declaration that could not be read, or an import
without a path. -/
def Node.placeholder? : Node → Option Location
  | .expr (.bad loc) | .stmt (.bad loc) | .decl (.bad loc) | .spec (.import _ ⟨_, ⟨loc, .error⟩⟩) => some loc
  | _ => none

/-- The nodes of names. -/
def nodesOfNames (ns : List Name) : List Node := ns.map .name

/-- The node of a literal that may be missing. -/
def nodesOfLiteral? (l : Option Literal) : List Node := (l.map Node.literal).toList

/-- The nodes of an import. -/
def ImportSpec.nodes (s : ImportSpec) : List Node := (s.name.map Node.name).toList ++ [.literal s.path]

mutual

/-- The nodes of an expression. -/
def Expr.nodes : Expr → List Node
  | e@(.bad _) => [.expr e]
  | e@(.ident _ _) => [.expr e]
  | e@(.literal _ _) => [.expr e]
  | e@(.composite _ type elements) => .expr e :: (nodesOfExpr? type ++ nodesOfExprs elements)
  | e@(.function _ sig body) => .expr e :: (sig.nodes ++ body.nodes)
  | e@(.paren _ inner) => .expr e :: inner.nodes
  | e@(.selector _ operand field) => .expr e :: (operand.nodes ++ [.name field])
  | e@(.assertion _ operand type) => .expr e :: (operand.nodes ++ nodesOfExpr? type)
  | e@(.index _ operand subscript) => .expr e :: (operand.nodes ++ subscript.nodes)
  | e@(.slice _ operand low high max _) =>
    .expr e :: (operand.nodes ++ nodesOfExpr? low ++ nodesOfExpr? high ++ nodesOfExpr? max)
  | e@(.call _ callee args _) => .expr e :: (callee.nodes ++ nodesOfExprs args)
  | e@(.star _ operand) => .expr e :: operand.nodes
  | e@(.unary _ _ operand) => .expr e :: operand.nodes
  | e@(.binary _ _ left right) => .expr e :: (left.nodes ++ right.nodes)
  | e@(.keyValue _ key value) => .expr e :: (key.nodes ++ value.nodes)
  | e@(.arrayType _ length elem) => .expr e :: (length.nodes ++ elem.nodes)
  | e@(.structType _ fields) => .expr e :: nodesOfFields fields
  | e@(.functionType _ sig) => .expr e :: sig.nodes
  | e@(.interfaceType _ elems) => .expr e :: nodesOfElems elems
  | e@(.mapType _ key value) => .expr e :: (key.nodes ++ value.nodes)
  | e@(.channelType _ _ elem) => .expr e :: elem.nodes
  | e@(.variadicType _ elem) => .expr e :: elem.nodes

/-- The nodes of an expression that may be missing. -/
def nodesOfExpr? : Option Expr → List Node
  | some e => e.nodes
  | none => []

/-- The nodes of expressions. -/
def nodesOfExprs : List Expr → List Node
  | [] => []
  | e :: es => e.nodes ++ nodesOfExprs es

/-- The nodes of the length of an array type. -/
def ArrayLength.nodes : ArrayLength → List Node
  | .slice | .inferred => []
  | .fixed length => length.nodes

/-- The nodes of a field. -/
def Field.nodes : Field → List Node
  | f@⟨_, fieldNames, type, tag⟩ => .field f :: (nodesOfNames fieldNames ++ type.nodes ++ nodesOfLiteral? tag)

/-- The nodes of fields. -/
def nodesOfFields : List Field → List Node
  | [] => []
  | f :: fs => f.nodes ++ nodesOfFields fs

/-- The nodes of a signature. -/
def Signature.nodes : Signature → List Node
  | ⟨params, results⟩ => nodesOfFields params ++ nodesOfFields results

/-- The nodes of an element of an interface. -/
def InterfaceElem.nodes : InterfaceElem → List Node
  | e@(.method _ name sig) => .elem e :: .name name :: sig.nodes
  | e@(.embedded _ type) => .elem e :: type.nodes

/-- The nodes of elements of an interface. -/
def nodesOfElems : List InterfaceElem → List Node
  | [] => []
  | e :: es => e.nodes ++ nodesOfElems es

/-- The nodes of a block. -/
def Block.nodes : Block → List Node
  | b@⟨_, stmts⟩ => .block b :: nodesOfStmts stmts

/-- The nodes of a statement. -/
def Stmt.nodes : Stmt → List Node
  | s@(.bad _) => [.stmt s]
  | s@(.declaration _ group) => .stmt s :: group.nodes
  | s@(.empty _) => [.stmt s]
  | s@(.labeled _ label stmt) => .stmt s :: .name label :: stmt.nodes
  | s@(.expr _ e) => .stmt s :: e.nodes
  | s@(.send _ channel value) => .stmt s :: (channel.nodes ++ value.nodes)
  | s@(.incDec _ _ operand) => .stmt s :: operand.nodes
  | s@(.assign _ _ left right) => .stmt s :: (nodesOfExprs left ++ nodesOfExprs right)
  | s@(.go _ call) => .stmt s :: call.nodes
  | s@(.defer _ call) => .stmt s :: call.nodes
  | s@(.return _ values) => .stmt s :: nodesOfExprs values
  | s@(.branch _ _ label) => .stmt s :: (label.map Node.name).toList
  | s@(.block ⟨_, stmts⟩) => .stmt s :: nodesOfStmts stmts
  | s@(.if _ init cond body otherwise) =>
    .stmt s :: (nodesOfStmt? init ++ cond.nodes ++ body.nodes ++ nodesOfStmt? otherwise)
  | s@(.switch _ init tag clauses) => .stmt s :: (nodesOfStmt? init ++ nodesOfExpr? tag ++ nodesOfCases clauses)
  | s@(.typeSwitch _ init guard clauses) => .stmt s :: (nodesOfStmt? init ++ guard.nodes ++ nodesOfCases clauses)
  | s@(.select _ clauses) => .stmt s :: nodesOfComms clauses
  | s@(.for _ init cond post body) =>
    .stmt s :: (nodesOfStmt? init ++ nodesOfExpr? cond ++ nodesOfStmt? post ++ body.nodes)
  | s@(.range _ key value _ operand body) =>
    .stmt s :: (nodesOfExpr? key ++ nodesOfExpr? value ++ operand.nodes ++ body.nodes)

/-- The nodes of a statement that may be missing. -/
def nodesOfStmt? : Option Stmt → List Node
  | some s => s.nodes
  | none => []

/-- The nodes of statements. -/
def nodesOfStmts : List Stmt → List Node
  | [] => []
  | s :: ss => s.nodes ++ nodesOfStmts ss

/-- The nodes of a clause of a switch. -/
def CaseClause.nodes : CaseClause → List Node
  | c@⟨_, cases, body⟩ => .case c :: (nodesOfCaseList cases ++ nodesOfStmts body)

/-- The nodes of the list of a clause. -/
def nodesOfCaseList : Option (List Expr) → List Node
  | some es => nodesOfExprs es
  | none => []

/-- The nodes of clauses of a switch. -/
def nodesOfCases : List CaseClause → List Node
  | [] => []
  | c :: cs => c.nodes ++ nodesOfCases cs

/-- The nodes of a clause of a select. -/
def CommClause.nodes : CommClause → List Node
  | c@⟨_, comm, body⟩ => .comm c :: (nodesOfStmt? comm ++ nodesOfStmts body)

/-- The nodes of clauses of a select. -/
def nodesOfComms : List CommClause → List Node
  | [] => []
  | c :: cs => c.nodes ++ nodesOfComms cs

/-- The nodes of a declaration other than that of a function. -/
def DeclGroup.nodes : DeclGroup → List Node
  | ⟨_, specs, _⟩ => nodesOfSpecs specs

/-- The nodes of a specification. -/
def Spec.nodes : Spec → List Node
  | s@(.import _ spec) => .spec s :: spec.nodes
  | s@(.value _ specNames type values) => .spec s :: (nodesOfNames specNames ++ nodesOfExpr? type ++ nodesOfExprs values)
  | s@(.type _ name type) => .spec s :: .name name :: type.nodes

/-- The nodes of specifications. -/
def nodesOfSpecs : List Spec → List Node
  | [] => []
  | s :: ss => s.nodes ++ nodesOfSpecs ss

end

/-- The nodes of the fields of a receiver, if there is one. -/
def nodesOfFields? : Option (List Field) → List Node
  | some fs => nodesOfFields fs
  | none => []

/-- The nodes of the body of a function, if there is one. -/
def nodesOfBlock? : Option Block → List Node
  | some b => b.nodes
  | none => []

/-- The nodes of the declaration of a function. -/
def FuncDecl.nodes (f : FuncDecl) : List Node :=
  nodesOfFields? f.receiver ++ .name f.name :: f.sig.nodes ++ nodesOfBlock? f.body

/-- The nodes of a declaration. -/
def Decl.nodes : Decl → List Node
  | d@(.bad _) => [.decl d]
  | d@(.group _ g) => .decl d :: g.nodes
  | d@(.func _ f) => .decl d :: f.nodes

/-- The nodes of a file. -/
def SourceFile.nodes (f : SourceFile) : List Node := .name f.package :: f.decls.flatMap Decl.nodes

/-- Where the placeholders among nodes stand. -/
def placeholders (nodes : List Node) : List Location := nodes.filterMap Node.placeholder?

/-! ## Where nodes stand -/

/-- Where a specification starts. -/
def Spec.loc : Spec → Location
  | .import loc _ | .value loc _ _ _ | .type loc _ _ => loc

/-- Where an element of an interface starts. -/
def InterfaceElem.loc : InterfaceElem → Location
  | .method loc _ _ | .embedded loc _ => loc

/-- Where a node stands. -/
def Node.loc : Node → Location
  | .expr e => e.loc
  | .stmt s => s.loc
  | .decl d => d.loc
  | .spec s => s.loc
  | .field f => f.loc
  | .elem e => e.loc
  | .block b => b.loc
  | .case c => c.loc
  | .comm c => c.loc
  | .name n => n.loc
  | .literal l => l.loc

/-- Where the file and its nodes stand. -/
def SourceFile.locations (f : SourceFile) : List Location := f.loc :: f.nodes.map Node.loc

end GoSyntax
