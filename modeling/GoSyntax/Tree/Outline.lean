import GoSyntax.Tree.Basic

/-!
# Outlines: a tree as one list of marks

The outline of a tree lists its parts in order, with marks where a node and where a list of children starts and ends, so it holds
all of the tree. Two trees are the same if their outlines are, and what is said of all nodes or leaves of a tree can be said of the
marks of its outline.
-/

namespace GoSyntax

/-- A mark of an outline: a node starts, with its location if it has one of its own; a node ends; a list starts or ends; a child is
missing; or something that has no children. -/
inductive Mark where
  | node (tag : String) (loc : Option Location)
  | close
  | list
  | endList
  | absent
  | name (n : Name)
  | literal (l : Literal)
  | text (s : String)
  | constant (value : Constant)
  | operator (op : Operator)
  | keyword (k : Keyword)
  | flag (b : Bool)
  | place (loc : Location)
  deriving DecidableEq, Repr

namespace Outline

/-- A node around its parts. -/
def node (tag : String) (loc : Option Location) (parts : List Mark) : List Mark := .node tag loc :: parts ++ [.close]

/-- A list around its members. -/
def list (members : List Mark) : List Mark := .list :: members ++ [.endList]

/-- A part that may be missing. -/
def optional {α : Type} (outline : α → List Mark) : Option α → List Mark
  | some a => outline a
  | none => [.absent]

/-- Names in a list. -/
def names (ns : List Name) : List Mark := list (ns.map .name)

/-- A name that may be missing. -/
def name? (n : Option Name) : List Mark := optional (fun n => [.name n]) n

/-- A literal that may be missing. -/
def literal? (l : Option Literal) : List Mark := optional (fun l => [.literal l]) l

end Outline

/-- The name of a direction. -/
def ChannelDirection.label : ChannelDirection → String
  | both => "both"
  | send => "send"
  | receive => "recv"

/-- The outline of an import. -/
def ImportSpec.outline (s : ImportSpec) : List Mark := Outline.name? s.name ++ [.literal s.path]

open Outline in
mutual

/-- The outline of an expression. -/
def Expr.outline : Expr → List Mark
  | .bad loc => node "bad" loc []
  | .ident loc name => node "id" loc [.text name]
  | .literal loc value => node "lit" loc [.constant value]
  | .composite loc type elements => node "comp" loc (outlineExpr? type ++ list (outlineExprs elements))
  | .function loc sig body => node "funclit" loc (sig.outline ++ body.outline)
  | .paren loc inner => node "paren" loc inner.outline
  | .selector loc operand field => node "sel" loc (operand.outline ++ [.name field])
  | .assertion loc operand type => node "assert" loc (operand.outline ++ outlineExpr? type)
  | .index loc operand subscript => node "index" loc (operand.outline ++ subscript.outline)
  | .slice loc operand low high max three =>
    node "slice" loc (operand.outline ++ outlineExpr? low ++ outlineExpr? high ++ outlineExpr? max ++ [.flag three])
  | .call loc callee args spread => node "call" loc (callee.outline ++ list (outlineExprs args) ++ [.flag spread])
  | .star loc operand => node "star" loc operand.outline
  | .unary loc op operand => node "unary" loc (.operator op :: operand.outline)
  | .binary loc op left right => node "binary" loc (.operator op :: left.outline ++ right.outline)
  | .keyValue loc key value => node "kv" loc (key.outline ++ value.outline)
  | .arrayType loc length elem => node "array" loc (length.outline ++ elem.outline)
  | .structType loc fields => node "struct" loc (list (outlineFields fields))
  | .functionType loc sig => node "functype" loc sig.outline
  | .interfaceType loc elems => node "iface" loc (list (outlineElems elems))
  | .mapType loc key value => node "map" loc (key.outline ++ value.outline)
  | .channelType loc direction elem => node "chan" loc (.text direction.label :: elem.outline)
  | .variadicType loc elem => node "ellipsis" loc elem.outline

/-- The outline of an expression that may be missing. -/
def outlineExpr? : Option Expr → List Mark
  | some e => e.outline
  | none => [.absent]

/-- The outlines of expressions. -/
def outlineExprs : List Expr → List Mark
  | [] => []
  | e :: es => e.outline ++ outlineExprs es

/-- The outline of the length of an array type. -/
def ArrayLength.outline : ArrayLength → List Mark
  | .slice => [.text "slice"]
  | .inferred => [.text "..."]
  | .fixed length => length.outline

/-- The outline of a field. -/
def Field.outline : Field → List Mark
  | ⟨loc, fieldNames, type, tag⟩ => node "field" loc (names fieldNames ++ type.outline ++ literal? tag)

/-- The outlines of fields. -/
def outlineFields : List Field → List Mark
  | [] => []
  | f :: fs => f.outline ++ outlineFields fs

/-- The outline of a signature. -/
def Signature.outline : Signature → List Mark
  | ⟨params, results⟩ => node "sig" none (list (outlineFields params) ++ list (outlineFields results))

/-- The outline of an element of an interface. -/
def InterfaceElem.outline : InterfaceElem → List Mark
  | .method loc name sig => node "method" loc (.name name :: sig.outline)
  | .embedded loc type => node "embed" loc type.outline

/-- The outlines of elements of an interface. -/
def outlineElems : List InterfaceElem → List Mark
  | [] => []
  | e :: es => e.outline ++ outlineElems es

/-- The outline of a block. -/
def Block.outline : Block → List Mark
  | ⟨loc, stmts⟩ => node "block" loc (list (outlineStmts stmts))

/-- The outline of a statement. -/
def Stmt.outline : Stmt → List Mark
  | .bad loc => node "badstmt" loc []
  | .declaration loc group => node "declstmt" loc group.outline
  | .empty loc => node "empty" loc []
  | .labeled loc label stmt => node "label" loc (.name label :: stmt.outline)
  | .expr loc e => node "expr" loc e.outline
  | .send loc channel value => node "send" loc (channel.outline ++ value.outline)
  | .incDec loc op operand => node "incdec" loc (.operator op :: operand.outline)
  | .assign loc op left right =>
    node "assign" loc (.operator op :: list (outlineExprs left) ++ list (outlineExprs right))
  | .go loc call => node "go" loc call.outline
  | .defer loc call => node "defer" loc call.outline
  | .return loc values => node "return" loc (list (outlineExprs values))
  | .branch loc keyword label => node "branch" loc (.keyword keyword :: name? label)
  | .block ⟨loc, stmts⟩ => node "blockstmt" loc (list (outlineStmts stmts))
  | .if loc init cond body otherwise =>
    node "if" loc (outlineStmt? init ++ cond.outline ++ body.outline ++ outlineStmt? otherwise)
  | .switch loc init tag clauses =>
    node "switch" loc (outlineStmt? init ++ outlineExpr? tag ++ list (outlineCases clauses))
  | .typeSwitch loc init guard clauses =>
    node "typeswitch" loc (outlineStmt? init ++ guard.outline ++ list (outlineCases clauses))
  | .select loc clauses => node "select" loc (list (outlineComms clauses))
  | .for loc init cond post body =>
    node "for" loc (outlineStmt? init ++ outlineExpr? cond ++ outlineStmt? post ++ body.outline)
  | .range loc key value define operand body =>
    node "range" loc (outlineExpr? key ++ outlineExpr? value ++ [.operator (if define then .define else .assign)]
      ++ operand.outline ++ body.outline)

/-- The outline of a statement that may be missing. -/
def outlineStmt? : Option Stmt → List Mark
  | some s => s.outline
  | none => [.absent]

/-- The outlines of statements. -/
def outlineStmts : List Stmt → List Mark
  | [] => []
  | s :: ss => s.outline ++ outlineStmts ss

/-- The outline of a clause of a switch. -/
def CaseClause.outline : CaseClause → List Mark
  | ⟨loc, cases, body⟩ => node "case" loc (outlineCaseList cases ++ list (outlineStmts body))

/-- The outline of the list of a clause. -/
def outlineCaseList : Option (List Expr) → List Mark
  | some es => list (outlineExprs es)
  | none => [.absent]

/-- The outlines of clauses of a switch. -/
def outlineCases : List CaseClause → List Mark
  | [] => []
  | c :: cs => c.outline ++ outlineCases cs

/-- The outline of a clause of a select. -/
def CommClause.outline : CommClause → List Mark
  | ⟨loc, comm, body⟩ => node "comm" loc (outlineStmt? comm ++ list (outlineStmts body))

/-- The outlines of clauses of a select. -/
def outlineComms : List CommClause → List Mark
  | [] => []
  | c :: cs => c.outline ++ outlineComms cs

/-- The outline of a declaration other than that of a function. -/
def DeclGroup.outline : DeclGroup → List Mark
  | ⟨keyword, specs, grouped⟩ =>
    node "gen" none (.keyword keyword :: .text (if grouped then "group" else "single") :: list (outlineSpecs specs))

/-- The outline of a specification. -/
def Spec.outline : Spec → List Mark
  | .import loc spec => node "import" loc spec.outline
  | .value loc specNames type values =>
    node "value" loc (names specNames ++ outlineExpr? type ++ list (outlineExprs values))
  | .type loc name type => node "type" loc (.name name :: type.outline)

/-- The outlines of specifications. -/
def outlineSpecs : List Spec → List Mark
  | [] => []
  | s :: ss => s.outline ++ outlineSpecs ss

end

open Outline

/-- The outline of the declaration of a function. -/
def FuncDecl.outline (f : FuncDecl) : List Mark :=
  node "func" none (optional (fun fs => list (outlineFields fs)) f.receiver ++ .name f.name :: f.sig.outline
    ++ optional Block.outline f.body)

/-- The outline of a declaration, without its location. -/
def Decl.outline : Decl → List Mark
  | .bad _ => node "baddecl" none []
  | .group _ g => g.outline
  | .func _ f => f.outline

/-- The outline of a file. -/
def SourceFile.outline (f : SourceFile) : List Mark :=
  node "file" f.loc (.name f.package :: f.decls.flatMap fun d => .place d.loc :: d.outline)

/-! ## Sameness of trees -/

/-- An outline without the location of its first node. -/
def Outline.unplaced : List Mark → List Mark
  | .node tag _ :: marks => .node tag none :: marks
  | marks => marks

instance : BEq Expr := ⟨fun a b => a.outline == b.outline⟩
instance : BEq Stmt := ⟨fun a b => a.outline == b.outline⟩
instance : BEq SourceFile := ⟨fun a b => a.outline == b.outline⟩

/-- The expressions are the same, wherever they start. Their parts must start at the same places. -/
def Expr.sameNode (a b : Expr) : Bool := unplaced a.outline == unplaced b.outline

/-- The statements are the same, wherever they start. Their parts must start at the same places. -/
def Stmt.sameNode (a b : Stmt) : Bool := unplaced a.outline == unplaced b.outline

end GoSyntax
