import GoSyntax.Tree.Nodes

/-!
# Edits: trees whose lists are changed

A tree is edited by changing its lists: the declarations of the file, the statements of blocks and clauses, the specifications of
declarations, the fields and elements of types and the clauses of switches. Nothing else is changed, and what is in a list is edited
before the list is. One way to edit a tree is to put a placeholder in front of the member of a list that stands at a given place.
-/

namespace GoSyntax

/-- What is done to the lists of a tree. Whether a declaration stands in parentheses is known when its specifications are changed. -/
@[ext]
structure Editing where
  decls : List Decl → List Decl
  stmts : List Stmt → List Stmt
  specs : Keyword → Bool → List Spec → List Spec
  fields : List Field → List Field
  elems : List InterfaceElem → List InterfaceElem
  cases : List CaseClause → List CaseClause
  comms : List CommClause → List CommClause

mutual

/-- An expression edited. -/
def Expr.edit (E : Editing) : Expr → Expr
  | .bad loc => .bad loc
  | .ident loc name => .ident loc name
  | .literal loc value => .literal loc value
  | .composite loc type elements => .composite loc (editOfExpr? E type) (editsOfExprs E elements)
  | .function loc sig body => .function loc (sig.edit E) (body.edit E)
  | .paren loc inner => .paren loc (inner.edit E)
  | .selector loc operand field => .selector loc (operand.edit E) field
  | .assertion loc operand type => .assertion loc (operand.edit E) (editOfExpr? E type)
  | .index loc operand subscript => .index loc (operand.edit E) (subscript.edit E)
  | .slice loc operand low high max three =>
    .slice loc (operand.edit E) (editOfExpr? E low) (editOfExpr? E high) (editOfExpr? E max) three
  | .call loc callee args spread => .call loc (callee.edit E) (editsOfExprs E args) spread
  | .star loc operand => .star loc (operand.edit E)
  | .unary loc op operand => .unary loc op (operand.edit E)
  | .binary loc op left right => .binary loc op (left.edit E) (right.edit E)
  | .keyValue loc key value => .keyValue loc (key.edit E) (value.edit E)
  | .arrayType loc length elem => .arrayType loc (length.edit E) (elem.edit E)
  | .structType loc fields => .structType loc (E.fields (editsOfFields E fields))
  | .functionType loc sig => .functionType loc (sig.edit E)
  | .interfaceType loc elems => .interfaceType loc (E.elems (editsOfElems E elems))
  | .mapType loc key value => .mapType loc (key.edit E) (value.edit E)
  | .channelType loc direction elem => .channelType loc direction (elem.edit E)
  | .variadicType loc elem => .variadicType loc (elem.edit E)

/-- An expression that may be missing edited. -/
def editOfExpr? (E : Editing) : Option Expr → Option Expr
  | some e => some (e.edit E)
  | none => none

/-- Expressions edited. -/
def editsOfExprs (E : Editing) : List Expr → List Expr
  | [] => []
  | e :: es => e.edit E :: editsOfExprs E es

/-- The length of an array type edited. -/
def ArrayLength.edit (E : Editing) : ArrayLength → ArrayLength
  | .slice => .slice
  | .inferred => .inferred
  | .fixed length => .fixed (length.edit E)

/-- A field edited. -/
def Field.edit (E : Editing) : Field → Field
  | ⟨loc, fieldNames, type, tag⟩ => ⟨loc, fieldNames, type.edit E, tag⟩

/-- Fields edited. -/
def editsOfFields (E : Editing) : List Field → List Field
  | [] => []
  | f :: fs => f.edit E :: editsOfFields E fs

/-- A signature edited. -/
def Signature.edit (E : Editing) : Signature → Signature
  | ⟨params, results⟩ => ⟨editsOfFields E params, editsOfFields E results⟩

/-- An element of an interface edited. -/
def InterfaceElem.edit (E : Editing) : InterfaceElem → InterfaceElem
  | .method loc name sig => .method loc name (sig.edit E)
  | .embedded loc type => .embedded loc (type.edit E)

/-- Elements of an interface edited. -/
def editsOfElems (E : Editing) : List InterfaceElem → List InterfaceElem
  | [] => []
  | e :: es => e.edit E :: editsOfElems E es

/-- A block edited. -/
def Block.edit (E : Editing) : Block → Block
  | ⟨loc, stmts⟩ => ⟨loc, E.stmts (editsOfStmts E stmts)⟩

/-- A statement edited. -/
def Stmt.edit (E : Editing) : Stmt → Stmt
  | .bad loc => .bad loc
  | .declaration loc group => .declaration loc (group.edit E)
  | .empty loc => .empty loc
  | .labeled loc label stmt => .labeled loc label (stmt.edit E)
  | .expr loc e => .expr loc (e.edit E)
  | .send loc channel value => .send loc (channel.edit E) (value.edit E)
  | .incDec loc op operand => .incDec loc op (operand.edit E)
  | .assign loc op left right => .assign loc op (editsOfExprs E left) (editsOfExprs E right)
  | .go loc call => .go loc (call.edit E)
  | .defer loc call => .defer loc (call.edit E)
  | .return loc values => .return loc (editsOfExprs E values)
  | .branch loc keyword label => .branch loc keyword label
  | .block body => .block (body.edit E)
  | .if loc init cond body otherwise => .if loc (editOfStmt? E init) (cond.edit E) (body.edit E) (editOfStmt? E otherwise)
  | .switch loc init tag clauses => .switch loc (editOfStmt? E init) (editOfExpr? E tag) (E.cases (editsOfCases E clauses))
  | .typeSwitch loc init guard clauses => .typeSwitch loc (editOfStmt? E init) (guard.edit E) (E.cases (editsOfCases E clauses))
  | .select loc clauses => .select loc (E.comms (editsOfComms E clauses))
  | .for loc init cond post body =>
    .for loc (editOfStmt? E init) (editOfExpr? E cond) (editOfStmt? E post) (body.edit E)
  | .range loc key value define operand body =>
    .range loc (editOfExpr? E key) (editOfExpr? E value) define (operand.edit E) (body.edit E)

/-- A statement that may be missing edited. -/
def editOfStmt? (E : Editing) : Option Stmt → Option Stmt
  | some s => some (s.edit E)
  | none => none

/-- Statements edited. -/
def editsOfStmts (E : Editing) : List Stmt → List Stmt
  | [] => []
  | s :: ss => s.edit E :: editsOfStmts E ss

/-- A clause of a switch edited. -/
def CaseClause.edit (E : Editing) : CaseClause → CaseClause
  | ⟨loc, cases, body⟩ => ⟨loc, editOfCaseList E cases, E.stmts (editsOfStmts E body)⟩

/-- The list of a clause edited. -/
def editOfCaseList (E : Editing) : Option (List Expr) → Option (List Expr)
  | some es => some (editsOfExprs E es)
  | none => none

/-- Clauses of a switch edited. -/
def editsOfCases (E : Editing) : List CaseClause → List CaseClause
  | [] => []
  | c :: cs => c.edit E :: editsOfCases E cs

/-- A clause of a select edited. -/
def CommClause.edit (E : Editing) : CommClause → CommClause
  | ⟨loc, comm, body⟩ => ⟨loc, editOfStmt? E comm, E.stmts (editsOfStmts E body)⟩

/-- Clauses of a select edited. -/
def editsOfComms (E : Editing) : List CommClause → List CommClause
  | [] => []
  | c :: cs => c.edit E :: editsOfComms E cs

/-- A declaration other than that of a function edited. -/
def DeclGroup.edit (E : Editing) : DeclGroup → DeclGroup
  | ⟨keyword, specs, grouped⟩ => ⟨keyword, E.specs keyword grouped (editsOfSpecs E specs), grouped⟩

/-- A specification edited. -/
def Spec.edit (E : Editing) : Spec → Spec
  | .import loc spec => .import loc spec
  | .value loc specNames type values => .value loc specNames (editOfExpr? E type) (editsOfExprs E values)
  | .type loc name type => .type loc name (type.edit E)

/-- Specifications edited. -/
def editsOfSpecs (E : Editing) : List Spec → List Spec
  | [] => []
  | s :: ss => s.edit E :: editsOfSpecs E ss

end

/-- The declaration of a function edited. -/
def FuncDecl.edit (E : Editing) (f : FuncDecl) : FuncDecl :=
  ⟨f.receiver.map (editsOfFields E), f.name, f.sig.edit E, f.body.map (Block.edit E)⟩

/-- A declaration edited. -/
def Decl.edit (E : Editing) : Decl → Decl
  | .bad loc => .bad loc
  | .group loc g => .group loc (g.edit E)
  | .func loc f => .func loc (f.edit E)

/-- A file edited. -/
def SourceFile.edit (E : Editing) (f : SourceFile) : SourceFile := ⟨f.loc, f.package, E.decls (f.decls.map (Decl.edit E))⟩

/-! ## Lists and the places of their members -/

/-- The lists of a tree: the declarations of the file, the groups that a keyword introduces, the bodies of structs and of interfaces, the
statements of blocks and clauses, and the clauses of a switch or a select. -/
inductive Listing where
  | declarations
  | specs (keyword : Keyword)
  | fields
  | elems
  | statements
  | clauses
  deriving DecidableEq

/-- Where the specifications of a group in parentheses stand, if the lists are those. -/
def DeclGroup.memberPlaces (l : Listing) : DeclGroup → List Location
  | ⟨keyword, specs, grouped⟩ => if l = .specs keyword ∧ grouped then specs.map Spec.loc else []

/-- Where the members of such lists stand that a node has itself; of the clauses, only where the first one stands. -/
def Node.memberPlaces (l : Listing) : Node → List Location
  | .decl (.group _ group) | .stmt (.declaration _ group) => group.memberPlaces l
  | .expr (.structType _ fields) => if l = .fields then fields.map Field.loc else []
  | .expr (.interfaceType _ elems) => if l = .elems then elems.map InterfaceElem.loc else []
  | .block ⟨_, stmts⟩ | .stmt (.block ⟨_, stmts⟩) | .case ⟨_, _, stmts⟩ | .comm ⟨_, _, stmts⟩ =>
    if l = .statements then stmts.map Stmt.loc else []
  | .stmt (.switch _ _ _ clauses) | .stmt (.typeSwitch _ _ _ clauses) => if l = .clauses then (clauses.map CaseClause.loc).take 1 else []
  | .stmt (.select _ clauses) => if l = .clauses then (clauses.map CommClause.loc).take 1 else []
  | _ => []

/-- Where the members of such lists of a file stand. -/
def SourceFile.memberPlaces (l : Listing) (f : SourceFile) : List Location :=
  (if l = .declarations then f.decls.map Decl.loc else []) ++ f.nodes.flatMap (Node.memberPlaces l)

/-! ## Placeholders put into lists -/

section Insert

variable {α : Type} (locOf : α → Location) (spot : Location) (new : α)

/-- The list with something new in front of each member that stands at the spot. -/
def insertAt (l : List α) : List α := l.flatMap fun a => if locOf a = spot then [new, a] else [a]

/-- The list with something new in front of its first member, if that stands at the spot. -/
def insertFirst : List α → List α
  | [] => []
  | a :: l => if locOf a = spot then new :: a :: l else a :: l

end Insert

/-- Nothing is changed. -/
def Editing.none : Editing := ⟨id, id, fun _ _ => id, id, id, id, id⟩

/-- A placeholder, itself at `loc`, is put into such lists, in front of the member that stands at the spot. -/
def Editing.insert (l : Listing) (spot loc : Location) : Editing where
  decls := if l = .declarations then insertAt Decl.loc spot (.bad loc) else id
  stmts := if l = .statements then insertAt Stmt.loc spot (.bad loc) else id
  specs keyword grouped := if l = .specs keyword ∧ grouped then insertAt Spec.loc spot (.import loc ⟨.none, ⟨loc, .error⟩⟩) else id
  fields := if l = .fields then insertAt Field.loc spot ⟨loc, [], .bad loc, .none⟩ else id
  elems := if l = .elems then insertAt InterfaceElem.loc spot (.embedded loc (.bad loc)) else id
  cases := if l = .clauses then insertFirst CaseClause.loc spot ⟨loc, some [.bad loc], []⟩ else id
  comms := if l = .clauses then insertFirst CommClause.loc spot ⟨loc, .none, [.bad loc]⟩ else id

end GoSyntax
