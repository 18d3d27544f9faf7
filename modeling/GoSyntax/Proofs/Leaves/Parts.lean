import GoSyntax.Grammar.Control
import GoSyntax.Proofs.TreeTally
import GoSyntax.Tree.Leaves

/-!
# The leaves of the parts of a tree

Whatever a parser gives has leaves, be it a part of a tree, a list of parts, or something that is no part of a tree and has none. The
leaves of a part are those of its parts in turn, so there is one equation for each constructor.
-/

namespace GoSyntax

/-- Something that a parser gives, with its leaves. -/
class HasLeaves (α : Type) where
  leaves : α → List TokenKind

export HasLeaves (leaves)

/-- Something that a parser gives and that has no leaves. -/
class Leafless (α : Type) extends HasLeaves α where
  leaves_eq_nil : ∀ a : α, leaves a = []

instance : Leafless Unit where
  leaves _ := []
  leaves_eq_nil _ := rfl

instance : Leafless Bool where
  leaves _ := []
  leaves_eq_nil _ := rfl

instance : Leafless Nat where
  leaves _ := []
  leaves_eq_nil _ := rfl

instance : Leafless Token where
  leaves _ := []
  leaves_eq_nil _ := rfl

instance : Leafless Location where
  leaves _ := []
  leaves_eq_nil _ := rfl

instance : Leafless ChannelDirection where
  leaves _ := []
  leaves_eq_nil _ := rfl


instance : HasLeaves Name := ⟨fun n => (leafOfName n.text).toList⟩
instance : HasLeaves Literal := ⟨fun l => (leafOfLiteral l.value).toList⟩
instance : HasLeaves ImportSpec := ⟨fun s => leavesOfNodes s.nodes⟩
instance : HasLeaves Expr := ⟨fun e => leavesOfNodes e.nodes⟩
instance : HasLeaves ArrayLength := ⟨fun l => leavesOfNodes l.nodes⟩
instance : HasLeaves Field := ⟨fun f => leavesOfNodes f.nodes⟩
instance : HasLeaves Signature := ⟨fun s => leavesOfNodes s.nodes⟩
instance : HasLeaves InterfaceElem := ⟨fun e => leavesOfNodes e.nodes⟩
instance : HasLeaves Block := ⟨fun b => leavesOfNodes b.nodes⟩
instance : HasLeaves Stmt := ⟨fun s => leavesOfNodes s.nodes⟩
instance : HasLeaves CaseClause := ⟨fun c => leavesOfNodes c.nodes⟩
instance : HasLeaves CommClause := ⟨fun c => leavesOfNodes c.nodes⟩
instance : HasLeaves DeclGroup := ⟨fun g => leavesOfNodes g.nodes⟩
instance : HasLeaves Spec := ⟨fun s => leavesOfNodes s.nodes⟩
instance : HasLeaves FuncDecl := ⟨fun f => leavesOfNodes f.nodes⟩
instance : HasLeaves Decl := ⟨fun d => leavesOfNodes d.nodes⟩
instance : HasLeaves SourceFile := ⟨fun f => leavesOfNodes f.nodes⟩

variable {α β : Type} [HasLeaves α] [HasLeaves β]

instance : HasLeaves (List α) := ⟨fun l => l.flatMap leaves⟩
instance : HasLeaves (Array α) := ⟨fun l => leaves l.toList⟩
instance : HasLeaves (Option α) := ⟨fun a => leaves a.toList⟩
instance : HasLeaves (α × β) := ⟨fun a => leaves a.1 ++ leaves a.2⟩
instance : HasLeaves (ForInStep α) := ⟨fun a => leaves a.value⟩

instance : HasLeaves Grammar.Simple := ⟨fun
  | .stmt s => leaves s
  | .range vars _ operand => leaves vars ++ leaves operand⟩

instance : HasLeaves Grammar.LoopHeader := ⟨fun
  | .clauses init cond post => leaves init ++ leaves cond ++ leaves post
  | .range vars _ operand => leaves vars ++ leaves operand⟩

/-! ## Lists and the like -/

@[simp] theorem leaves_nil : leaves ([] : List α) = [] := rfl
@[simp] theorem leaves_cons (a : α) (l : List α) : leaves (a :: l) = leaves a ++ leaves l := rfl
@[simp] theorem leaves_append (l l' : List α) : leaves (l ++ l') = leaves l ++ leaves l' := List.flatMap_append
@[simp] theorem leaves_toList (l : Array α) : leaves l.toList = leaves l := rfl
@[simp] theorem leaves_empty : leaves (#[] : Array α) = [] := rfl
@[simp] theorem leaves_push (l : Array α) (a : α) : leaves (l.push a) = leaves l ++ leaves a := by
  rw [← leaves_toList, Array.toList_push, leaves_append, leaves_cons, leaves_nil, List.append_nil, leaves_toList]
@[simp] theorem leaves_none : leaves (none : Option α) = [] := rfl
@[simp] theorem leaves_some (a : α) : leaves (some a) = leaves a := List.append_nil _
@[simp] theorem leaves_pair (a : α) (b : β) : leaves (a, b) = leaves a ++ leaves b := rfl
@[simp] theorem leaves_yield (a : α) : leaves (ForInStep.yield a) = leaves a := rfl
@[simp] theorem leaves_done (a : α) : leaves (ForInStep.done a) = leaves a := rfl
@[simp] theorem leaves_leafless {γ : Type} [Leafless γ] (a : γ) : leaves a = [] := Leafless.leaves_eq_nil a

theorem leaves_map_of_eq {r : α → β} (h : ∀ a, leaves (r a) = leaves a) (l : List α) : leaves (l.map r) = leaves l := by
  induction l with
  | nil => rfl
  | cons a l ih => rw [List.map_cons, leaves_cons, leaves_cons, h, ih]

/-! ## Nodes -/

@[simp] theorem leavesOfNodes_nil : leavesOfNodes [] = [] := rfl
@[simp] theorem leavesOfNodes_cons (n : Node) (ns : List Node) :
    leavesOfNodes (n :: ns) = n.leaf?.toList ++ leavesOfNodes ns := by
  rw [leavesOfNodes, List.filterMap_cons]
  cases n.leaf? <;> rfl
theorem leavesOfNodes_inner {n : Node} (h : n.leaf? = none) (ns : List Node) : leavesOfNodes (n :: ns) = leavesOfNodes ns :=
  List.filterMap_cons_none h
@[simp] theorem leavesOfNodes_append (ns ns' : List Node) :
    leavesOfNodes (ns ++ ns') = leavesOfNodes ns ++ leavesOfNodes ns' := List.filterMap_append

/-- The leaves below a list of parts are those of the parts. -/
theorem leavesOfNodes_flatMap {nodes : α → List Node} (h : ∀ a, leavesOfNodes (nodes a) = leaves a) (l : List α) :
    leavesOfNodes (l.flatMap nodes) = leaves l := by
  induction l with
  | nil => rfl
  | cons a l ih => rw [List.flatMap_cons, leavesOfNodes_append, h, ih, leaves_cons]

@[simp] theorem leavesOfNodes_names (ns : List Name) : leavesOfNodes (nodesOfNames ns) = leaves ns := by
  rw [nodesOfNames, List.map_eq_flatMap]
  exact leavesOfNodes_flatMap (fun n => (leavesOfNodes_cons (.name n) []).trans (List.append_nil _)) ns
@[simp] theorem leavesOfNodes_name? (n : Option Name) : leavesOfNodes (n.map Node.name).toList = leaves n := by
  cases n with
  | none => rfl
  | some n => exact (leavesOfNodes_cons (.name n) []).trans (leaves_some n ▸ List.append_nil _)
@[simp] theorem leavesOfNodes_literal? (l : Option Literal) : leavesOfNodes (nodesOfLiteral? l) = leaves l := by
  cases l with
  | none => rfl
  | some l => exact (leavesOfNodes_cons (.literal l) []).trans (leaves_some l ▸ List.append_nil _)
@[simp] theorem leavesOfNodes_exprs (es : List Expr) : leavesOfNodes (nodesOfExprs es) = leaves es := by
  rw [nodesOfExprs_eq]
  exact leavesOfNodes_flatMap (fun _ => rfl) es
@[simp] theorem leavesOfNodes_fields (fs : List Field) : leavesOfNodes (nodesOfFields fs) = leaves fs := by
  rw [nodesOfFields_eq]
  exact leavesOfNodes_flatMap (fun _ => rfl) fs
@[simp] theorem leavesOfNodes_elems (es : List InterfaceElem) : leavesOfNodes (nodesOfElems es) = leaves es := by
  rw [nodesOfElems_eq]
  exact leavesOfNodes_flatMap (fun _ => rfl) es
@[simp] theorem leavesOfNodes_stmts (ss : List Stmt) : leavesOfNodes (nodesOfStmts ss) = leaves ss := by
  rw [nodesOfStmts_eq]
  exact leavesOfNodes_flatMap (fun _ => rfl) ss
@[simp] theorem leavesOfNodes_cases (cs : List CaseClause) : leavesOfNodes (nodesOfCases cs) = leaves cs := by
  rw [nodesOfCases_eq]
  exact leavesOfNodes_flatMap (fun _ => rfl) cs
@[simp] theorem leavesOfNodes_comms (cs : List CommClause) : leavesOfNodes (nodesOfComms cs) = leaves cs := by
  rw [nodesOfComms_eq]
  exact leavesOfNodes_flatMap (fun _ => rfl) cs
@[simp] theorem leavesOfNodes_specs (ss : List Spec) : leavesOfNodes (nodesOfSpecs ss) = leaves ss := by
  rw [nodesOfSpecs_eq]
  exact leavesOfNodes_flatMap (fun _ => rfl) ss
@[simp] theorem leavesOfNodes_expr? (e : Option Expr) : leavesOfNodes (nodesOfExpr? e) = leaves e := by
  cases e with
  | none => rfl
  | some e => exact (leaves_some e).symm
@[simp] theorem leavesOfNodes_stmt? (s : Option Stmt) : leavesOfNodes (nodesOfStmt? s) = leaves s := by
  cases s with
  | none => rfl
  | some s => exact (leaves_some s).symm
@[simp] theorem leavesOfNodes_fields? (fs : Option (List Field)) : leavesOfNodes (nodesOfFields? fs) = leaves fs := by
  cases fs with
  | none => rfl
  | some fs => rw [leaves_some, nodesOfFields?, leavesOfNodes_fields]
@[simp] theorem leavesOfNodes_block? (b : Option Block) : leavesOfNodes (nodesOfBlock? b) = leaves b := by
  cases b with
  | none => rfl
  | some b => exact (leaves_some b).symm
@[simp] theorem leavesOfNodes_caseList (es : Option (List Expr)) : leavesOfNodes (nodesOfCaseList es) = leaves es := by
  cases es with
  | none => rfl
  | some es => rw [leaves_some, nodesOfCaseList, leavesOfNodes_exprs]

@[simp] theorem leavesOfNodes_import (s : ImportSpec) : leavesOfNodes s.nodes = leaves s := rfl
@[simp] theorem leavesOfNodes_expr (e : Expr) : leavesOfNodes e.nodes = leaves e := rfl
@[simp] theorem leavesOfNodes_length (l : ArrayLength) : leavesOfNodes l.nodes = leaves l := rfl
@[simp] theorem leavesOfNodes_signature (s : Signature) : leavesOfNodes s.nodes = leaves s := rfl
@[simp] theorem leavesOfNodes_block (b : Block) : leavesOfNodes b.nodes = leaves b := rfl
@[simp] theorem leavesOfNodes_stmt (s : Stmt) : leavesOfNodes s.nodes = leaves s := rfl
@[simp] theorem leavesOfNodes_group (g : DeclGroup) : leavesOfNodes g.nodes = leaves g := rfl
@[simp] theorem leavesOfNodes_func (f : FuncDecl) : leavesOfNodes f.nodes = leaves f := rfl
@[simp] theorem leaf?_name (n : Name) : (Node.name n).leaf?.toList = leaves n := rfl
@[simp] theorem leaf?_literal (l : Literal) : (Node.literal l).leaf?.toList = leaves l := rfl

theorem Name.leaves_eq (n : Name) : leaves n = (leafOfName n.text).toList := rfl
theorem Literal.leaves_eq (l : Literal) : leaves l = (leafOfLiteral l.value).toList := rfl

/-! ## Expressions -/

namespace Expr

variable (loc : Location)

@[simp] theorem leaves_bad : leaves (bad loc) = [] := rfl

@[simp] theorem leaves_ident (name : String) : leaves (ident loc name) = (leafOfName name).toList :=
  (leavesOfNodes_cons _ []).trans (List.append_nil _)

@[simp] theorem leaves_literal (value : Constant) : leaves (literal loc value) = (leafOfLiteral value).toList :=
  (leavesOfNodes_cons _ []).trans (List.append_nil _)

@[simp] theorem leaves_composite (type : Option Expr) (elements : List Expr) :
    leaves (composite loc type elements) = leaves type ++ leaves elements :=
  (leavesOfNodes_inner rfl _).trans (by simp)

@[simp] theorem leaves_function (sig : Signature) (body : Block) : leaves (function loc sig body) = leaves sig ++ leaves body :=
  (leavesOfNodes_inner rfl _).trans (by simp)

@[simp] theorem leaves_paren (inner : Expr) : leaves (paren loc inner) = leaves inner :=
  (leavesOfNodes_inner rfl _).trans (by simp)

@[simp] theorem leaves_selector (operand : Expr) (field : Name) :
    leaves (selector loc operand field) = leaves operand ++ leaves field :=
  (leavesOfNodes_inner rfl _).trans (by simp)

@[simp] theorem leaves_assertion (operand : Expr) (type : Option Expr) :
    leaves (assertion loc operand type) = leaves operand ++ leaves type :=
  (leavesOfNodes_inner rfl _).trans (by simp)

@[simp] theorem leaves_index (operand subscript : Expr) :
    leaves (index loc operand subscript) = leaves operand ++ leaves subscript :=
  (leavesOfNodes_inner rfl _).trans (by simp)

@[simp] theorem leaves_slice (operand : Expr) (low high max : Option Expr) (three : Bool) :
    leaves (slice loc operand low high max three) = leaves operand ++ leaves low ++ leaves high ++ leaves max :=
  (leavesOfNodes_inner rfl _).trans (by simp)

@[simp] theorem leaves_call (callee : Expr) (args : List Expr) (spread : Bool) :
    leaves (call loc callee args spread) = leaves callee ++ leaves args :=
  (leavesOfNodes_inner rfl _).trans (by simp)

@[simp] theorem leaves_star (operand : Expr) : leaves (star loc operand) = leaves operand :=
  (leavesOfNodes_inner rfl _).trans (by simp)

@[simp] theorem leaves_unary (op : Operator) (operand : Expr) : leaves (unary loc op operand) = leaves operand :=
  (leavesOfNodes_inner rfl _).trans (by simp)

@[simp] theorem leaves_binary (op : Operator) (left right : Expr) :
    leaves (binary loc op left right) = leaves left ++ leaves right :=
  (leavesOfNodes_inner rfl _).trans (by simp)

@[simp] theorem leaves_keyValue (key value : Expr) : leaves (keyValue loc key value) = leaves key ++ leaves value :=
  (leavesOfNodes_inner rfl _).trans (by simp)

@[simp] theorem leaves_arrayType (length : ArrayLength) (elem : Expr) :
    leaves (arrayType loc length elem) = leaves length ++ leaves elem :=
  (leavesOfNodes_inner rfl _).trans (by simp)

@[simp] theorem leaves_structType (fields : List Field) : leaves (structType loc fields) = leaves fields :=
  (leavesOfNodes_inner rfl _).trans (by simp)

@[simp] theorem leaves_functionType (sig : Signature) : leaves (functionType loc sig) = leaves sig :=
  (leavesOfNodes_inner rfl _).trans (by simp)

@[simp] theorem leaves_interfaceType (elems : List InterfaceElem) : leaves (interfaceType loc elems) = leaves elems :=
  (leavesOfNodes_inner rfl _).trans (by simp)

@[simp] theorem leaves_mapType (key value : Expr) : leaves (mapType loc key value) = leaves key ++ leaves value :=
  (leavesOfNodes_inner rfl _).trans (by simp)

@[simp] theorem leaves_channelType (direction : ChannelDirection) (elem : Expr) :
    leaves (channelType loc direction elem) = leaves elem :=
  (leavesOfNodes_inner rfl _).trans (by simp)

@[simp] theorem leaves_variadicType (elem : Expr) : leaves (variadicType loc elem) = leaves elem :=
  (leavesOfNodes_inner rfl _).trans (by simp)

end Expr

@[simp] theorem ArrayLength.leaves_slice : leaves slice = [] := rfl
@[simp] theorem ArrayLength.leaves_inferred : leaves inferred = [] := rfl
@[simp] theorem ArrayLength.leaves_fixed (length : Expr) : leaves (fixed length) = leaves length := rfl

@[simp] theorem Field.leaves_mk (loc : Location) (names : List Name) (type : Expr) (tag : Option Literal) :
    leaves (Field.mk loc names type tag) = leaves names ++ leaves type ++ leaves tag :=
  (leavesOfNodes_inner rfl _).trans (by simp)

@[simp] theorem Signature.leaves_mk (params results : List Field) :
    leaves (Signature.mk params results) = leaves params ++ leaves results := by
  change leavesOfNodes (nodesOfFields params ++ nodesOfFields results) = _
  simp

@[simp] theorem InterfaceElem.leaves_method (loc : Location) (name : Name) (sig : Signature) :
    leaves (method loc name sig) = leaves name ++ leaves sig :=
  (leavesOfNodes_inner rfl _).trans (by simp)

@[simp] theorem InterfaceElem.leaves_embedded (loc : Location) (type : Expr) : leaves (embedded loc type) = leaves type := rfl

@[simp] theorem Block.leaves_mk (loc : Location) (stmts : List Stmt) : leaves (Block.mk loc stmts) = leaves stmts :=
  (leavesOfNodes_inner rfl _).trans (by simp)

/-! ## Statements -/

namespace Stmt

variable (loc : Location)

@[simp] theorem leaves_bad : leaves (bad loc) = [] := rfl

@[simp] theorem leaves_empty : leaves (empty loc) = [] := rfl

@[simp] theorem leaves_declaration (group : DeclGroup) : leaves (declaration loc group) = leaves group :=
  (leavesOfNodes_inner rfl _).trans (by simp)

@[simp] theorem leaves_labeled (label : Name) (stmt : Stmt) : leaves (labeled loc label stmt) = leaves label ++ leaves stmt :=
  (leavesOfNodes_inner rfl _).trans (by simp)

@[simp] theorem leaves_expr (e : Expr) : leaves (expr loc e) = leaves e :=
  (leavesOfNodes_inner rfl _).trans (by simp)

@[simp] theorem leaves_send (channel value : Expr) : leaves (send loc channel value) = leaves channel ++ leaves value :=
  (leavesOfNodes_inner rfl _).trans (by simp)

@[simp] theorem leaves_incDec (op : Operator) (operand : Expr) : leaves (incDec loc op operand) = leaves operand :=
  (leavesOfNodes_inner rfl _).trans (by simp)

@[simp] theorem leaves_assign (op : Operator) (left right : List Expr) :
    leaves (assign loc op left right) = leaves left ++ leaves right :=
  (leavesOfNodes_inner rfl _).trans (by simp)

@[simp] theorem leaves_go (call : Expr) : leaves (go loc call) = leaves call :=
  (leavesOfNodes_inner rfl _).trans (by simp)

@[simp] theorem leaves_defer (call : Expr) : leaves (defer loc call) = leaves call :=
  (leavesOfNodes_inner rfl _).trans (by simp)

@[simp] theorem leaves_return (values : List Expr) : leaves (Stmt.return loc values) = leaves values :=
  (leavesOfNodes_inner rfl _).trans (by simp)

@[simp] theorem leaves_branch (keyword : Keyword) (label : Option Name) : leaves (branch loc keyword label) = leaves label :=
  (leavesOfNodes_inner rfl _).trans (by simp)

@[simp] theorem leaves_if (init : Option Stmt) (cond : Expr) (body : Block) (otherwise : Option Stmt) :
    leaves (Stmt.if loc init cond body otherwise) = leaves init ++ leaves cond ++ leaves body ++ leaves otherwise :=
  (leavesOfNodes_inner rfl _).trans (by simp)

@[simp] theorem leaves_switch (init : Option Stmt) (tag : Option Expr) (clauses : List CaseClause) :
    leaves (switch loc init tag clauses) = leaves init ++ leaves tag ++ leaves clauses :=
  (leavesOfNodes_inner rfl _).trans (by simp)

@[simp] theorem leaves_typeSwitch (init : Option Stmt) (guard : Stmt) (clauses : List CaseClause) :
    leaves (typeSwitch loc init guard clauses) = leaves init ++ leaves guard ++ leaves clauses :=
  (leavesOfNodes_inner rfl _).trans (by simp)

@[simp] theorem leaves_select (clauses : List CommClause) : leaves (select loc clauses) = leaves clauses :=
  (leavesOfNodes_inner rfl _).trans (by simp)

@[simp] theorem leaves_for (init : Option Stmt) (cond : Option Expr) (post : Option Stmt) (body : Block) :
    leaves (Stmt.for loc init cond post body) = leaves init ++ leaves cond ++ leaves post ++ leaves body :=
  (leavesOfNodes_inner rfl _).trans (by simp)

@[simp] theorem leaves_range (key value : Option Expr) (define : Bool) (operand : Expr) (body : Block) :
    leaves (range loc key value define operand body) = leaves key ++ leaves value ++ leaves operand ++ leaves body :=
  (leavesOfNodes_inner rfl _).trans (by simp)

@[simp] theorem leaves_block (body : Block) : leaves (block body) = leaves body := by
  obtain ⟨loc, stmts⟩ := body
  exact (leavesOfNodes_inner rfl _).trans (by simp)

end Stmt

@[simp] theorem CaseClause.leaves_mk (loc : Location) (list : Option (List Expr)) (body : List Stmt) :
    leaves (CaseClause.mk loc list body) = leaves list ++ leaves body :=
  (leavesOfNodes_inner rfl _).trans (by simp)

@[simp] theorem CommClause.leaves_mk (loc : Location) (comm : Option Stmt) (body : List Stmt) :
    leaves (CommClause.mk loc comm body) = leaves comm ++ leaves body :=
  (leavesOfNodes_inner rfl _).trans (by simp)

@[simp] theorem simple_leaves_stmt (s : Stmt) : leaves (Grammar.Simple.stmt s) = leaves s := rfl

@[simp] theorem simple_leaves_range (vars : List Expr) (define : Bool) (operand : Expr) :
    leaves (Grammar.Simple.range vars define operand) = leaves vars ++ leaves operand := rfl

@[simp] theorem loopHeader_leaves_clauses (init cond post : Option Stmt) :
    leaves (Grammar.LoopHeader.clauses init cond post) = leaves init ++ leaves cond ++ leaves post := rfl

@[simp] theorem loopHeader_leaves_range (vars : List Expr) (define : Bool) (operand : Expr) :
    leaves (Grammar.LoopHeader.range vars define operand) = leaves vars ++ leaves operand := rfl

/-! ## Declarations -/

@[simp] theorem ImportSpec.leaves_mk (name : Option Name) (path : Literal) :
    leaves (ImportSpec.mk name path) = leaves name ++ leaves path := by
  change leavesOfNodes ((name.map Node.name).toList ++ [.literal path]) = _
  simp

@[simp] theorem DeclGroup.leaves_mk (keyword : Keyword) (specs : List Spec) (grouped : Bool) :
    leaves (DeclGroup.mk keyword specs grouped) = leaves specs := leavesOfNodes_specs specs

namespace Spec

variable (loc : Location)

@[simp] theorem leaves_import (spec : ImportSpec) : leaves (Spec.import loc spec) = leaves spec :=
  (leavesOfNodes_inner rfl _).trans (by simp)

@[simp] theorem leaves_value (names : List Name) (type : Option Expr) (values : List Expr) :
    leaves (value loc names type values) = leaves names ++ leaves type ++ leaves values :=
  (leavesOfNodes_inner rfl _).trans (by simp)

@[simp] theorem leaves_type (name : Name) (type : Expr) : leaves (Spec.type loc name type) = leaves name ++ leaves type :=
  (leavesOfNodes_inner rfl _).trans (by simp)

end Spec

@[simp] theorem FuncDecl.leaves_mk (receiver : Option (List Field)) (name : Name) (sig : Signature) (body : Option Block) :
    leaves (FuncDecl.mk receiver name sig body) = leaves receiver ++ leaves name ++ leaves sig ++ leaves body := by
  change leavesOfNodes (nodesOfFields? receiver ++ .name name :: sig.nodes ++ nodesOfBlock? body) = _
  simp

@[simp] theorem Decl.leaves_bad (loc : Location) : leaves (bad loc) = [] := rfl

@[simp] theorem Decl.leaves_group (loc : Location) (g : DeclGroup) : leaves (group loc g) = leaves g := rfl

@[simp] theorem Decl.leaves_func (loc : Location) (f : FuncDecl) : leaves (func loc f) = leaves f := rfl

@[simp] theorem SourceFile.leaves_mk (loc : Location) (package : Name) (decls : List Decl) :
    leaves (SourceFile.mk loc package decls) = leaves package ++ leaves decls := by
  change leavesOfNodes (.name package :: decls.flatMap Decl.nodes) = _
  rw [leavesOfNodes_cons, leavesOfNodes_flatMap (fun _ => rfl)]
  rfl

end GoSyntax
