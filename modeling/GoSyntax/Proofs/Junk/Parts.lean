import GoSyntax.Grammar.Control
import GoSyntax.Proofs.TreeTally
import GoSyntax.Tree.Edit

/-!
# Editing what a parser gives

Whatever a parser gives can be edited, be it a part of a tree, a list of parts, or something that holds no list. A part is edited by
editing its parts and then the lists that it has itself, so there is one equation for each constructor with such a list, with parts in a
list, or with parts that may be missing; for the others it holds by definition. What the grammar asks of a part does not depend on what is
in its lists.
-/

namespace GoSyntax

/-- Something that a parser gives, and what it is when its lists are edited. -/
class Editable (α : Type) where
  edited : Editing → α → α

export Editable (edited)

instance : Editable Unit := ⟨fun _ a => a⟩
instance : Editable Bool := ⟨fun _ a => a⟩
instance : Editable ChannelDirection := ⟨fun _ a => a⟩
instance : Editable Location := ⟨fun _ a => a⟩
instance : Editable Token := ⟨fun _ a => a⟩
instance : Editable Name := ⟨fun _ a => a⟩
instance : Editable Literal := ⟨fun _ a => a⟩
instance : Editable ImportSpec := ⟨fun _ a => a⟩
instance : Editable Expr := ⟨Expr.edit⟩
instance : Editable ArrayLength := ⟨ArrayLength.edit⟩
instance : Editable Field := ⟨Field.edit⟩
instance : Editable Signature := ⟨Signature.edit⟩
instance : Editable InterfaceElem := ⟨InterfaceElem.edit⟩
instance : Editable Block := ⟨Block.edit⟩
instance : Editable Stmt := ⟨Stmt.edit⟩
instance : Editable CaseClause := ⟨CaseClause.edit⟩
instance : Editable CommClause := ⟨CommClause.edit⟩
instance : Editable DeclGroup := ⟨DeclGroup.edit⟩
instance : Editable Spec := ⟨Spec.edit⟩
instance : Editable FuncDecl := ⟨FuncDecl.edit⟩
instance : Editable Decl := ⟨Decl.edit⟩
instance : Editable SourceFile := ⟨SourceFile.edit⟩

variable {α β : Type} [Editable α] [Editable β] (E : Editing)

instance : Editable (List α) := ⟨fun E l => l.map (edited E)⟩
instance : Editable (Array α) := ⟨fun E l => l.map (edited E)⟩
instance : Editable (Option α) := ⟨fun E a => a.map (edited E)⟩
instance : Editable (α × β) := ⟨fun E a => (edited E a.1, edited E a.2)⟩

/-- What a pass of a loop has come to, changed. -/
def stepMap {σ : Type} (r : σ → σ) : ForInStep σ → ForInStep σ
  | .yield a => .yield (r a)
  | .done a => .done (r a)

instance : Editable (ForInStep α) := ⟨fun E => stepMap (edited E)⟩

instance : Editable Grammar.Simple := ⟨fun
  | E, .stmt s => .stmt (edited E s)
  | E, .range vars define operand => .range (edited E vars) define (edited E operand)⟩

instance : Editable Grammar.LoopHeader := ⟨fun
  | E, .clauses init cond post => .clauses (edited E init) (edited E cond) (edited E post)
  | E, .range vars define operand => .range (edited E vars) define (edited E operand)⟩

/-! ## Lists and the like -/

@[simp] theorem edited_bool (b : Bool) : edited E b = b := rfl
@[simp] theorem edited_direction (d : ChannelDirection) : edited E d = d := rfl
@[simp] theorem edited_nil : edited E ([] : List α) = [] := rfl
@[simp] theorem edited_cons (a : α) (l : List α) : edited E (a :: l) = edited E a :: edited E l := rfl
@[simp] theorem length_edited (l : List α) : (edited E l).length = l.length := List.length_map _
@[simp] theorem isEmpty_edited (l : List α) : (edited E l).isEmpty = l.isEmpty := List.isEmpty_map
@[simp] theorem getElem?_edited (l : List α) (i : Nat) : (edited E l)[i]? = edited E l[i]? := List.getElem?_map
@[simp] theorem head?_edited (l : List α) : (edited E l).head? = edited E l.head? := List.head?_map
@[simp] theorem edited_append (l l' : List α) : edited E (l ++ l') = edited E l ++ edited E l' := List.map_append
@[simp] theorem edited_empty : edited E (#[] : Array α) = #[] := Array.map_empty
@[simp] theorem toList_edited (l : Array α) : (edited E l).toList = edited E l.toList := Array.toList_map
@[simp] theorem edited_push (l : Array α) (a : α) : edited E (l.push a) = (edited E l).push (edited E a) := Array.map_push
@[simp] theorem isEmpty_edited_array (l : Array α) : (edited E l).isEmpty = l.isEmpty := by
  change (l.map (edited E)).isEmpty = l.isEmpty
  rw [Array.isEmpty, Array.isEmpty, Array.size_map]
@[simp] theorem edited_none : edited E (none : Option α) = none := rfl
@[simp] theorem edited_some (a : α) : edited E (some a) = some (edited E a) := rfl
@[simp] theorem isSome_edited (a : Option α) : (edited E a).isSome = a.isSome := Option.isSome_map
@[simp] theorem edited_pair (a : α) (b : β) : edited E (a, b) = (edited E a, edited E b) := rfl
@[simp] theorem edited_yield (a : α) : edited E (ForInStep.yield a) = .yield (edited E a) := rfl
@[simp] theorem edited_done (a : α) : edited E (ForInStep.done a) = .done (edited E a) := rfl

/-- A list is edited by a function that edits each element. -/
theorem edited_map {r : α → β} (h : ∀ a, r (edited E a) = edited E (r a)) (l : List α) : (edited E l).map r = edited E (l.map r) := by
  change (l.map (edited E)).map r = (l.map r).map (edited E)
  rw [List.map_map, List.map_map]
  exact List.map_congr_left fun a _ => h a

@[simp] theorem edited_token (t : Token) : edited E t = t := rfl
@[simp] theorem edited_location (l : Location) : edited E l = l := rfl
@[simp] theorem edited_name (n : Name) : edited E n = n := rfl
@[simp] theorem edited_literal (l : Literal) : edited E l = l := rfl

/-- Names and literals are not edited, so lists of them are not. -/
@[simp] theorem edited_names (l : List Name) : edited E l = l := List.map_id l
@[simp] theorem edited_name? (n : Option Name) : edited E n = n := Option.map_id_apply
@[simp] theorem edited_literal? (l : Option Literal) : edited E l = l := Option.map_id_apply

/-! ## Parts of trees -/

theorem editsOfExprs_eq (es : List Expr) : editsOfExprs E es = edited E es := eq_map_of_cons rfl (fun _ _ => rfl) es
theorem editsOfFields_eq (fs : List Field) : editsOfFields E fs = edited E fs := eq_map_of_cons rfl (fun _ _ => rfl) fs
theorem editsOfElems_eq (es : List InterfaceElem) : editsOfElems E es = edited E es := eq_map_of_cons rfl (fun _ _ => rfl) es
theorem editsOfStmts_eq (ss : List Stmt) : editsOfStmts E ss = edited E ss := eq_map_of_cons rfl (fun _ _ => rfl) ss
theorem editsOfCases_eq (cs : List CaseClause) : editsOfCases E cs = edited E cs := eq_map_of_cons rfl (fun _ _ => rfl) cs
theorem editsOfComms_eq (cs : List CommClause) : editsOfComms E cs = edited E cs := eq_map_of_cons rfl (fun _ _ => rfl) cs
theorem editsOfSpecs_eq (ss : List Spec) : editsOfSpecs E ss = edited E ss := eq_map_of_cons rfl (fun _ _ => rfl) ss

theorem editOfExpr?_eq (e : Option Expr) : editOfExpr? E e = edited E e := by cases e <;> rfl
theorem editOfStmt?_eq (s : Option Stmt) : editOfStmt? E s = edited E s := by cases s <;> rfl
theorem editOfCaseList_eq (es : Option (List Expr)) : editOfCaseList E es = edited E es := by
  cases es with
  | none => rfl
  | some es => exact congrArg some (editsOfExprs_eq E es)

variable (loc : Location)

namespace Expr

@[simp] theorem edited_composite (type : Option Expr) (elements : List Expr) :
    edited E (composite loc type elements) = composite loc (edited E type) (edited E elements) := by
  rw [← editOfExpr?_eq, ← editsOfExprs_eq]
  rfl

@[simp] theorem edited_assertion (operand : Expr) (type : Option Expr) :
    edited E (assertion loc operand type) = assertion loc (edited E operand) (edited E type) := by
  rw [← editOfExpr?_eq]
  rfl

@[simp] theorem edited_slice (operand : Expr) (low high max : Option Expr) (three : Bool) :
    edited E (slice loc operand low high max three)
      = slice loc (edited E operand) (edited E low) (edited E high) (edited E max) three := by
  rw [← editOfExpr?_eq, ← editOfExpr?_eq, ← editOfExpr?_eq]
  rfl

@[simp] theorem edited_call (callee : Expr) (args : List Expr) (spread : Bool) :
    edited E (call loc callee args spread) = call loc (edited E callee) (edited E args) spread := by
  rw [← editsOfExprs_eq]
  rfl

@[simp] theorem edited_structType (fields : List Field) :
    edited E (structType loc fields) = structType loc (E.fields (edited E fields)) := by
  rw [← editsOfFields_eq]
  rfl

@[simp] theorem edited_interfaceType (elems : List InterfaceElem) :
    edited E (interfaceType loc elems) = interfaceType loc (E.elems (edited E elems)) := by
  rw [← editsOfElems_eq]
  rfl

/-- An edited expression starts where it did. -/
@[simp] theorem loc_edited (e : Expr) : (edited E e).loc = e.loc := by
  cases e <;> rfl

end Expr

@[simp] theorem Field.names_edited (f : Field) : (edited E f).names = f.names := by
  cases f
  rfl

@[simp] theorem Signature.edited_mk (params results : List Field) :
    edited E (Signature.mk params results) = ⟨edited E params, edited E results⟩ := by
  rw [← editsOfFields_eq, ← editsOfFields_eq]
  rfl

@[simp] theorem Block.edited_mk (stmts : List Stmt) : edited E (Block.mk loc stmts) = ⟨loc, E.stmts (edited E stmts)⟩ := by
  rw [← editsOfStmts_eq]
  rfl

namespace Stmt

@[simp] theorem edited_assign (op : Operator) (left right : List Expr) :
    edited E (assign loc op left right) = assign loc op (edited E left) (edited E right) := by
  rw [← editsOfExprs_eq, ← editsOfExprs_eq]
  rfl

@[simp] theorem edited_return (values : List Expr) :
    edited E (Stmt.return loc values) = Stmt.return loc (edited E values) := by
  rw [← editsOfExprs_eq]
  rfl

@[simp] theorem edited_if (init : Option Stmt) (cond : Expr) (body : Block) (otherwise : Option Stmt) :
    edited E (Stmt.if loc init cond body otherwise)
      = Stmt.if loc (edited E init) (edited E cond) (edited E body) (edited E otherwise) := by
  rw [← editOfStmt?_eq, ← editOfStmt?_eq]
  rfl

@[simp] theorem edited_switch (init : Option Stmt) (tag : Option Expr) (clauses : List CaseClause) :
    edited E (switch loc init tag clauses) = switch loc (edited E init) (edited E tag) (E.cases (edited E clauses)) := by
  rw [← editOfStmt?_eq, ← editOfExpr?_eq, ← editsOfCases_eq]
  rfl

@[simp] theorem edited_typeSwitch (init : Option Stmt) (guard : Stmt) (clauses : List CaseClause) :
    edited E (typeSwitch loc init guard clauses)
      = typeSwitch loc (edited E init) (edited E guard) (E.cases (edited E clauses)) := by
  rw [← editOfStmt?_eq, ← editsOfCases_eq]
  rfl

@[simp] theorem edited_select (clauses : List CommClause) :
    edited E (select loc clauses) = select loc (E.comms (edited E clauses)) := by
  rw [← editsOfComms_eq]
  rfl

@[simp] theorem edited_for (init : Option Stmt) (cond : Option Expr) (post : Option Stmt) (body : Block) :
    edited E (Stmt.for loc init cond post body)
      = Stmt.for loc (edited E init) (edited E cond) (edited E post) (edited E body) := by
  rw [← editOfStmt?_eq, ← editOfExpr?_eq, ← editOfStmt?_eq]
  rfl

@[simp] theorem edited_range (key value : Option Expr) (define : Bool) (operand : Expr) (body : Block) :
    edited E (range loc key value define operand body)
      = range loc (edited E key) (edited E value) define (edited E operand) (edited E body) := by
  rw [← editOfExpr?_eq, ← editOfExpr?_eq]
  rfl

/-- An edited statement starts where it did. -/
@[simp] theorem loc_edited (s : Stmt) : (edited E s).loc = s.loc := by
  cases s with
  | block body => cases body; rfl
  | _ => rfl

end Stmt

@[simp] theorem CaseClause.edited_mk (list : Option (List Expr)) (body : List Stmt) :
    edited E (CaseClause.mk loc list body) = ⟨loc, edited E list, E.stmts (edited E body)⟩ := by
  rw [← editOfCaseList_eq, ← editsOfStmts_eq]
  rfl

@[simp] theorem CommClause.edited_mk (comm : Option Stmt) (body : List Stmt) :
    edited E (CommClause.mk loc comm body) = ⟨loc, edited E comm, E.stmts (edited E body)⟩ := by
  rw [← editOfStmt?_eq, ← editsOfStmts_eq]
  rfl

@[simp] theorem DeclGroup.edited_mk (keyword : Keyword) (specs : List Spec) (grouped : Bool) :
    edited E (DeclGroup.mk keyword specs grouped) = ⟨keyword, E.specs keyword grouped (edited E specs), grouped⟩ := by
  rw [← editsOfSpecs_eq]
  rfl

@[simp] theorem Spec.edited_value (names : List Name) (type : Option Expr) (values : List Expr) :
    edited E (value loc names type values) = value loc names (edited E type) (edited E values) := by
  rw [← editOfExpr?_eq, ← editsOfExprs_eq]
  rfl

@[simp] theorem FuncDecl.edited_mk (receiver : Option (List Field)) (name : Name) (sig : Signature) (body : Option Block) :
    edited E (FuncDecl.mk receiver name sig body) = ⟨edited E receiver, name, edited E sig, edited E body⟩ := by
  change FuncDecl.mk (receiver.map (editsOfFields E)) _ _ _ = _
  rw [show editsOfFields E = edited E from funext (editsOfFields_eq E)]
  rfl

@[simp] theorem SourceFile.edited_mk (package : Name) (decls : List Decl) :
    edited E (SourceFile.mk loc package decls) = ⟨loc, package, E.decls (edited E decls)⟩ := rfl

/-! ## What the grammar asks of a part -/

namespace Grammar

theorem isTypeName_edited (e : Expr) : isTypeName (edited E e) = isTypeName e := by
  cases e with
  | selector _ operand _ => cases operand <;> rfl
  | _ => rfl

theorem takesBody_edited (level : Int) (e : Expr) : takesBody level (edited E e) = takesBody level e := by
  have hliteral : isLiteralType (edited E e) = isLiteralType e := by
    cases e with
    | selector _ operand _ => cases operand <;> rfl
    | _ => rfl
  rw [takesBody, takesBody, hliteral, isTypeName_edited]

theorem isTypeGuard_edited (e : Expr) : isTypeGuard (edited E e) = isTypeGuard e := by
  cases e with
  | assertion _ _ type => cases type <;> rfl
  | _ => rfl

theorem isTypeSwitchGuard_edited (s : Stmt) : isTypeSwitchGuard (edited E s) = isTypeSwitchGuard s := by
  cases s with
  | expr _ e => exact isTypeGuard_edited E e
  | assign _ op left right =>
    rw [Stmt.edited_assign]
    match left, right with
    | [_], [e] =>
      cases op with
      | define => exact isTypeGuard_edited E e
      | _ => rfl
    | [], _ | _ :: _ :: _, _ | [_], [] | [_], _ :: _ :: _ => cases op <;> rfl
  | _ => rfl

end Grammar

end GoSyntax
