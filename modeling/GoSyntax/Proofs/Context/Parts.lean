import GoSyntax.Grammar.Control
import GoSyntax.Proofs.TreeTally
import GoSyntax.Tree.Move

/-!
# Moving what a parser gives

Whatever a parser gives can be moved, be it a part of a tree, a list of parts, or something without a location. A part is moved by
moving its location and its parts, so there is one equation for each constructor whose parts are lists or may be missing; for the others
it holds by definition. What the grammar asks of a part does not depend on where the part stands.
-/

namespace GoSyntax

/-- Something that a parser gives, and what it is when all locations in it are moved. -/
class Movable (α : Type) where
  moved : (Location → Location) → α → α

export Movable (moved)

instance : Movable Unit := ⟨fun _ a => a⟩
instance : Movable Bool := ⟨fun _ a => a⟩
instance : Movable ChannelDirection := ⟨fun _ a => a⟩
instance : Movable Location := ⟨fun shift l => shift l⟩
instance : Movable Token := ⟨Token.move⟩
instance : Movable Diagnostic := ⟨Diagnostic.move⟩
instance : Movable Name := ⟨Name.move⟩
instance : Movable Literal := ⟨Literal.move⟩
instance : Movable ImportSpec := ⟨ImportSpec.move⟩
instance : Movable Expr := ⟨Expr.move⟩
instance : Movable ArrayLength := ⟨ArrayLength.move⟩
instance : Movable Field := ⟨Field.move⟩
instance : Movable Signature := ⟨Signature.move⟩
instance : Movable InterfaceElem := ⟨InterfaceElem.move⟩
instance : Movable Block := ⟨Block.move⟩
instance : Movable Stmt := ⟨Stmt.move⟩
instance : Movable CaseClause := ⟨CaseClause.move⟩
instance : Movable CommClause := ⟨CommClause.move⟩
instance : Movable DeclGroup := ⟨DeclGroup.move⟩
instance : Movable Spec := ⟨Spec.move⟩
instance : Movable FuncDecl := ⟨FuncDecl.move⟩
instance : Movable Decl := ⟨Decl.move⟩
instance : Movable SourceFile := ⟨SourceFile.move⟩

variable {α β : Type} [Movable α] [Movable β] (shift : Location → Location)

instance : Movable (List α) := ⟨fun shift l => l.map (moved shift)⟩
instance : Movable (Array α) := ⟨fun shift l => l.map (moved shift)⟩
instance : Movable (Option α) := ⟨fun shift a => a.map (moved shift)⟩
instance : Movable (α × β) := ⟨fun shift a => (moved shift a.1, moved shift a.2)⟩

instance : Movable (ForInStep α) := ⟨fun
  | shift, .yield a => .yield (moved shift a)
  | shift, .done a => .done (moved shift a)⟩

instance : Movable Grammar.Simple := ⟨fun
  | shift, .stmt s => .stmt (moved shift s)
  | shift, .range vars define operand => .range (moved shift vars) define (moved shift operand)⟩

instance : Movable Grammar.LoopHeader := ⟨fun
  | shift, .clauses init cond post => .clauses (moved shift init) (moved shift cond) (moved shift post)
  | shift, .range vars define operand => .range (moved shift vars) define (moved shift operand)⟩

/-! ## Lists and the like -/

@[simp] theorem moved_bool (b : Bool) : moved shift b = b := rfl
@[simp] theorem moved_direction (d : ChannelDirection) : moved shift d = d := rfl
@[simp] theorem moved_nil : moved shift ([] : List α) = [] := rfl
@[simp] theorem moved_cons (a : α) (l : List α) : moved shift (a :: l) = moved shift a :: moved shift l := rfl
@[simp] theorem length_moved (l : List α) : (moved shift l).length = l.length := List.length_map _
@[simp] theorem isEmpty_moved (l : List α) : (moved shift l).isEmpty = l.isEmpty := List.isEmpty_map
@[simp] theorem getElem?_moved (l : List α) (i : Nat) : (moved shift l)[i]? = moved shift l[i]? := List.getElem?_map
@[simp] theorem head?_moved (l : List α) : (moved shift l).head? = moved shift l.head? := List.head?_map
@[simp] theorem moved_append (l l' : List α) : moved shift (l ++ l') = moved shift l ++ moved shift l' := List.map_append
@[simp] theorem moved_empty : moved shift (#[] : Array α) = #[] := Array.map_empty
@[simp] theorem toList_moved (l : Array α) : (moved shift l).toList = moved shift l.toList := Array.toList_map
@[simp] theorem moved_push (l : Array α) (a : α) : moved shift (l.push a) = (moved shift l).push (moved shift a) := Array.map_push
@[simp] theorem isEmpty_moved_array (l : Array α) : (moved shift l).isEmpty = l.isEmpty := by
  change (l.map (moved shift)).isEmpty = l.isEmpty
  rw [Array.isEmpty, Array.isEmpty, Array.size_map]
@[simp] theorem moved_none : moved shift (none : Option α) = none := rfl
@[simp] theorem moved_some (a : α) : moved shift (some a) = some (moved shift a) := rfl
@[simp] theorem isSome_moved (a : Option α) : (moved shift a).isSome = a.isSome := Option.isSome_map
@[simp] theorem moved_pair (a : α) (b : β) : moved shift (a, b) = (moved shift a, moved shift b) := rfl
@[simp] theorem moved_yield (a : α) : moved shift (ForInStep.yield a) = .yield (moved shift a) := rfl
@[simp] theorem moved_done (a : α) : moved shift (ForInStep.done a) = .done (moved shift a) := rfl

/-- A list is moved by a function that moves each element. -/
theorem moved_map {r : α → β} (h : ∀ a, r (moved shift a) = moved shift (r a)) (l : List α) :
    (moved shift l).map r = moved shift (l.map r) := by
  change (l.map (moved shift)).map r = (l.map r).map (moved shift)
  rw [List.map_map, List.map_map]
  exact List.map_congr_left fun a _ => h a

@[simp] theorem Token.kind_moved (t : Token) : (moved shift t).kind = t.kind := rfl
@[simp] theorem Token.loc_moved (t : Token) : (moved shift t).loc = moved shift t.loc := rfl

/-! ## Parts of trees -/

theorem movesOfExprs_eq (es : List Expr) : movesOfExprs shift es = moved shift es := eq_map_of_cons rfl (fun _ _ => rfl) es
theorem movesOfFields_eq (fs : List Field) : movesOfFields shift fs = moved shift fs := eq_map_of_cons rfl (fun _ _ => rfl) fs
theorem movesOfElems_eq (es : List InterfaceElem) : movesOfElems shift es = moved shift es := eq_map_of_cons rfl (fun _ _ => rfl) es
theorem movesOfStmts_eq (ss : List Stmt) : movesOfStmts shift ss = moved shift ss := eq_map_of_cons rfl (fun _ _ => rfl) ss
theorem movesOfCases_eq (cs : List CaseClause) : movesOfCases shift cs = moved shift cs := eq_map_of_cons rfl (fun _ _ => rfl) cs
theorem movesOfComms_eq (cs : List CommClause) : movesOfComms shift cs = moved shift cs := eq_map_of_cons rfl (fun _ _ => rfl) cs
theorem movesOfSpecs_eq (ss : List Spec) : movesOfSpecs shift ss = moved shift ss := eq_map_of_cons rfl (fun _ _ => rfl) ss

theorem moveOfExpr?_eq (e : Option Expr) : moveOfExpr? shift e = moved shift e := by cases e <;> rfl
theorem moveOfStmt?_eq (s : Option Stmt) : moveOfStmt? shift s = moved shift s := by cases s <;> rfl
theorem moveOfCaseList_eq (es : Option (List Expr)) : moveOfCaseList shift es = moved shift es := by
  cases es with
  | none => rfl
  | some es => exact congrArg some (movesOfExprs_eq shift es)

variable (loc : Location)

namespace Expr

@[simp] theorem moved_composite (type : Option Expr) (elements : List Expr) :
    moved shift (composite loc type elements) = composite (moved shift loc) (moved shift type) (moved shift elements) := by
  rw [← moveOfExpr?_eq, ← movesOfExprs_eq]
  rfl

@[simp] theorem moved_assertion (operand : Expr) (type : Option Expr) :
    moved shift (assertion loc operand type) = assertion (moved shift loc) (moved shift operand) (moved shift type) := by
  rw [← moveOfExpr?_eq]
  rfl

@[simp] theorem moved_slice (operand : Expr) (low high max : Option Expr) (three : Bool) :
    moved shift (slice loc operand low high max three)
      = slice (moved shift loc) (moved shift operand) (moved shift low) (moved shift high) (moved shift max) three := by
  rw [← moveOfExpr?_eq, ← moveOfExpr?_eq, ← moveOfExpr?_eq]
  rfl

@[simp] theorem moved_call (callee : Expr) (args : List Expr) (spread : Bool) :
    moved shift (call loc callee args spread) = call (moved shift loc) (moved shift callee) (moved shift args) spread := by
  rw [← movesOfExprs_eq]
  rfl

@[simp] theorem moved_structType (fields : List Field) :
    moved shift (structType loc fields) = structType (moved shift loc) (moved shift fields) := by
  rw [← movesOfFields_eq]
  rfl

@[simp] theorem moved_interfaceType (elems : List InterfaceElem) :
    moved shift (interfaceType loc elems) = interfaceType (moved shift loc) (moved shift elems) := by
  rw [← movesOfElems_eq]
  rfl

/-- A moved expression starts where the location of the expression is moved shift. -/
@[simp] theorem loc_moved (e : Expr) : (moved shift e).loc = moved shift e.loc := by
  cases e <;> rfl

end Expr

@[simp] theorem Field.names_moved (f : Field) : (moved shift f).names = moved shift f.names := by
  cases f
  rfl

@[simp] theorem Signature.moved_mk (params results : List Field) :
    moved shift (Signature.mk params results) = ⟨moved shift params, moved shift results⟩ := by
  rw [← movesOfFields_eq, ← movesOfFields_eq]
  rfl

@[simp] theorem Block.moved_mk (stmts : List Stmt) : moved shift (Block.mk loc stmts) = ⟨moved shift loc, moved shift stmts⟩ := by
  rw [← movesOfStmts_eq]
  rfl

namespace Stmt

@[simp] theorem moved_assign (op : Operator) (left right : List Expr) :
    moved shift (assign loc op left right) = assign (moved shift loc) op (moved shift left) (moved shift right) := by
  rw [← movesOfExprs_eq, ← movesOfExprs_eq]
  rfl

@[simp] theorem moved_return (values : List Expr) :
    moved shift (Stmt.return loc values) = Stmt.return (moved shift loc) (moved shift values) := by
  rw [← movesOfExprs_eq]
  rfl

@[simp] theorem moved_if (init : Option Stmt) (cond : Expr) (body : Block) (otherwise : Option Stmt) :
    moved shift (Stmt.if loc init cond body otherwise)
      = Stmt.if (moved shift loc) (moved shift init) (moved shift cond) (moved shift body) (moved shift otherwise) := by
  rw [← moveOfStmt?_eq, ← moveOfStmt?_eq]
  rfl

@[simp] theorem moved_switch (init : Option Stmt) (tag : Option Expr) (clauses : List CaseClause) :
    moved shift (switch loc init tag clauses) = switch (moved shift loc) (moved shift init) (moved shift tag) (moved shift clauses) := by
  rw [← moveOfStmt?_eq, ← moveOfExpr?_eq, ← movesOfCases_eq]
  rfl

@[simp] theorem moved_typeSwitch (init : Option Stmt) (guard : Stmt) (clauses : List CaseClause) :
    moved shift (typeSwitch loc init guard clauses)
      = typeSwitch (moved shift loc) (moved shift init) (moved shift guard) (moved shift clauses) := by
  rw [← moveOfStmt?_eq, ← movesOfCases_eq]
  rfl

@[simp] theorem moved_select (clauses : List CommClause) :
    moved shift (select loc clauses) = select (moved shift loc) (moved shift clauses) := by
  rw [← movesOfComms_eq]
  rfl

@[simp] theorem moved_for (init : Option Stmt) (cond : Option Expr) (post : Option Stmt) (body : Block) :
    moved shift (Stmt.for loc init cond post body)
      = Stmt.for (moved shift loc) (moved shift init) (moved shift cond) (moved shift post) (moved shift body) := by
  rw [← moveOfStmt?_eq, ← moveOfExpr?_eq, ← moveOfStmt?_eq]
  rfl

@[simp] theorem moved_range (key value : Option Expr) (define : Bool) (operand : Expr) (body : Block) :
    moved shift (range loc key value define operand body)
      = range (moved shift loc) (moved shift key) (moved shift value) define (moved shift operand) (moved shift body) := by
  rw [← moveOfExpr?_eq, ← moveOfExpr?_eq]
  rfl

/-- A moved statement starts where the location of the statement is moved shift. -/
@[simp] theorem loc_moved (s : Stmt) : (moved shift s).loc = moved shift s.loc := by
  cases s with
  | block body => cases body; rfl
  | _ => rfl

end Stmt

@[simp] theorem CaseClause.moved_mk (list : Option (List Expr)) (body : List Stmt) :
    moved shift (CaseClause.mk loc list body) = ⟨moved shift loc, moved shift list, moved shift body⟩ := by
  rw [← moveOfCaseList_eq, ← movesOfStmts_eq]
  rfl

@[simp] theorem CommClause.moved_mk (comm : Option Stmt) (body : List Stmt) :
    moved shift (CommClause.mk loc comm body) = ⟨moved shift loc, moved shift comm, moved shift body⟩ := by
  rw [← moveOfStmt?_eq, ← movesOfStmts_eq]
  rfl

@[simp] theorem DeclGroup.moved_mk (keyword : Keyword) (specs : List Spec) (grouped : Bool) :
    moved shift (DeclGroup.mk keyword specs grouped) = ⟨keyword, moved shift specs, grouped⟩ := by
  rw [← movesOfSpecs_eq]
  rfl

@[simp] theorem Spec.moved_value (names : List Name) (type : Option Expr) (values : List Expr) :
    moved shift (value loc names type values) = value (moved shift loc) (moved shift names) (moved shift type) (moved shift values) := by
  rw [← moveOfExpr?_eq, ← movesOfExprs_eq]
  rfl

@[simp] theorem FuncDecl.moved_mk (receiver : Option (List Field)) (name : Name) (sig : Signature) (body : Option Block) :
    moved shift (FuncDecl.mk receiver name sig body) = ⟨moved shift receiver, moved shift name, moved shift sig, moved shift body⟩ := by
  change FuncDecl.mk (receiver.map (movesOfFields shift)) _ _ _ = _
  rw [show movesOfFields shift = moved shift from funext (movesOfFields_eq shift)]
  rfl

@[simp] theorem SourceFile.moved_mk (package : Name) (decls : List Decl) :
    moved shift (SourceFile.mk loc package decls) = ⟨moved shift loc, moved shift package, moved shift decls⟩ := rfl

/-! ## What the grammar asks of a part -/

namespace Grammar

theorem describe_moved (e : Expr) : describe (moved shift e) = describe e := by
  cases e <;> rfl

theorem isTypeName_moved (e : Expr) : isTypeName (moved shift e) = isTypeName e := by
  cases e with
  | selector _ operand _ => cases operand <;> rfl
  | _ => rfl

theorem takesBody_moved (level : Int) (e : Expr) : takesBody level (moved shift e) = takesBody level e := by
  have hliteral : isLiteralType (moved shift e) = isLiteralType e := by
    cases e with
    | selector _ operand _ => cases operand <;> rfl
    | _ => rfl
  rw [takesBody, takesBody, hliteral, isTypeName_moved]

theorem isTypeGuard_moved (e : Expr) : isTypeGuard (moved shift e) = isTypeGuard e := by
  cases e with
  | assertion _ _ type => cases type <;> rfl
  | _ => rfl

theorem isTypeSwitchGuard_moved (s : Stmt) : isTypeSwitchGuard (moved shift s) = isTypeSwitchGuard s := by
  cases s with
  | expr _ e => exact isTypeGuard_moved shift e
  | assign _ op left right =>
    rw [Stmt.moved_assign]
    match left, right with
    | [_], [e] =>
      cases op with
      | define => exact isTypeGuard_moved shift e
      | _ => rfl
    | [], _ | _ :: _ :: _, _ | [_], [] | [_], _ :: _ :: _ => cases op <;> rfl
  | _ => rfl

end Grammar

end GoSyntax
