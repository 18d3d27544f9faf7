import GoSyntax.Grammar.Control
import GoSyntax.Proofs.TreeTally
import GoSyntax.Tree.Shape

/-!
# What the shape of a tree decides

Two lists have the same shapes if their members have. Whatever a parser asks of a tree that it has read is decided by the shape of the
tree: whether a body may follow, and whether a statement is the guard of a type switch.
-/

namespace GoSyntax

open Grammar

/-! ## Lists -/

/-- Lists with members that agree agree themselves. -/
theorem map_eq_map_of_forall₂ {α β γ : Type} {f : α → γ} {g : β → γ} {as : List α} {xs : List β}
    (h : List.Forall₂ (fun a x => f a = g x) as xs) : as.map f = xs.map g := by
  induction h with
  | nil => rfl
  | cons ha _ ih => rw [List.map_cons, List.map_cons, ha, ih]

/-- The shapes of a list are known from the shapes of its members. -/
theorem shapes_congr {α : Type} {shapes : List α → List α} {shape : α → α} (hshapes : ∀ xs, shapes xs = xs.map shape)
    {as xs : List α} (h : List.Forall₂ (fun a x => shape a = shape x) as xs) : shapes as = shapes xs := by
  rw [hshapes, hshapes, map_eq_map_of_forall₂ h]

theorem shapesOfExprs_eq (es : List Expr) : shapesOfExprs es = es.map Expr.shape := eq_map_of_cons rfl (fun _ _ => rfl) es

theorem shapesOfFields_eq (fs : List Field) : shapesOfFields fs = fs.map Field.shape := eq_map_of_cons rfl (fun _ _ => rfl) fs

theorem shapesOfElems_eq (es : List InterfaceElem) : shapesOfElems es = es.map InterfaceElem.shape :=
  eq_map_of_cons rfl (fun _ _ => rfl) es

theorem shapesOfStmts_eq (ss : List Stmt) : shapesOfStmts ss = ss.map Stmt.shape := eq_map_of_cons rfl (fun _ _ => rfl) ss

theorem shapesOfCases_eq (cs : List CaseClause) : shapesOfCases cs = cs.map CaseClause.shape :=
  eq_map_of_cons rfl (fun _ _ => rfl) cs

theorem shapesOfComms_eq (cs : List CommClause) : shapesOfComms cs = cs.map CommClause.shape :=
  eq_map_of_cons rfl (fun _ _ => rfl) cs

theorem shapesOfSpecs_eq (ss : List Spec) : shapesOfSpecs ss = ss.map Spec.shape := eq_map_of_cons rfl (fun _ _ => rfl) ss

/-! ## Expressions and statements -/

namespace Expr

@[simp] theorem isTypeName_shape (e : Expr) : isTypeName e.shape = isTypeName e := by
  cases e with
  | selector loc operand field => cases operand <;> rfl
  | _ => rfl

theorem takesBody_shape (level : Int) (e : Expr) : takesBody level e.shape = takesBody level e := by
  have hliteral : isLiteralType e.shape = isLiteralType e := by
    cases e with
    | selector loc operand field => cases operand <;> rfl
    | _ => rfl
  rw [takesBody, takesBody, isTypeName_shape, hliteral]

theorem isTypeGuard_shape (e : Expr) : isTypeGuard e.shape = isTypeGuard e := by
  cases e with
  | assertion loc operand type =>
    rw [shape]
    cases type <;> rfl
  | _ => rfl

end Expr

theorem Stmt.isTypeSwitchGuard_shape (s : Stmt) : isTypeSwitchGuard s.shape = isTypeSwitchGuard s := by
  cases s with
  | expr loc e =>
    rw [shape]
    exact e.isTypeGuard_shape
  | assign loc op left right =>
    cases op with
    | define =>
      match left, right with
      | [_], [e] => exact e.isTypeGuard_shape
      | [], _ | _ :: _ :: _, _ | [_], [] | [_], _ :: _ :: _ => rfl
    | _ => rfl
  | _ => rfl

end GoSyntax
