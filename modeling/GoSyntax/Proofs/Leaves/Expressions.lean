import GoSyntax.Grammar.Expression
import GoSyntax.Proofs.Leaves.Types

/-!
# Blocks and expressions gather their leaves

What stands before a suffix has been read when the suffix is, so the parsers of suffixes are given its leaves.
-/

namespace GoSyntax.Grammar

open Gathers

variable {p : Productions}

/-! ## Blocks -/

theorem isAtStatementsEnd_gathers : Gathers [] isAtStatementsEnd := current.step fun _ => .pure (List.nil_sublist _)

theorem reportMissing_gathers (before : Nat) (kind : TokenKind) : Gathers [] (reportMissing before kind) :=
  reports.step fun _ => .ite (reportExpected _) (.pure (List.nil_sublist _))

theorem statements_gathers (hp : p.Gather) : Gathers [] (statements p) := by
  have hresume : ∀ n, Gathers [] (resumeStatements n) := fun n =>
    (reportMissing_gathers n _).step fun _ => (skipTo _).step fun _ => (accept _).step fun _ => .pure (List.nil_sublist _)
  refine .bind (.loop (fun stmts => ?_) #[]) fun _ => .pure (by simp)
  exact isAtStatementsEnd_gathers.step fun _ => .ite (.pure (by simp)) (reports.step fun _ => hp.stmt.bind fun _ =>
    (orM isAtStatementsEnd_gathers (accept _)).step fun _ =>
      .ite (.pure (by simp)) ((hresume _).step fun _ => .pure (by simp)))

theorem block_gathers (hp : p.Gather) : Gathers [] (block p) :=
  (expect _).step fun _ => (statements_gathers hp).bind fun _ => (expect _).step fun _ => .pure (by simp)

/-! ## Suffixes -/

theorem sliceBound_gathers (hp : p.Gather) (level : Int) : Gathers [] (sliceBound p level) :=
  current.step fun _ => .ite (.pure (List.nil_sublist _)) ((hp.expr level).map fun _ => by simp)

theorem sliceFrom_gathers (hp : p.Gather) (level : Int) (operand : Expr) (low : Option Expr) :
    Gathers (leaves operand ++ leaves low) (sliceFrom p level operand low) :=
  consume.step fun _ => (sliceBound_gathers hp level).bind fun _ => (accept _).step fun _ => .ite
    ((sliceBound_gathers hp level).bind fun _ => (expect _).step fun _ => (reportUnless _ _ _).step fun _ =>
      (reportUnless _ _ _).step fun _ => .pure (by simp))
    ((expect _).step fun _ => .pure (by simp))

theorem indexFrom_gathers (hp : p.Gather) (level : Int) (operand low : Expr) :
    Gathers (leaves operand ++ leaves low) (indexFrom p level operand low) :=
  (isAt _).step fun _ => .ite (leaves_some low ▸ sliceFrom_gathers hp level operand (some low))
    ((accept _).step fun _ => .ite (.pure (by simp))
      ((reportExpected _).step fun _ => (skipTo _).step fun _ => (accept _).step fun _ => .pure (by simp)))

theorem indexOrSlice_gathers (hp : p.Gather) (level : Int) (operand : Expr) :
    Gathers (leaves operand) (indexOrSlice p level operand) :=
  consume.step fun _ => (isAt _).step fun _ => .ite ((sliceFrom_gathers hp (level + 1) operand none).weaken (by simp))
    ((hp.expr (level + 1)).bind fun low => indexFrom_gathers hp (level + 1) operand low)

theorem call_gathers (hp : p.Gather) (level : Int) (callee : Expr) : Gathers (leaves callee) (call p level callee) := by
  have hargument : Gathers [] (argument p (level + 1)) :=
    (hp.expr (level + 1)).bind fun _ => (accept _).step fun _ => .pure (by simp)
  refine consume.step fun _ => (members _ hargument).bind fun args => (expect _).step fun _ => .pure ?_
  rw [Expr.leaves_call, leaves_map_of_eq fun arg => (List.append_nil (leaves arg.1)).symm]

theorem composite_gathers (hp : p.Gather) (level : Int) (t : Option Expr) : Gathers (leaves t) (composite p level t) := by
  have helement : Gathers [] (element p (level + 1)) :=
    (hp.elementValue (level + 1)).bind fun _ => (accept _).step fun _ => .ite
      ((hp.elementValue (level + 1)).bind fun _ => .pure (by simp)) (.pure (by simp))
  exact current.step fun _ => (expect _).step fun _ => (members _ helement).bind fun _ => (expect _).step fun _ => .pure (by simp)

theorem assertedType?_gathers (hp : p.Gather) : Gathers [] (assertedType? p) :=
  (accept _).step fun _ => .ite (.pure (List.nil_sublist _)) ((type_gathers hp).map fun _ => by simp)

theorem selectorOrAssertion_gathers (hp : p.Gather) (operand : Expr) :
    Gathers (leaves operand) (selectorOrAssertion p operand) :=
  consume.step fun _ => (accept _).step fun _ => .ite
    ((assertedType?_gathers hp).bind fun _ => (expect _).step fun _ => .pure (by simp))
    (name.bind fun _ => .pure (by simp))

theorem suffixes_gathers (hp : p.Gather) (level : Int) (operand : Expr) :
    Gathers (leaves operand) (suffixes p level operand) := by
  refine .loop (fun operand => current.step fun _ => ?_) operand
  have yield_ : ∀ {f : Parse Expr}, Gathers (leaves operand) f → Gathers (leaves operand) (ForInStep.yield <$> f) :=
    fun h => h.map fun _ => List.Sublist.refl _
  split
  · exact yield_ (selectorOrAssertion_gathers hp operand)
  · exact yield_ (indexOrSlice_gathers hp level operand)
  · exact yield_ (call_gathers hp level operand)
  · exact .ite (yield_ (leaves_some operand ▸ composite_gathers hp level (some operand))) (.pure (List.Sublist.refl _))
  · exact .pure (List.Sublist.refl _)

/-! ## Operands -/

theorem functionOrType_gathers (hp : p.Gather) : Gathers [] (functionOrType p) :=
  consume.step fun _ => (signature_gathers hp).bind fun _ => (isAt _).step fun _ => .ite
    ((block_gathers hp).bind fun _ => .pure (by simp)) (.pure (by simp))

theorem parenExpr_gathers (hp : p.Gather) (level : Int) : Gathers [] (parenExpr p level) :=
  consume.step fun _ => (hp.expr (level + 1)).bind fun _ => (expect _).step fun _ => .pure (by simp)

theorem typeOperand_gathers (hp : p.Gather) : Gathers [] (typeOperand p) := by
  refine (type?_gathers hp true).bind fun t => ?_
  cases t with
  | some t => exact .pure (by simp)
  | none => exact current.step fun _ => (reportHere _).step fun _ => (skipTo _).step fun _ => .pure (List.nil_sublist _)

theorem operand_gathers (hp : p.Gather) (level : Int) : Gathers [] (operand p level) := by
  refine currentAt fun here hhere => ?_
  split
  · next text hkind =>
    rw [hkind] at hhere
    refine consumeAt fun _ => .pure ?_
    rw [Expr.leaves_ident, leafOfName_eq hhere, hkind]
    exact List.Sublist.refl _
  · next value hkind =>
    refine consumeAt fun _ => .pure ?_
    rw [Expr.leaves_literal, hkind]
    exact leafOfLiteral_sublist value
  · exact (parenExpr_gathers hp level).at_ here
  · exact (functionOrType_gathers hp).at_ here
  · exact (typeOperand_gathers hp).at_ here

/-! ## Operators -/

theorem primary_gathers (hp : p.Gather) (level : Int) : Gathers [] (primary p level) :=
  (operand_gathers hp level).bind fun operand => suffixes_gathers hp level operand

theorem prefixed_gathers (hp : p.Gather) (level : Int) (op : Operator) : Gathers [] (prefixed p level op) :=
  consume.step fun _ => (hp.unary level).bind fun _ => .ite (.pure (by simp)) (.pure (by simp))

theorem unary_gathers (hp : p.Gather) (level : Int) : Gathers [] (unary p level) := by
  refine current.step fun here => ?_
  split
  · exact (Gathers.peek 1).step fun _ => .ite
      ((channelType_gathers hp).bind fun t => suffixes_gathers hp level t) (prefixed_gathers hp level _)
  · exact .ite (prefixed_gathers hp level _) (primary_gathers hp level)
  · exact primary_gathers hp level

theorem binaryLevel_gathers (family : Operator.Family) {operand : Parse Expr} (h : Gathers [] operand) :
    Gathers [] (binaryLevel family operand) := by
  refine h.bind fun first => .loop (fun left => current.step fun here => ?_) first
  split
  · exact .ite (consume.step fun _ => h.bind fun _ => .pure (by simp)) (.pure (by simp))
  · exact .pure (by simp)

theorem expr_gathers (hp : p.Gather) (level : Int) : Gathers [] (expr p level) := by
  unfold expr
  induction binaryFamilies with
  | nil => exact unary_gathers hp level
  | cons family families ih => exact binaryLevel_gathers family ih

theorem exprList_gathers (hp : p.Gather) (level : Int) : Gathers [] (exprList p level) := separated (expr_gathers hp level)

theorem elementValue_gathers (hp : p.Gather) (level : Int) : Gathers [] (elementValue p level) :=
  (isAt _).step fun _ => .ite (composite_gathers hp level none) (expr_gathers hp level)

end GoSyntax.Grammar
