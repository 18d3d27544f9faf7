import GoSyntax.Proofs.Context.Types

/-!
# Blocks and expressions are pursued

What stands before a suffix has been read when the suffix is, so the parsers of suffixes are given it in one run and the same moved in the
other.
-/

namespace GoSyntax.Grammar

open FollowsAt

variable {B : Pursuit} {p q : Productions}

/-! ## Blocks -/

theorem isAtStatementsEnd_follows : Follows B isAtStatementsEnd isAtStatementsEnd := current.bind fun _ => .pure rfl

theorem statementPass_follows (h : p.Pursued B q) (stmts : Array Stmt) :
    Follows B (statementPass p stmts) (statementPass q (moved B.shift stmts)) := by
  have hresume : ∀ n n', B.counts n n' → Follows B (resumeStatements n) (resumeStatements n') := fun n n' hn =>
    (FollowsAt.reportMissing hn _).bind fun _ => (skipTo _).bind fun _ => (accept _).bind fun _ => .pure rfl
  refine isAtStatementsEnd_follows.bind fun _ => .ite (.pure rfl) (.reports fun n n' hn => h.stmt.bind fun s => ?_)
  exact (orM isAtStatementsEnd_follows (accept _)).bind fun _ =>
    .ite (.pure (by simp)) ((hresume n n' hn).bind fun _ => .pure (by simp))

theorem statements_follows (h : p.Pursued B q) : Follows B (statements p) (statements q) :=
  (loop h.paced.statements (by simp) (statementPass_follows h)).bind fun _ => .pure (by simp)

theorem block_follows (h : p.Pursued B q) : Follows B (block p) (block q) :=
  (expect _).bind fun _ => (statements_follows h).bind fun _ => (expect _).bind fun _ => .pure (by simp)

/-! ## Suffixes -/

theorem sliceBound_follows (h : p.Pursued B q) (level : Int) : Follows B (sliceBound p level) (sliceBound q level) :=
  current.bind fun _ => .ite (.pure rfl) ((h.expr level).map fun _ => rfl)

theorem requireBound_follows (bound : Option Expr) (reason : String) (loc : Location) :
    Follows B (requireBound bound reason loc) (requireBound (moved B.shift bound) reason (moved B.shift loc)) := by
  rw [requireBound, requireBound, isSome_moved]
  exact reportUnless _ _ _

theorem sliceFrom_follows (h : p.Pursued B q) (level : Int) (operand : Expr) (low : Option Expr) :
    Follows B (sliceFrom p level operand low) (sliceFrom q level (moved B.shift operand) (moved B.shift low)) := by
  rw [sliceFrom, sliceFrom, Expr.loc_moved]
  exact consume.bind fun _ => (sliceBound_follows h level).bind fun high => (accept _).bind fun _ => .ite
    ((sliceBound_follows h level).bind fun max => (expect _).bind fun _ => (requireBound_follows high _ _).bind fun _ =>
      (requireBound_follows max _ _).bind fun _ => .pure (by simp))
    ((expect _).bind fun _ => .pure (by simp))

theorem indexFrom_follows (h : p.Pursued B q) (level : Int) (operand low : Expr) :
    Follows B (indexFrom p level operand low) (indexFrom q level (moved B.shift operand) (moved B.shift low)) := by
  rw [indexFrom, indexFrom, Expr.loc_moved]
  exact (isAt _).bind fun _ => .ite (sliceFrom_follows h level operand (some low)) ((accept _).bind fun _ => .ite (.pure rfl)
    ((reportExpected _).bind fun _ => (skipTo _).bind fun _ => (accept _).bind fun _ => .pure (by simp)))

theorem indexOrSlice_follows (h : p.Pursued B q) (level : Int) (operand : Expr) :
    Follows B (indexOrSlice p level operand) (indexOrSlice q level (moved B.shift operand)) :=
  consume.bind fun _ => (isAt _).bind fun _ => .ite (sliceFrom_follows h (level + 1) operand none)
    ((h.expr (level + 1)).bind fun low => indexFrom_follows h (level + 1) operand low)

theorem argument_follows (h : p.Pursued B q) (level : Int) : Follows B (argument p level) (argument q level) :=
  (h.expr level).bind fun _ => (accept _).bind fun _ => .pure rfl

theorem call_follows (h : p.Pursued B q) (level : Int) (callee : Expr) :
    Follows B (call p level callee) (call q level (moved B.shift callee)) := by
  refine consume.bind fun _ => (members _ (h.paced.arguments (level + 1)) (argument_follows h (level + 1))).bind fun args =>
    (expect _).bind fun _ => .pure ?_
  have hspread : (moved B.shift args).any Prod.snd = args.any Prod.snd := List.any_map
  have hargs : (moved B.shift args).map Prod.fst = moved B.shift (args.map Prod.fst) := by
    rw [moved_map]
    exact fun _ => rfl
  rw [Expr.loc_moved, Expr.moved_call, hspread, hargs]

theorem element_follows (h : p.Pursued B q) (level : Int) : Follows B (element p level) (element q level) :=
  (h.elementValue level).bind fun _ => (accept _).bind fun _ => .ite
    ((h.elementValue level).bind fun _ => .pure (by rw [Expr.loc_moved]; rfl)) (.pure rfl)

theorem composite_follows (h : p.Pursued B q) (level : Int) (t : Option Expr) :
    Follows B (composite p level t) (composite q level (moved B.shift t)) := by
  refine current.bind fun here => (expect _).bind fun _ =>
    (members _ (h.paced.elements (level + 1)) (element_follows h (level + 1))).bind fun list => (expect _).bind fun _ => .pure ?_
  cases t <;> simp

theorem assertedType?_follows (h : p.Pursued B q) : Follows B (assertedType? p) (assertedType? q) :=
  (accept _).bind fun _ => .ite (.pure rfl) ((type_follows h).map fun _ => rfl)

theorem selectorOrAssertion_follows (h : p.Pursued B q) (operand : Expr) :
    Follows B (selectorOrAssertion p operand) (selectorOrAssertion q (moved B.shift operand)) := by
  rw [selectorOrAssertion, selectorOrAssertion, Expr.loc_moved]
  exact consume.bind fun _ => (accept _).bind fun _ => .ite
    ((assertedType?_follows h).bind fun _ => (expect _).bind fun _ => .pure (by simp))
    (name.bind fun _ => .pure rfl)

theorem suffix_follows (h : p.Pursued B q) (level : Int) (operand : Expr) :
    Follows B (suffix p level operand) (suffix q level (moved B.shift operand)) := by
  refine current.bind fun here => ?_
  obtain ⟨kind, loc⟩ := here
  dsimp only [Token.kind_moved]
  split
  · exact (selectorOrAssertion_follows h operand).map fun _ => rfl
  · exact (indexOrSlice_follows h level operand).map fun _ => rfl
  · exact (call_follows h level operand).map fun _ => rfl
  · rw [takesBody_moved]
    exact .ite ((composite_follows h level (some operand)).map fun _ => rfl) (.pure rfl)
  · exact .pure rfl

theorem suffixes_follows (h : p.Pursued B q) (level : Int) (operand : Expr) :
    Follows B (suffixes p level operand) (suffixes q level (moved B.shift operand)) :=
  loop (h.paced.suffixes level) (Eq.refl (moved B.shift operand)) (suffix_follows h level)

/-! ## Operands -/

theorem functionOrType_follows (h : p.Pursued B q) : Follows B (functionOrType p) (functionOrType q) :=
  consume.bind fun _ => (signature_follows h).bind fun _ => (isAt _).bind fun _ => .ite
    ((block_follows h).bind fun _ => .pure rfl) (.pure rfl)

theorem parenExpr_follows (h : p.Pursued B q) (level : Int) : Follows B (parenExpr p level) (parenExpr q level) :=
  consume.bind fun _ => (h.expr (level + 1)).bind fun _ => (expect _).bind fun _ => .pure rfl

theorem typeOperand_follows (h : p.Pursued B q) : Follows B (typeOperand p) (typeOperand q) := by
  refine (type?_follows h true).bind fun t => ?_
  cases t with
  | some t => exact .pure rfl
  | none => exact current.bind fun _ => (reportHere _).bind fun _ => (skipTo _).bind fun _ => .pure rfl

theorem operand_follows (h : p.Pursued B q) (level : Int) : Follows B (operand p level) (operand q level) := by
  refine current.bind fun here => ?_
  obtain ⟨kind, loc⟩ := here
  dsimp only [Token.kind_moved]
  split
  · exact consume.bind fun _ => .pure rfl
  · exact consume.bind fun _ => .pure rfl
  · exact parenExpr_follows h level
  · exact functionOrType_follows h
  · exact typeOperand_follows h

/-! ## Operators -/

theorem primary_follows (h : p.Pursued B q) (level : Int) : Follows B (primary p level) (primary q level) :=
  (operand_follows h level).bind fun operand => suffixes_follows h level operand

theorem prefixed_follows (h : p.Pursued B q) (level : Int) (op : Operator) : Follows B (prefixed p level op) (prefixed q level op) :=
  consume.bind fun _ => (h.unary level).bind fun _ => .ite (.pure rfl) (.pure rfl)

theorem unary_follows (h : p.Pursued B q) (level : Int) : Follows B (unary p level) (unary q level) := by
  refine .currentAt fun here _ => ?_
  obtain ⟨kind, loc⟩ := here
  dsimp only [Token.kind_moved]
  split
  · exact (second (by rintro _ rfl; rfl)).bind fun _ => .ite
      ((channelType_follows h).bind fun t => suffixes_follows h level t) (prefixed_follows h level _)
  · exact .ite ((prefixed_follows h level _).weaken fun _ _ => trivial) ((primary_follows h level).weaken fun _ _ => trivial)
  · exact (primary_follows h level).weaken fun _ _ => trivial

theorem binaryPass_follows (family : Operator.Family) {operand operand' : Parse Expr} (h : Follows B operand operand') (left : Expr) :
    Follows B (binaryPass family operand left) (binaryPass family operand' (moved B.shift left)) := by
  refine current.bind fun here => ?_
  obtain ⟨kind, loc⟩ := here
  dsimp only [Token.kind_moved]
  split
  · refine .ite (consume.bind fun _ => h.bind fun _ => .pure ?_) (.pure rfl)
    rw [Expr.loc_moved]
    rfl
  · exact .pure rfl

theorem binaryLevels_follows (h : p.Pursued B q) (level : Int) (families : List Operator.Family) :
    Follows B (families.foldr binaryLevel (unary p level)) (families.foldr binaryLevel (unary q level)) := by
  induction families with
  | nil => exact unary_follows h level
  | cons family families ih =>
    exact ih.bind fun first =>
      loop (h.paced.operands level families family) (Eq.refl (moved B.shift first)) (binaryPass_follows family ih)

theorem expr_follows (h : p.Pursued B q) (level : Int) : Follows B (expr p level) (expr q level) :=
  binaryLevels_follows h level binaryFamilies

theorem exprList_follows (h : p.Pursued B q) (level : Int) : Follows B (exprList p level) (exprList q level) :=
  separated (h.paced.exprs level) (expr_follows h level)

theorem elementValue_follows (h : p.Pursued B q) (level : Int) : Follows B (elementValue p level) (elementValue q level) :=
  (isAt _).bind fun _ => .ite (composite_follows h level none) (expr_follows h level)

end GoSyntax.Grammar
