import GoSyntax.Grammar.Expression
import GoSyntax.Proofs.Lines.Types

/-!
# Blocks and expressions trace their source

An expression with a suffix or an operator stands where its first operand does, which has been read by then: so the parsers of suffixes are
given the places of what stands before them, and what they put together starts at the first of these.
-/

namespace GoSyntax.Grammar

open Traces

variable {p : Productions} {given : List Location}

/-! ## Blocks -/

theorem isAtStatementsEnd_traces : Traces given isAtStatementsEnd := current.among.step fun _ => .pure (by simp)

theorem reportMissing_traces (before : Nat) (kind : TokenKind) : Traces given (reportMissing before kind) :=
  reports.step fun _ => .ite (reportExpected _) (.pure (by simp))

theorem statements_traces (hp : p.Trace) : Traces [] (statements p) := by
  have hresume : ∀ n (given : List Location), Traces given (resumeStatements n) := by
    intro n given
    exact (reportMissing_traces n _).step fun _ => (skipTo _).step fun _ => (accept _).step fun _ => .pure (by simp)
  refine .bind (.loop (fun stmts => ?_) #[]) fun _ => .pure (by simp)
  refine isAtStatementsEnd_traces.step fun _ => .ite (.pure (by simp)) (reports.step fun n => hp.stmt.bind fun stmt => ?_)
  refine (orM isAtStatementsEnd_traces (accept _)).step fun _ => .ite (.pure (by simp)) ?_
  exact (hresume n _).step fun _ => .pure (by simp)

theorem block_traces (hp : p.Trace) : Traces [] (block p) :=
  (expect _).bind fun loc => (statements_traces hp).bind fun _ => (expect _).among.step fun _ => .pure (by simp)

/-! ## Suffixes -/

theorem sliceBound_traces (hp : p.Trace) (level : Int) : Traces [] (sliceBound p level) :=
  current.step fun _ => .ite (.pure (by simp)) ((hp.expr level).map fun _ => by simp)

theorem sliceFrom_traces (hp : p.Trace) (level : Int) (operand : Expr) (low : Option Expr) :
    Traces (places operand ++ places low) (sliceFrom p level operand low) := by
  refine consume.among.step fun _ => (sliceBound_traces hp level).bind fun high => (accept _).step fun _ => .ite ?_ ?_
  · refine (sliceBound_traces hp level).bind fun max => (expect _).among.step fun _ => ?_
    have hloc : operand.loc ∈ places operand ++ places low ++ places high ++ places max := by simp
    exact (reportUnless _ _ hloc).step fun _ => (reportUnless _ _ hloc).step fun _ => .pure (by simp)
  · exact (expect _).among.step fun _ => .pure (by simp)

theorem indexFrom_traces (hp : p.Trace) (level : Int) (operand low : Expr) :
    Traces (places operand ++ places low) (indexFrom p level operand low) := by
  refine (isAt _).step fun _ => .ite ?_ ((accept _).step fun _ => .ite (.pure (by simp)) ?_)
  · exact places_some low ▸ sliceFrom_traces hp level operand (some low)
  · exact (reportExpected _).step fun _ => (skipTo _).step fun _ => (accept _).step fun _ => .pure (by simp)

theorem indexOrSlice_traces (hp : p.Trace) (level : Int) (operand : Expr) :
    Traces (places operand) (indexOrSlice p level operand) := by
  refine consume.among.step fun _ => (isAt _).step fun _ => .ite ?_ ?_
  · exact (sliceFrom_traces hp (level + 1) operand none).weaken (by simp)
  · exact (hp.expr (level + 1)).bind fun low => indexFrom_traces hp (level + 1) operand low

theorem call_traces (hp : p.Trace) (level : Int) (callee : Expr) : Traces (places callee) (call p level callee) := by
  have hargument : Traces [] (argument p (level + 1)) :=
    (hp.expr (level + 1)).bind fun _ => (accept _).step fun _ => .pure (by simp)
  refine consume.among.step fun _ => (members _ hargument).bind fun args => (expect _).among.step fun _ => .pure ?_
  have hargs : Along (places (args.map Prod.fst)) (places args) := by
    refine along_map (fun arg => ?_) args
    obtain ⟨e, spread⟩ := arg
    simp
  simpa using hargs.appendLeft (places callee)

theorem composite_traces (hp : p.Trace) (level : Int) (t : Option Expr) : Traces (places t) (composite p level t) := by
  have helement : Traces [] (element p (level + 1)) := by
    refine (hp.elementValue (level + 1)).bind fun key => (accept _).step fun _ => .ite ?_ (.pure (by simp))
    exact (hp.elementValue (level + 1)).bind fun _ => .pure (by simp)
  cases t with
  | some t =>
    refine current.among.step fun here => (expect _).among.step fun _ => (members _ helement).bind fun _ => ?_
    exact (expect _).among.step fun _ => .pure (by simp)
  | none =>
    refine current.bind fun here => (expect _).among.step fun _ => (members _ helement).bind fun _ => ?_
    exact (expect _).among.step fun _ => .pure (by simp)

theorem assertedType?_traces (hp : p.Trace) : Traces [] (assertedType? p) :=
  (accept _).step fun _ => .ite (.pure (by simp)) ((type_traces hp).map fun _ => by simp)

theorem selectorOrAssertion_traces (hp : p.Trace) (operand : Expr) :
    Traces (places operand) (selectorOrAssertion p operand) := by
  refine consume.among.step fun _ => (accept _).step fun _ => .ite ?_ ?_
  · exact (assertedType?_traces hp).bind fun _ => (expect _).among.step fun _ => .pure (by simp)
  · exact name.bind fun _ => .pure (by simp)

theorem suffixes_traces (hp : p.Trace) (level : Int) (operand : Expr) :
    Traces (places operand) (suffixes p level operand) := by
  refine .loop (fun operand => current.among.step fun _ => ?_) operand
  have yield_ : ∀ {f : Parse Expr}, Traces (places operand) f → Traces (places operand) (ForInStep.yield <$> f) :=
    fun h => h.map fun _ => .refl _
  split
  · exact yield_ (selectorOrAssertion_traces hp operand)
  · exact yield_ (indexOrSlice_traces hp level operand)
  · exact yield_ (call_traces hp level operand)
  · exact .ite (yield_ (places_some operand ▸ composite_traces hp level (some operand))) (.pure (.refl _))
  · exact .pure (.refl _)

/-! ## Operands -/

theorem functionOrType_traces (hp : p.Trace) : Traces [] (functionOrType p) := by
  refine consume.bind fun here => (signature_traces hp).bind fun _ => (isAt _).step fun _ => .ite ?_ (.pure (by simp))
  exact (block_traces hp).bind fun _ => .pure (by simp)

theorem parenExpr_traces (hp : p.Trace) (level : Int) : Traces [] (parenExpr p level) :=
  consume.bind fun here => (hp.expr (level + 1)).bind fun _ => (expect _).among.step fun _ => .pure (by simp)

theorem typeOperand_traces (hp : p.Trace) : Traces [] (typeOperand p) := by
  refine (type?_traces hp true).bind fun t => ?_
  cases t with
  | some t => exact .pure (by simp)
  | none => exact current.bind fun here => (reportHere _).step fun _ => (skipTo _).step fun _ => .pure (by simp)

theorem operand_traces (hp : p.Trace) (level : Int) : Traces [] (operand p level) := by
  refine current.bind fun here => ?_
  split
  · exact consume.among.step fun _ => .pure (by simp)
  · exact consume.among.step fun _ => .pure (by simp)
  · exact (parenExpr_traces hp level).among
  · exact (functionOrType_traces hp).among
  · exact (typeOperand_traces hp).among

/-! ## Operators -/

theorem primary_traces (hp : p.Trace) (level : Int) : Traces [] (primary p level) :=
  (operand_traces hp level).bind fun operand => suffixes_traces hp level operand

theorem prefixed_traces (hp : p.Trace) (level : Int) (op : Operator) : Traces [] (prefixed p level op) :=
  consume.bind fun here => (hp.unary level).bind fun _ => .ite (.pure (by simp)) (.pure (by simp))

theorem unary_traces (hp : p.Trace) (level : Int) : Traces [] (unary p level) := by
  refine current.step fun here => ?_
  split
  · refine ahead 1 fun _ => .ite ?_ (prefixed_traces hp level _)
    exact (channelType_traces hp).bind fun t => suffixes_traces hp level t
  · exact .ite (prefixed_traces hp level _) (primary_traces hp level)
  · exact primary_traces hp level

theorem binaryLevel_traces (family : Operator.Family) {operand : Parse Expr} (h : Traces [] operand) :
    Traces [] (binaryLevel family operand) := by
  refine h.bind fun first => .loop (fun left => current.among.step fun here => ?_) first
  split
  · exact .ite (consume.among.step fun _ => h.bind fun _ => .pure (by simp)) (.pure (by simp))
  · exact .pure (by simp)

theorem expr_traces (hp : p.Trace) (level : Int) : Traces [] (expr p level) := by
  unfold expr
  induction binaryFamilies with
  | nil => exact unary_traces hp level
  | cons family families ih => exact binaryLevel_traces family ih

theorem exprList_traces (hp : p.Trace) (level : Int) : Traces [] (exprList p level) := separated (expr_traces hp level)

theorem elementValue_traces (hp : p.Trace) (level : Int) : Traces [] (elementValue p level) :=
  (isAt _).step fun _ => .ite (composite_traces hp level none) (expr_traces hp level)

end GoSyntax.Grammar
