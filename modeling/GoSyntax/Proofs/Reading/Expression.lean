import GoSyntax.Proofs.Reading.Suffix

/-!
# Reading expressions

From the productions on fewer than `n` tokens come the expressions on fewer than `n + 1`: an operand takes a token before it enters a
production again.
-/

namespace GoSyntax.Grammar

open Parse

variable {n m : Nat} {p q : Productions} {start : Cursor} {t : Tally} {φ : Token → Prop}

/-! ## Operands -/

theorem functionOrType_takes (h : Agrees n p q) :
    Takes n (·.kind = Keyword.func) Expr.tally (functionOrType p) (functionOrType q) := by
  intro m hm start t
  refine .consumeKind (fun _ => id) fun here => (signature_reads h).bind hm fun sig => .ifAt ?_ (.ret (le_of_eq ?_))
  · refine (block_reads h).bind hm fun body => .ret (le_of_eq ?_)
    simp only [Expr.tally_function, mul_assoc]
  · simp only [Expr.tally_functionType, mul_assoc]

theorem parenExpr_takes (h : Agrees n p q) (level : Int) :
    Takes n (·.kind = Punctuation.lParen) Expr.tally (parenExpr p level) (parenExpr q level) := by
  intro m hm start t
  refine .consumeKind (fun _ => id) fun here => (h.expr (level + 1)).bind hm fun inner => ?_
  refine (expect_reads m _).bind le_rfl fun _ => .ret (le_of_eq ?_)
  simp only [Expr.tally_paren, mul_assoc]

theorem typeOperand_reads (h : Agrees n p q) : Reads (n + 1) Expr.tally (typeOperand p) (typeOperand q) := by
  intro m hm start t
  refine (type?_reads h true).bind hm fun r => ?_
  cases r with
  | some e => exact .ret le_rfl
  | none =>
    refine .current fun here _ => .reportHere (fun _ => rfl) ?_
    rintro _ rfl
    refine (skipTo_reads m _).bind le_rfl fun _ => .ret ?_
    exact Tally.le_of_words_eq_zero (by simp) (by simp [Expr.tally_bad])

theorem operand_reads (h : Agrees n p q) (level : Int) : Reads (n + 1) Expr.tally (operand p level) (operand q level) := by
  refine .of_succ fun m hm start t => .current fun here _ => ?_
  have htype : ∀ {φ}, Same (Reached start (m + 1) t φ) (typeOperand p) (typeOperand q)
      fun e => Reached start (m + 1) (t * e.tally) ⊤ := (typeOperand_reads h).last (Nat.succ_le_succ hm) fun _ => le_rfl
  obtain ⟨kind, loc⟩ := here
  cases kind with
  | ident text => exact .consumeHere (.pure fun _ hc => hc.mono (Nat.le_succ m) le_rfl id)
  | literal value => exact .consumeHere (.pure fun _ hc => hc.mono (Nat.le_succ m) le_rfl id)
  | punctuation mark =>
    cases mark with
    | lParen => exact (parenExpr_takes h level).weak (Nat.succ_le_succ hm) (by rintro _ rfl; rfl) fun _ => le_rfl
    | _ => exact htype
  | keyword word =>
    cases word with
    | func => exact (functionOrType_takes h).weak (Nat.succ_le_succ hm) (by rintro _ rfl; rfl) fun _ => le_rfl
    | _ => exact htype
  | _ => exact htype

theorem primary_reads (h : Agrees n p q) (level : Int) : Reads (n + 1) Expr.tally (primary p level) (primary q level) :=
  fun _ hm _ _ => (operand_reads h level).bind hm fun e => suffixes_same h hm level e

/-! ## Operators -/

theorem prefixed_takes (h : Agrees n p q) (level : Int) (op : Operator) :
    Takes n (·.kind = op) Expr.tally (prefixed p level op) (prefixed q level op) := by
  intro m hm start t
  refine .consumeKind (fun _ => id) fun here => (h.unary level).bind hm fun e => .ite (fun hop => .ret (le_of_eq ?_)) fun _ =>
    .ret (le_of_eq ?_)
  · simp only [Expr.tally_star, hop, mul_assoc]
  · simp only [Expr.tally_unary, mul_assoc]

theorem unary_reads (h : Agrees n p q) (level : Int) : Reads (n + 1) Expr.tally (unary p level) (unary q level) := by
  refine .of_succ fun m hm start t => .current fun here _ => ?_
  have hm' : m + 1 ≤ n + 1 := Nat.succ_le_succ hm
  have hprimary : ∀ {φ}, Same (Reached start (m + 1) t φ) (primary p level) (primary q level)
      fun e => Reached start (m + 1) (t * e.tally) ⊤ := (primary_reads h level).last hm' fun _ => le_rfl
  obtain ⟨kind, loc⟩ := here
  cases kind with
  | operator op =>
    cases op with
    | arrow =>
      refine .peek fun next => .ite (fun _ => ?_) fun _ => ?_
      · refine .bind ((channelType_takes h).weak hm' (by rintro _ rfl; exact .inr rfl) (fun _ => le_rfl)) fun e => ?_
        exact suffixes_same h hm' level e
      · exact (prefixed_takes h level .arrow).weak hm' (by rintro _ rfl; rfl) fun _ => le_rfl
    | _ =>
      exact .ite (fun _ => (prefixed_takes h level _).weak hm' (by rintro _ rfl; rfl) fun _ => le_rfl) fun _ => hprimary
  | _ => exact hprimary

theorem binaryPass_passes {f g : Parse Expr} (h : Reads n Expr.tally f g) {T : Expr → Tally} (hT : Grows T)
    (family : Operator.Family) : Passes n T T (binaryPass family f) (binaryPass family g) := by
  intro m hm start e
  refine .current fun here _ => ?_
  obtain ⟨kind, loc⟩ := here
  cases kind with
  | operator op =>
    refine .ite (fun _ => .consumeHere (h.bind hm.le fun right => .pure fun _ hc => hc.done ?_)) fun _ =>
      .pure fun _ hc => hc.done le_rfl
    have hle := hT e (.binary e.loc op e right) (.token op * right.tally) (le_of_eq (by rw [Expr.tally_binary, mul_assoc]))
    simpa only [mul_assoc] using hle
  | _ => exact .pure fun _ hc => hc.done le_rfl

theorem binaryLevel_reads {f g : Parse Expr} (h : Reads n Expr.tally f g) (family : Operator.Family) :
    Reads n Expr.tally (binaryLevel family f) (binaryLevel family g) := fun _ hm _ t =>
  h.bind hm fun e => (binaryPass_passes h (grows_mul_tally t) family).loop hm e

theorem foldr_binaryLevel_reads {f g : Parse Expr} (h : Reads n Expr.tally f g) (families : List Operator.Family) :
    Reads n Expr.tally (families.foldr binaryLevel f) (families.foldr binaryLevel g) := by
  induction families with
  | nil => exact h
  | cons family families ih => exact binaryLevel_reads ih family

theorem expr_reads (h : Agrees n p q) (level : Int) : Reads (n + 1) Expr.tally (expr p level) (expr q level) :=
  foldr_binaryLevel_reads (unary_reads h level) binaryFamilies

/-- The tally of expressions between commas. -/
def exprsTally (es : List Expr) : Tally := .joined (es.map Expr.tally)

theorem exprList_reads (h : Agrees n p q) (level : Int) :
    Reads (n + 1) (fun r => exprsTally (r.1 :: r.2)) (exprList p level) (exprList q level) :=
  separated_reads (expr_reads h level)

theorem elementValue_reads (h : Agrees n p q) (level : Int) :
    Reads (n + 1) Expr.tally (elementValue p level) (elementValue q level) := by
  intro m hm start t
  refine .ifAt ?_ ((expr_reads h level).last hm fun _ => le_rfl)
  refine .weaken (.weakRoom (fun k hk => composite_same h (T := fun e => t * e.tally) hk level none fun loc es => ?_) hm)
    le_rfl le_rfl fun _ => And.right
  rw [Expr.tally_composite]
  exact mul_le_mul_right (le_of_eq (one_mul _).symm) t

end GoSyntax.Grammar
