import GoSyntax.Grammar.Simple
import GoSyntax.Proofs.Reading.Expression

/-!
# Reading simple statements

More expressions than a statement can take are reported, so that what is read without a report is spelled by the one that is kept.
-/

namespace GoSyntax.Grammar

open Parse

variable {n m m' : Nat} {p q : Productions} {start : Cursor} {t u : Tally} {φ : Token → Prop}

/-! ## Checks -/

theorem checkAtMost_reads (n limit : Nat) (context : String) (found : Nat) (loc : Location) :
    Reads n (fun _ => .given (found ≤ limit)) (checkAtMost limit context found loc) (checkAtMost limit context found loc) := by
  have h : Reads n _ (checkAtMost limit context found loc) _ := reportUnless_reads n (found ≤ limit) rfl loc
  simp only [decide_eq_true_eq] at h
  exact h

theorem isLexical_assignmentFault? {op : Operator} {targets values : Nat} {fault : Fault}
    (h : assignmentFault? op targets values = some fault) : fault.isLexical = false := by
  rw [assignmentFault?] at h
  split at h
  · split at h
    · rw [← Option.some.inj h]
      rfl
    · cases h
  · split at h
    · rw [← Option.some.inj h]
      rfl
    · split at h
      · rw [← Option.some.inj h]
        rfl
      · cases h

theorem checkAssignment_reads (n : Nat) (op : Operator) (targets values : Nat) (loc : Location) :
    Reads n (fun _ => 1) (checkAssignment op targets values loc) (checkAssignment op targets values loc) := by
  intro m _ start t
  rw [checkAssignment]
  cases hfault : assignmentFault? op targets values with
  | none => exact .ret (le_of_eq (mul_one t).symm)
  | some fault =>
    exact fun c hc => ⟨rfl, (hc.report (isLexical_assignmentFault? hfault) loc).done (Tally.mul_fault_le_of_placeholders rfl loc)⟩

/-! ## Statements behind their first expressions -/

@[simp] theorem exprsTally_singleton (e : Expr) : exprsTally [e] = e.tally := mul_one _

theorem placeholders_exprsTally_cons (e : Expr) (es : List Expr) :
    (exprsTally (e :: es)).placeholders = e.tally.placeholders + ((es.map Expr.tally).map Tally.placeholders).sum := by
  have hprod : ∀ ts : List Tally, (ts.map (Tally.token Punctuation.comma * ·)).prod.placeholders = (ts.map Tally.placeholders).sum :=
    fun ts => by simp [Tally.placeholders_prod, Function.comp_def]
  rw [exprsTally, List.map_cons, Tally.joined, Tally.separatedBy_cons, mul_one, Tally.placeholders_mul, hprod]

/-- One expression has no more placeholders than it and others. -/
theorem placeholders_le_exprsTally (e : Expr) (es : List Expr) : e.tally.placeholders ≤ (exprsTally (e :: es)).placeholders := by
  rw [placeholders_exprsTally_cons]
  exact le_add_of_nonneg_right (Multiset.zero_le _)

/-- One of several expressions may stand for all, if there has been a report. -/
theorem exprsTally_reread_le (e : Expr) (es : List Expr) (t v w : Tally) :
    t * exprsTally (e :: es) * v * .given (es.length + 1 ≤ 1) * w ≤ t * (e.tally * v * w) := by
  refine Tally.reread_le (fun h => ?_) (placeholders_le_exprsTally e es) t v w
  obtain rfl := List.eq_nil_of_length_eq_zero (Nat.le_zero.1 (Nat.le_of_succ_le_succ h))
  exact exprsTally_singleton e

theorem send_same (h : Agrees n p q) (hm : m ≤ n) (level : Int) (channel : Expr) (others : List Expr) (loc : Location) :
    Same (Reached start (m + 1) (t * exprsTally (channel :: others)) (·.kind = Operator.arrow)) (send p level channel others loc)
      (send q level channel others loc) fun s => Reached start m (t * s.tally) ⊤ := by
  refine .consumeKind (fun _ => id) fun _ => (checkAtMost_reads m _ _ _ _).bind le_rfl fun _ => ?_
  refine (expr_reads h level).bind (hm.trans (Nat.le_succ n)) fun value => .ret ?_
  rw [Stmt.tally_send]
  exact exprsTally_reread_le channel others t _ _

theorem incDec_same (op : Operator) (operand : Expr) (others : List Expr) (loc : Location) :
    Same (Reached start (m + 1) (t * exprsTally (operand :: others)) (·.kind = op)) (incDec op operand others loc)
      (incDec op operand others loc) fun s => Reached start m (t * s.tally) ⊤ := by
  refine .consumeKind (fun _ => id) fun _ => (checkAtMost_reads m _ _ _ _).bind le_rfl fun _ => .ret ?_
  rw [Stmt.tally_incDec]
  simpa only [mul_one] using exprsTally_reread_le operand others t (.token op) 1

theorem assignment_same (h : Agrees n p q) (hm : m ≤ n) (level : Int) (op : Operator) (targets : List Expr) (loc : Location) :
    Same (Reached start m (t * exprsTally targets * .token op) φ) (assignment p level op targets loc)
      (assignment q level op targets loc) fun s => Reached start m (t * s.tally) ⊤ := by
  refine (exprList_reads h level).bind (hm.trans (Nat.le_succ n)) fun r => (checkAssignment_reads m _ _ _ _).bind le_rfl fun _ => .ret ?_
  rw [Stmt.tally_assign, mul_one]
  simp only [exprsTally, mul_assoc, le_refl]

theorem labeled_same (h : Agrees n p q) (hm : m ≤ n) (label : Name) (loc : Location) :
    Same (Reached start (m + 1) (t * label.tally) (·.kind = Punctuation.colon)) (labeled p label loc) (labeled q label loc)
      fun s => Reached start m (t * s.tally) ⊤ := by
  refine .consumeKind (fun _ => id) fun _ => .ifAt (.current fun here _ => .ret ?_) (h.stmt.bind hm fun s => .ret ?_)
  · rw [Stmt.tally_labeled, Stmt.tally_empty, mul_one, mul_assoc]
  · rw [Stmt.tally_labeled]
    simp only [mul_assoc, le_refl]

theorem alone_same (first : Expr) (others : List Expr) (loc : Location) :
    Same (Reached start m (t * exprsTally (first :: others)) φ) (alone first others loc) (alone first others loc)
      fun s => Reached start m (t * s.tally) ⊤ := by
  refine .ite (fun hothers => .ret ?_) fun _ => .reportHere (fun _ => rfl) fun here _ => .ret ?_
  · rw [List.isEmpty_iff.1 hothers, exprsTally_singleton, Stmt.tally_expr]
  · refine Tally.mul_fault_le ?_
    simpa [Stmt.tally_expr, add_assoc] using (placeholders_le_exprsTally first others).trans (Multiset.le_add_right _ _)

/-- Only a name before a colon in a block is a label. -/
theorem bare_cases (position : SimplePosition) (first : Expr) (others : List Expr) (loc : Location) :
    (∃ labelLoc label, first = .ident labelLoc label ∧ others = [] ∧ ∀ p, bare p position first others loc = do
        if ← isAt Punctuation.colon then labeled p ⟨labelLoc, label⟩ loc else alone first others loc)
      ∨ ∀ p, bare p position first others loc = alone first others loc := by
  cases position with
  | block =>
    cases first with
    | ident labelLoc label =>
      cases others with
      | nil => exact .inl ⟨labelLoc, label, rfl, rfl, fun _ => rfl⟩
      | cons => exact .inr fun _ => rfl
    | _ => exact .inr fun _ => rfl
  | _ => exact .inr fun _ => rfl

theorem bare_same (h : Agrees n p q) (hm : m ≤ n) (position : SimplePosition) (first : Expr) (others : List Expr) (loc : Location) :
    Same (Reached start (m + 1) (t * exprsTally (first :: others)) φ) (bare p position first others loc)
      (bare q position first others loc) fun s => Reached start (m + 1) (t * s.tally) ⊤ := by
  obtain ⟨labelLoc, label, rfl, rfl, heq⟩ | heq := bare_cases position first others loc
  · rw [heq, heq]
    refine .ifAt ?_ ((alone_same _ [] loc).weaken le_rfl le_rfl fun _ => id)
    refine .weaken (.weakRoom (fun k hk => labeled_same h hk ⟨labelLoc, label⟩ loc) (Nat.succ_le_succ hm)) le_rfl ?_
      fun _ => And.right
    rw [exprsTally_singleton, Expr.tally_ident, Name.tally]
  · rw [heq, heq]
    exact alone_same first others loc

/-! ## Simple statements -/

/-- The variables of a range clause and the operator before its keyword: at most two. -/
def rangeVarsTally (vars : List Expr) (define : Bool) : Tally :=
  match vars with
  | [] => .given (define = false)
  | first :: others =>
    exprsTally (first :: others) * .token (Layout.rangeOp define) * .given ((first :: others).length ≤ 2)

/-- A range clause. -/
def rangeTally (vars : List Expr) (define : Bool) (operand : Expr) : Tally :=
  rangeVarsTally vars define * .token Keyword.range * operand.tally

/-- The tally of a simple statement or a range clause. -/
def Simple.tally : Simple → Tally
  | .stmt s => s.tally
  | .range vars define operand => rangeTally vars define operand

/-- A range clause is read only where it may stand. -/
def Simple.Fits (position : SimplePosition) : Simple → Prop
  | .stmt _ => True
  | .range _ _ _ => position = .loopHeader

/-- What is known of a simple statement that has been read. -/
def ReadsSimple (start : Cursor) (m : Nat) (t : Tally) (position : SimplePosition) (s : Simple) (c : Cursor) : Prop :=
  s.Fits position ∧ Reached start m (t * s.tally) ⊤ c

theorem readsSimple_stmt {position : SimplePosition} {f g : Parse Stmt}
    (h : Same (Reached start m t φ) f g fun s => Reached start m' (u * s.tally) ⊤) :
    Same (Reached start m t φ) (.stmt <$> f) (.stmt <$> g) (ReadsSimple start m' u position) :=
  .map (h.conseq (fun _ hc => hc) fun _ _ hQ => ⟨trivial, hQ⟩)

theorem rangeClause_same (h : Agrees n p q) (hm : m ≤ n + 1) (level : Int) (first : Expr) (others : List Expr) (define : Bool)
    (loc : Location) :
    Same (Reached start m (t * exprsTally (first :: others) * .token (Layout.rangeOp define) * .token Keyword.range) φ)
      (rangeClause p level (first :: others) define loc) (rangeClause q level (first :: others) define loc)
      (ReadsSimple start m t .loopHeader) := by
  refine (expr_reads h level).bind hm fun operand => (checkAtMost_reads m _ _ _ _).bind le_rfl fun _ => ?_
  refine .pure fun _ hc => ⟨rfl, hc.done (le_of_eq ?_)⟩
  simp only [Simple.tally, rangeTally, rangeVarsTally, mul_assoc, Tally.given_mul]

theorem assignmentOrRange_same (h : Agrees n p q) (hm : m ≤ n) (position : SimplePosition) (level : Int) (op : Operator)
    (first : Expr) (others : List Expr) (loc : Location) :
    Same (Reached start (m + 1) (t * exprsTally (first :: others)) (·.kind = op))
      (assignmentOrRange p position level op (first :: others) loc) (assignmentOrRange q position level op (first :: others) loc)
      (ReadsSimple start m t position) := by
  refine .consumeKind (fun _ => id) fun _ => ?_
  have hassign : ∀ {φ}, Same (Reached start m (t * exprsTally (first :: others) * .token op) φ)
      (.stmt <$> assignment p level op (first :: others) loc) (.stmt <$> assignment q level op (first :: others) loc)
      (ReadsSimple start m t position) := readsSimple_stmt (assignment_same h hm level op _ loc)
  cases hrange : position == .loopHeader && (op == .assign || op == .define) with
  | false => exact hassign
  | true =>
    simp only [Bool.and_eq_true, Bool.or_eq_true, beq_iff_eq] at hrange
    obtain ⟨rfl, hop⟩ := hrange
    refine .ifAccept ?_ hassign
    refine (rangeClause_same h (hm.trans (Nat.le_succ n)) level first others _ loc).weaken le_rfl ?_ fun _ => id
    obtain rfl | rfl := hop <;> exact le_rfl

theorem simpleBy_same (h : Agrees n p q) (hm : m ≤ n) (position : SimplePosition) (level : Int) (op : Operator) (first : Expr)
    (others : List Expr) (loc : Location) :
    Same (Reached start (m + 1) (t * exprsTally (first :: others)) (·.kind = op)) (simpleBy p position level op first others loc)
      (simpleBy q position level op first others loc) (ReadsSimple start (m + 1) t position) := by
  rw [simpleBy, simpleBy]
  cases op.family with
  | incDec =>
    exact readsSimple_stmt ((incDec_same op first others loc).conseq (fun _ hc => hc) fun _ _ hQ => hQ.mono (Nat.le_succ m) le_rfl id)
  | assignment =>
    exact (assignmentOrRange_same h hm position level op first others loc).conseq (fun _ hc => hc) fun _ _ hQ =>
      ⟨hQ.1, hQ.2.mono (Nat.le_succ m) le_rfl id⟩
  | _ => exact readsSimple_stmt (bare_same h hm position first others loc)

theorem simpleFrom_same (h : Agrees n p q) (hm : m ≤ n) (position : SimplePosition) (level : Int) (first : Expr)
    (others : List Expr) (loc : Location) :
    Same (Reached start (m + 1) (t * exprsTally (first :: others)) φ) (simpleFrom p position level first others loc)
      (simpleFrom q position level first others loc) (ReadsSimple start (m + 1) t position) := by
  refine .current fun here _ => ?_
  obtain ⟨kind, here⟩ := here
  cases kind with
  | operator op =>
    cases op with
    | arrow =>
      refine readsSimple_stmt (.weaken (.weakRoom (fun k hk => send_same h hk level first others loc) (Nat.succ_le_succ hm)) le_rfl
        le_rfl ?_)
      rintro _ rfl
      rfl
    | _ => exact (simpleBy_same h hm position level _ first others loc).weaken le_rfl le_rfl (by rintro _ rfl; rfl)
  | _ => exact readsSimple_stmt (bare_same h hm position first others loc)

theorem simple_same (h : Agrees n p q) (hm : m ≤ n + 1) (position : SimplePosition) (level : Int) :
    Same (Reached start m t φ) (simple p position level) (simple q position level) (ReadsSimple start m t position) := by
  refine .current fun here _ => (exprList_reads h level).bind hm fun r => ?_
  cases m with
  | zero => exact .absurd fun c hc => Nat.not_lt_zero _ hc.room
  | succ m => exact simpleFrom_same h (Nat.le_of_succ_le_succ hm) position level r.1 r.2 here.loc

theorem simpleStmt_reads (h : Agrees n p q) {position : SimplePosition} (hp : position ≠ .loopHeader) (level : Int) :
    Reads (n + 1) Stmt.tally (simpleStmt p position level) (simpleStmt q position level) := by
  intro m hm start t
  refine .current fun here _ => .bind (simple_same h hm position level) fun s => ?_
  cases s with
  | stmt s => exact .pure fun _ hc => hc.2
  | range vars define operand => exact .absurd fun _ hc => hp hc.1

end GoSyntax.Grammar
