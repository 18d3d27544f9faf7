import GoSyntax.Grammar.Control
import GoSyntax.Proofs.Reading.Simple

/-!
# Reading control statements

The statement of a header becomes a condition only when the body has been read: either it is an expression and is spelled as before,
or it is reported, and its placeholder stands where it stood.
-/

namespace GoSyntax.Grammar

open Parse

variable {α : Type} {n m : Nat} {p q : Productions} {start : Cursor} {t u : Tally} {φ : Token → Prop}

/-! ## Headers -/

/-- The expression of a statement is the statement, or it is a placeholder and the statement has been reported. -/
theorem headerExpr_same (what : String) (s : Stmt) :
    Same (Reached start m t φ) (headerExpr what s) (headerExpr what s) fun e c =>
      s.tally = e.tally ∧ Reached start m t φ c ∨ e = .bad s.loc ∧ Reached start m (t * .fault s.loc) φ c := by
  cases s with
  | expr loc e => exact .pure fun _ hc => .inl ⟨Stmt.tally_expr loc e, hc⟩
  | _ => exact .report rfl (.pure fun _ hc => .inr ⟨rfl, hc⟩)

/-- Where a statement has been read, its expression has. -/
theorem headerExpr_bind (what : String) (s : Stmt) {w : Tally → Tally} (ht : t ≤ w s.tally)
    (hw : ∀ loc, (w (.fault loc)).placeholders ≤ t.placeholders + {loc}) {k k' : Expr → Parse α} {Q : α → Cursor → Prop}
    (hk : ∀ e, Same (Reached start m (w e.tally) φ) (k e) (k' e) Q) :
    Same (Reached start m t φ) (headerExpr what s >>= k) (headerExpr what s >>= k') Q := by
  refine .bind (headerExpr_same what s) fun e => .or (.and fun heq => ?_) (.and ?_)
  · exact (hk e).weaken le_rfl (heq ▸ ht) fun _ => id
  · rintro rfl
    exact (hk _).weaken le_rfl (Tally.mul_fault_le (hw s.loc)) fun _ => id

theorem headerStmt_reads (h : Agrees n p q) : Reads (n + 1) Stmt.tally (headerStmt p) (headerStmt q) :=
  simpleStmt_reads h (by decide) (-1)

theorem headerStmtBefore?_reads (h : Agrees n p q) {stop : TokenKind} [stop.Bare] :
    Reads (n + 1) (tally? Stmt.tally) (headerStmtBefore? p stop) (headerStmtBefore? q stop) := fun _ hm _ t =>
  .ifAt (.ret (le_of_eq (mul_one t).symm)) ((headerStmt_reads h).map hm fun _ => le_rfl)

/-- The init statement of a header. -/
def initTally (init : Option Stmt) : Tally := .init (init.map Stmt.tally)

theorem tally?_mul_token_le_initTally (init : Option Stmt) : tally? Stmt.tally init * .token Punctuation.semicolon ≤ initTally init := by
  cases init with
  | none => exact (one_mul _).trans_le (Tally.token_le_optionalToken _)
  | some s => exact le_rfl

theorem one_le_initTally : 1 ≤ initTally none := Tally.one_le_optionalToken _

theorem header_reads (h : Agrees n p q) :
    Reads (n + 1) (fun r => initTally r.1 * tally? Stmt.tally r.2) (header p) (header q) := by
  intro m hm start t
  refine (headerStmtBefore?_reads h).bind hm fun first => .ifAccept ((headerStmtBefore?_reads h).bind hm fun second => .ret ?_) (.ret ?_)
  · rw [mul_assoc t]
    simpa only [mul_assoc] using mul_le_mul_right (mul_le_mul_left (tally?_mul_token_le_initTally first) _) t
  · exact mul_le_mul_right (le_mul_of_one_le_left' one_le_initTally) t

/-! ## If -/

theorem missingCondition_reads (n : Nat) : Reads n Expr.tally missingCondition missingCondition := by
  intro m _ start t
  refine .current fun here _ => .reportHere (fun _ => rfl) ?_
  rintro _ rfl
  exact .ret (by rw [Expr.tally_bad])

theorem ifHeader_reads (h : Agrees n p q) :
    Reads (n + 1) (fun r => initTally r.1 * r.2.tally) (ifHeader p) (ifHeader q) := by
  intro m hm start t
  refine .ifAt ((missingCondition_reads m).bind le_rfl fun e => .ret ?_) ((header_reads h).bind hm fun r => ?_)
  · exact mul_le_mul_right (le_mul_of_one_le_left' one_le_initTally) t
  · obtain ⟨init, cond⟩ := r
    cases cond with
    | some s =>
      refine headerExpr_bind (w := fun u => t * (initTally init * u)) _ s le_rfl (fun loc => ?_) fun e => .ret le_rfl
      simp [add_assoc, Multiset.zero_le]
    | none =>
      refine (missingCondition_reads m).bind le_rfl fun e => .ret (le_of_eq ?_)
      simp only [tally?_none, mul_one, mul_assoc]

theorem otherwise_reads (h : Agrees n p q) : Reads n Stmt.tally (otherwise p) (otherwise q) := by
  intro m hm start t
  refine .ifAt (h.stmt.last hm fun _ => le_rfl) (.ifAt ((block_reads h).map hm fun b => ?_) (.current fun here _ => ?_))
  · rw [Stmt.tally_block]
  · refine .reportHere (fun _ => rfl) ?_
    rintro _ rfl
    exact .ret (by rw [Stmt.tally_bad])

theorem ifStmt_takes (h : Agrees n p q) : Takes n (·.kind = Keyword.if) Stmt.tally (ifStmt p) (ifStmt q) := by
  intro m hm start t
  refine .consumeKind (fun _ => id) fun here => (ifHeader_reads h).bind (hm.trans (Nat.le_succ n)) fun r => ?_
  refine (block_reads h).bind hm fun body => .ifAccept ((otherwise_reads h).bind hm fun s => .ret (le_of_eq ?_)) (.ret (le_of_eq ?_))
  · simp only [Stmt.tally_if_else, initTally, mul_assoc]
  · simp only [Stmt.tally_if, initTally, mul_assoc]

/-! ## Clauses -/

theorem startsClause_iff (kind : TokenKind) : startsClause kind = true ↔ kind = Keyword.case ∨ kind = Keyword.default := by
  rw [startsClause, Bool.or_eq_true, TokenKind.Bare.sameKind_iff, TokenKind.Bare.sameKind_iff]

/-- Recovery stops at an end of the clauses and where one starts. -/
theorem stops_clauseEnd {a : Token} (h : Stops Recovery.clauseEnd a) :
    startsClause a.kind = true ∨ a.kind = Punctuation.rBrace ∨ a.kind = .eof := by
  rcases h with h | h
  · rw [Recovery.clauseEnd, TokenSet.contains_union, Bool.or_eq_true, TokenSet.contains_keywords, TokenSet.contains_punctuation] at h
    simp only [List.mem_cons, List.not_mem_nil, or_false, exists_eq_or_imp, exists_eq_left] at h
    rw [startsClause_iff]
    tauto
  · exact .inr (.inr h)

theorem clausePass_passes {w : α → Tally} {clause clause' : Parse α}
    (hclause : Takes n (fun a => startsClause a.kind = true) w clause clause') {T : Array α → Tally}
    (hT : ∀ xs x, T xs * w x ≤ T (xs.push x)) : Passes n T T (clausePass clause) (clausePass clause') := by
  intro m hm start xs
  refine .current fun here _ => .ite (fun _ => .pure fun _ hc => hc.done le_rfl) fun hend => .ite (fun hstarts => ?_) fun hstarts => ?_
  · exact hclause.bind hm.le (by rintro _ rfl; exact hstarts) fun x => .pure fun _ hc => hc.done (hT xs x)
  · refine .reportHere (fun _ => rfl) fun _ heq => (skipTo_takes m _).bind le_rfl ?_ fun _ => .pure fun _ hc => hc.done ?_
    · subst heq
      rintro _ rfl hstop
      rcases stops_clauseEnd hstop with h | h
      · exact hstarts h
      · exact hend (by rwa [Bool.or_eq_true, TokenKind.Bare.sameKind_iff, TokenKind.Bare.sameKind_iff])
    · exact (Tally.mul_fault_mul_le_lost _ _ _).trans (Tally.lost_le _)

/-- Clauses in braces. -/
def clausesTally (w : α → Tally) (list : List α) : Tally :=
  .token Punctuation.lBrace * (list.map w).prod * .token Punctuation.rBrace

theorem clauses_reads {w : α → Tally} {clause clause' : Parse α}
    (hclause : Takes n (fun a => startsClause a.kind = true) w clause clause') :
    Reads n (clausesTally w) (clauses clause) (clauses clause') := by
  intro m hm start t
  have hpass : Passes n (fun xs : Array α => t * .token Punctuation.lBrace * (xs.toList.map w).prod) _ (clausePass clause)
      (clausePass clause') := clausePass_passes hclause fun xs x => by simp [mul_assoc]
  refine (expect_reads m _).bind le_rfl fun _ => .bind (.weaken (hpass.loop hm #[]) le_rfl (by simp) fun _ => id) fun xs => ?_
  refine (expect_reads m _).bind le_rfl fun _ => .ret (le_of_eq ?_)
  simp only [clausesTally, mul_assoc]

/-- The start of a clause. -/
def labelTally (label : Option Tally) : Tally :=
  match label with
  | some t => .token Keyword.case * t
  | none => .token Keyword.default

theorem clauseLabel?_reads {w : α → Tally} {f g : Parse α} (h : Reads n w f g) {here : Token} (hhere : startsClause here.kind = true)
    (hm : m ≤ n) :
    Same (Reached start m (t * .token here.kind) φ) (clauseLabel? here f) (clauseLabel? here g)
      fun r => Reached start m (t * labelTally (r.map w)) ⊤ := by
  refine .ite (fun hcase => h.map hm fun a => ?_) fun hcase => .ret (le_of_eq ?_)
  · rw [(TokenKind.Bare.sameKind_iff _).1 hcase, mul_assoc]
    exact le_rfl
  · rw [((startsClause_iff _).1 hhere).resolve_left fun h => hcase ((TokenKind.Bare.sameKind_iff _).2 h)]
    rfl

theorem types_reads (h : Agrees n p q) : Reads n exprsTally (types p) (types q) := fun _ hm _ _ =>
  (separated_reads (type_reads h)).bind hm fun _ => .ret le_rfl

theorem exprs_reads (h : Agrees n p q) : Reads (n + 1) exprsTally (exprs p) (exprs q) := fun _ hm _ _ =>
  (exprList_reads h 0).bind hm fun _ => .ret le_rfl

theorem caseList_reads (h : Agrees n p q) (ofTypes : Bool) : Reads n exprsTally (caseList p ofTypes) (caseList q ofTypes) := by
  cases ofTypes with
  | true => exact types_reads h
  | false => exact (exprs_reads h).mono (Nat.le_succ n)

theorem CaseClause.tally_eq (loc : Location) (list : Option (List Expr)) (body : List Stmt) :
    (CaseClause.mk loc list body).tally = labelTally (list.map exprsTally) * .token Punctuation.colon * stmtsTally body := by
  cases list with
  | none => exact CaseClause.tally_default loc body
  | some list => exact CaseClause.tally_case loc list body

theorem CommClause.tally_eq (loc : Location) (comm : Option Stmt) (body : List Stmt) :
    (CommClause.mk loc comm body).tally = labelTally (comm.map Stmt.tally) * .token Punctuation.colon * stmtsTally body := by
  cases comm with
  | none => exact CommClause.tally_default loc body
  | some comm => exact CommClause.tally_case loc comm body

theorem caseClause_takes (h : Agrees n p q) (ofTypes : Bool) :
    Takes n (fun a => startsClause a.kind = true) CaseClause.tally (caseClause p ofTypes) (caseClause q ofTypes) := by
  intro m hm start t
  refine .consume (fun a ha heof => ?_) fun here hhere => .bind (clauseLabel?_reads (caseList_reads h ofTypes) hhere hm) fun list => ?_
  · rw [heof] at ha
    exact absurd ha (by decide)
  · refine (expect_reads m _).bind le_rfl fun _ => (statements_reads h).bind hm fun body => .ret (le_of_eq ?_)
    simp only [CaseClause.tally_eq, mul_assoc]

/-! ## Switch -/

theorem switchHeader_reads (h : Agrees n p q) :
    Reads (n + 1) (fun r => initTally r.1 * tally? Stmt.tally r.2) (switchHeader p) (switchHeader q) := fun _ hm _ _ =>
  .ifAt (.ret (le_mul_of_one_le_right' (one_le_initTally.trans_eq (mul_one _).symm))) ((header_reads h).last hm fun _ => le_rfl)

theorem valueSwitch_same (h : Agrees n p q) (hm : m ≤ n) (loc : Location) (init : Option Stmt) (tag : Stmt) :
    Same (Reached start m (t * .token Keyword.switch * initTally init * tag.tally) φ) (valueSwitch p loc init tag)
      (valueSwitch q loc init tag) fun s => Reached start m (t * s.tally) ⊤ := by
  refine (clauses_reads (caseClause_takes h false)).bind hm fun list => ?_
  refine headerExpr_bind (w := fun u => t * (.token Keyword.switch * initTally init * u * clausesTally CaseClause.tally list)) _ tag
    ?_ (fun loc => ?_) fun e => .ret (le_of_eq ?_)
  · simp only [mul_assoc, le_refl]
  · simp [add_assoc, add_comm, add_left_comm, Multiset.zero_le]
  · rw [Stmt.tally_switch]
    rfl

theorem switchStmt_takes (h : Agrees n p q) : Takes n (·.kind = Keyword.switch) Stmt.tally (switchStmt p) (switchStmt q) := by
  intro m hm start t
  refine .consumeKind (fun _ => id) fun here => (switchHeader_reads h).bind (hm.trans (Nat.le_succ n)) fun r => ?_
  obtain ⟨init, tag⟩ := r
  cases tag with
  | none =>
    refine (clauses_reads (caseClause_takes h false)).bind hm fun list => .ret (le_of_eq ?_)
    rw [Stmt.tally_switch]
    simp only [clausesTally, initTally, tally?_none, Option.map_none, Tally.maybe_none, mul_one, mul_assoc]
  | some s =>
    refine .ite (fun _ => (clauses_reads (caseClause_takes h true)).bind hm fun list => .ret (le_of_eq ?_)) fun _ => ?_
    · simp only [Stmt.tally_typeSwitch, clausesTally, initTally, tally?_some, mul_assoc]
    · exact (valueSwitch_same h hm here.loc init s).weaken le_rfl (le_of_eq (by simp only [tally?_some, mul_assoc])) fun _ => id

/-! ## Select -/

theorem receiveInto_same (h : Agrees n p q) (hm : m ≤ n) (op : Operator) (targets : List Expr) (loc : Location) :
    Same (Reached start (m + 1) (t * exprsTally targets) (·.kind = op)) (receiveInto p op targets loc) (receiveInto q op targets loc)
      fun s => Reached start m (t * s.tally) ⊤ := by
  refine .consumeKind (fun _ => id) fun _ => (checkAtMost_reads m _ _ _ _).bind le_rfl fun _ => ?_
  refine (expr_reads h 0).bind (hm.trans (Nat.le_succ n)) fun e => .ret ?_
  rw [Stmt.tally_assign, List.map_singleton]
  refine (mul_le_mul_left (mul_le_of_le_one_right' (Tally.given_le_one _)) _).trans (le_of_eq ?_)
  simp only [exprsTally, mul_assoc, Tally.joined, Tally.separatedBy_singleton, mul_one]

theorem receive_same (first : Expr) (others : List Expr) (loc : Location) :
    Same (Reached start m (t * exprsTally (first :: others)) φ) (receive first others loc) (receive first others loc)
      fun s => Reached start m (t * s.tally) ⊤ := by
  refine (checkAtMost_reads m _ _ _ _).bind le_rfl fun _ => .ret ?_
  rw [Stmt.tally_expr]
  simpa only [mul_one] using exprsTally_reread_le first others t 1 1

theorem communicationFrom_same (h : Agrees n p q) (hm : m ≤ n) (first : Expr) (others : List Expr) (loc : Location) :
    Same (Reached start (m + 1) (t * exprsTally (first :: others)) φ) (communicationFrom p first others loc)
      (communicationFrom q first others loc) fun s => Reached start (m + 1) (t * s.tally) ⊤ := by
  refine .current fun here _ => ?_
  obtain ⟨kind, here⟩ := here
  cases kind with
  | operator op =>
    cases op with
    | arrow =>
      refine .weaken (.weakRoom (fun k hk => send_same h hk 0 first others loc) (Nat.succ_le_succ hm)) le_rfl le_rfl ?_
      rintro _ rfl
      rfl
    | _ =>
      refine .ite (fun _ => ?_) fun _ => receive_same first others loc
      refine .weaken (.weakRoom (fun k hk => receiveInto_same h hk _ (first :: others) loc) (Nat.succ_le_succ hm)) le_rfl le_rfl ?_
      rintro _ rfl
      rfl
  | _ => exact receive_same first others loc

theorem communication_reads (h : Agrees n p q) : Reads (n + 1) Stmt.tally (communication p) (communication q) := by
  intro m hm start t
  refine .current fun here _ => (exprList_reads h 0).bind hm fun r => ?_
  cases m with
  | zero => exact .absurd fun c hc => Nat.not_lt_zero _ hc.room
  | succ m => exact communicationFrom_same h (Nat.le_of_succ_le_succ hm) r.1 r.2 here.loc

theorem commClause_takes (h : Agrees n p q) :
    Takes n (fun a => startsClause a.kind = true) CommClause.tally (commClause p) (commClause q) := by
  intro m hm start t
  refine .consume (fun a ha heof => ?_) fun here hhere =>
    .bind (clauseLabel?_reads ((communication_reads h).mono (Nat.le_succ n)) hhere hm) fun comm => ?_
  · rw [heof] at ha
    exact absurd ha (by decide)
  · refine (expect_reads m _).bind le_rfl fun _ => (statements_reads h).bind hm fun body => .ret (le_of_eq ?_)
    simp only [CommClause.tally_eq, mul_assoc]

theorem selectStmt_takes (h : Agrees n p q) : Takes n (·.kind = Keyword.select) Stmt.tally (selectStmt p) (selectStmt q) := by
  intro m hm start t
  refine .consumeKind (fun _ => id) fun here => (clauses_reads (commClause_takes h)).bind hm fun list => .ret (le_of_eq ?_)
  simp only [Stmt.tally_select, clausesTally, mul_assoc]

/-! ## For -/

/-- The header of a loop. -/
def LoopHeader.tally : LoopHeader → Tally
  | .clauses init cond post => .loopHeader (init.map Stmt.tally) (cond.map Stmt.tally) (post.map Stmt.tally)
  | .range vars define operand => rangeTally vars define operand

theorem loopClauses_same (h : Agrees n p q) (hm : m ≤ n) (init : Option Stmt) :
    Same (Reached start (m + 1) (t * tally? Stmt.tally init) (·.kind = Punctuation.semicolon)) (loopClauses p init)
      (loopClauses q init) fun l => Reached start m (t * l.tally) ⊤ := by
  have hm' : m ≤ n + 1 := hm.trans (Nat.le_succ n)
  refine .consumeKind (fun _ => id) fun _ => (headerStmtBefore?_reads h).bind hm' fun cond => (expect_reads m _).bind le_rfl fun _ => ?_
  refine (headerStmtBefore?_reads h).bind hm' fun post => .ret ?_
  simp only [mul_assoc]
  exact mul_le_mul_right (by simpa only [tally?, LoopHeader.tally, mul_assoc] using Tally.parts_le_loopHeader _ _ _) t

theorem loopHeaderFrom_reads (h : Agrees n p q) : Reads (n + 1) LoopHeader.tally (loopHeaderFrom p) (loopHeaderFrom q) := by
  intro m hm start t
  refine .bind (simple_same h hm .loopHeader (-1)) fun s => ?_
  cases s with
  | range vars define operand => exact .pure fun _ hc => hc.2
  | stmt s =>
    refine .conseq ?_ (fun _ hc => hc.2) fun _ _ hQ => hQ
    refine .ifAt ?_ (.ret (mul_le_mul_right (Tally.cond_le_loopHeader (some s.tally)) t))
    exact .weaken (.weakRoom (fun k hk => loopClauses_same h hk (some s)) hm) le_rfl le_rfl fun _ => And.right

theorem loopHeader_reads (h : Agrees n p q) : Reads (n + 1) LoopHeader.tally (loopHeader p) (loopHeader q) := by
  intro m hm start t
  refine .ifAt (.ret ?_) (.ifAccept ((expr_reads h (-1)).bind hm fun e => .ret (le_of_eq ?_)) (.ifAt ?_ ?_))
  · exact (mul_one t).symm.trans_le (mul_le_mul_right (Tally.cond_le_loopHeader none) t)
  · rw [mul_assoc, LoopHeader.tally, rangeTally, rangeVarsTally, Tally.given_of rfl, one_mul]
  · exact .weaken (.weakRoom (fun k hk => loopClauses_same h hk none) hm) le_rfl (le_of_eq (mul_one t).symm) fun _ => And.right
  · exact (loopHeaderFrom_reads h).last hm fun _ => le_rfl

/-- A range clause with at most two variables is the header of its loop, and one with more has been reported. -/
theorem rangeTally_le (loc : Location) (vars : List Expr) (define : Bool) (operand : Expr) (body : Block) :
    .token Keyword.for * rangeTally vars define operand * body.tally ≤ (Stmt.range loc vars[0]? vars[1]? define operand body).tally := by
  match vars with
  | [] =>
    cases define with
    | false =>
      rw [rangeTally, rangeVarsTally, Tally.given_of rfl, one_mul, ← mul_assoc]
      exact (Stmt.tally_range loc operand body).ge
    | true =>
      have hplaceholders : (Stmt.range loc none none true operand body).tally.placeholders
          = (Stmt.range loc none none false operand body).tally.placeholders := rfl
      refine Tally.le_of_words_eq_zero (by simp [rangeTally, rangeVarsTally, Tally.words_given_of_not]) (hplaceholders.trans_le ?_)
      simp [Stmt.tally_range, rangeTally, rangeVarsTally]
  | [key] =>
    refine le_of_eq (Eq.trans ?_ (Stmt.tally_range_key loc key define operand body).symm)
    rw [rangeTally, rangeVarsTally, exprsTally_singleton, Tally.given_of (show [key].length ≤ 2 from Nat.le_succ 1), mul_one]
    simp only [mul_assoc]
  | [key, value] =>
    refine le_of_eq (Eq.trans ?_ (Stmt.tally_range_key_value loc key value define operand body).symm)
    rw [rangeTally, rangeVarsTally, Tally.given_of (show [key, value].length ≤ 2 from le_rfl), mul_one]
    have hvars : exprsTally [key, value] = key.tally * .token Punctuation.comma * value.tally := congrArg _ (mul_one _)
    simp only [hvars, mul_assoc]
  | key :: value :: e :: es =>
    refine Tally.le_of_words_eq_zero (by simp [rangeTally, rangeVarsTally, Tally.words_given_of_not]) ?_
    refine le_of_eq_of_le (congrArg Tally.placeholders (Stmt.tally_range_key_value loc key value define operand body)) ?_
    have hmore : ∀ a b c : Multiset Location, c ≤ a + (b + c) := fun a b c =>
      (le_add_of_nonneg_left (Multiset.zero_le _)).trans_eq (add_assoc a b c)
    simpa [rangeTally, rangeVarsTally, placeholders_exprsTally_cons, add_assoc] using hmore _ _ _

theorem forStmt_takes (h : Agrees n p q) : Takes n (·.kind = Keyword.for) Stmt.tally (forStmt p) (forStmt q) := by
  intro m hm start t
  refine .consumeKind (fun _ => id) fun here => (loopHeader_reads h).bind (hm.trans (Nat.le_succ n)) fun head => ?_
  refine (block_reads h).bind hm fun body => ?_
  cases head with
  | range vars define operand =>
    refine .ret ?_
    rw [mul_assoc t, mul_assoc t]
    exact mul_le_mul_right (rangeTally_le here.loc vars define operand body) t
  | clauses init cond post =>
    cases cond with
    | none => exact .ret (le_of_eq (by simp only [Stmt.tally_for, LoopHeader.tally, Option.map_none, mul_assoc]))
    | some cond =>
      refine headerExpr_bind (w := fun u => t * (.token Keyword.for * .loopHeader (init.map Stmt.tally) (some u) (post.map Stmt.tally)
        * body.tally)) _ cond (le_of_eq ?_) (fun loc => ?_) fun e => .ret (le_of_eq ?_)
      · simp only [LoopHeader.tally, Option.map_some, mul_assoc]
      · simp [LoopHeader.tally, add_assoc, add_comm, add_left_comm, Multiset.zero_le]
      · simp only [Stmt.tally_for, Option.map_some]

end GoSyntax.Grammar
