import GoSyntax.Grammar.Block
import GoSyntax.Proofs.Reading.Body

/-!
# Reading blocks

A pass of a list of statements takes a token: a statement that takes none starts with a token at which the recovery does not stop either,
unless it is a `;`, which is then taken.
-/

namespace GoSyntax.Grammar

open Parse

variable {n m : Nat} {p q : Productions} {start : Cursor} {t u : Tally} {φ : Token → Prop}

/-- The token ends a list of statements. -/
def EndsStatements (a : Token) : Prop := endsStatements a.kind = true

theorem endsStatements_iff (kind : TokenKind) : endsStatements kind = true
    ↔ kind = Punctuation.rBrace ∨ kind = .eof ∨ kind = Keyword.case ∨ kind = Keyword.default := by
  rw [endsStatements, Bool.or_eq_true, Bool.or_eq_true, Bool.or_eq_true, TokenKind.Bare.sameKind_iff, TokenKind.Bare.sameKind_iff,
    TokenKind.Bare.sameKind_iff, TokenKind.Bare.sameKind_iff, or_assoc, or_assoc]

/-- Recovery after a statement stops where a statement starts, at an end, and at a `;`. -/
theorem stops_statement {a : Token} (h : Stops Recovery.statement a) :
    Recovery.statementStart.contains a.kind = true ∨ EndsStatements a ∨ a.kind = Punctuation.semicolon := by
  rcases h with h | h
  · rw [Recovery.statement, TokenSet.contains_union, TokenSet.contains_union, Recovery.clauseEnd, TokenSet.contains_union,
      Bool.or_eq_true, Bool.or_eq_true, Bool.or_eq_true, TokenSet.contains_keywords, TokenSet.contains_punctuation,
      TokenSet.contains_punctuation] at h
    rw [EndsStatements, endsStatements_iff]
    simp only [List.mem_cons, List.not_mem_nil, or_false, exists_eq_or_imp, exists_eq_left] at h
    tauto
  · exact .inr (.inl ((endsStatements_iff _).2 (.inr (.inl h))))

theorem isAtStatementsEnd_asks : Asks EndsStatements isAtStatementsEnd := fun _ _ _ _ =>
  .current fun _ hhere => .pure fun _ hc => hc.mono le_rfl le_rfl (by rintro rfl; exact ⟨hhere, Iff.rfl⟩)

/-- If nothing has been reported since, the missing token is. -/
theorem reportMissing_same (before : Nat) (kind : TokenKind) :
    Same (Reached start m (t * .given (before = 0) * u) φ) (reportMissing before kind) (reportMissing before kind)
      fun _ => Reached start m (.lost (t * u)) φ := by
  refine .reports fun now => .ite (fun _ => ?_) fun hne => .pure fun _ hc => hc.mono le_rfl ?_ id
  · refine .reportHere_last (fun _ => rfl) fun _ _ => Tally.mul_fault_le_lost ?_ _
    simp
  · have hnow : ¬(before = 0 ∧ now = 0) := fun hzero => hne (by simp [hzero.1, hzero.2])
    refine Tally.le_of_words_eq_zero ?_ (by simp [Tally.lost])
    by_cases hbefore : before = 0
    · simp [Tally.words_given_of_not fun hzero => hnow ⟨hbefore, hzero⟩]
    · simp [Tally.words_given_of_not hbefore]

/-- Skipping and a `;` behind it change nothing after a fault. -/
theorem skipThenAccept_reads (n : Nat) (t : Tally) (stop : TokenSet) (hm : m ≤ n) :
    Same (Reached start m (.lost t) φ)
      (do
        skipTo stop
        let _ ← accept Punctuation.semicolon)
      (do
        skipTo stop
        let _ ← accept Punctuation.semicolon) fun _ => Reached start m (.lost t) ⊤ := by
  refine (skipTo_reads n _).bind hm fun _ => (accept_reads n).bind hm fun b => .pure fun _ hc => hc.done ?_
  rw [mul_assoc]
  exact Tally.lost_mul_le_lost _ _

/-- Going on behind a statement that nothing ends. -/
theorem resumeStatements_same (before : Nat) :
    Same (Reached start m (t * .given (before = 0) * u) φ) (resumeStatements before) (resumeStatements before)
      fun _ => Reached start m (.lost (t * u)) ⊤ :=
  .bind (reportMissing_same before _) fun _ => skipThenAccept_reads m _ _ le_rfl

/-- It takes a token, unless the next one starts a statement or ends them. -/
theorem resumeStatements_takes (before : Nat)
    (hφ : ∀ a, φ a → ¬Recovery.statementStart.contains a.kind = true ∧ ¬EndsStatements a ∧ a.kind ≠ Punctuation.semicolon) :
    Same (Reached start (m + 1) (t * .given (before = 0) * u) φ) (resumeStatements before) (resumeStatements before)
      fun _ => Reached start m (.lost (t * u)) ⊤ := by
  refine .bind (reportMissing_same before _) fun _ => ?_
  refine (skipTo_takes m _).bind le_rfl (fun a ha hstop => ?_) fun _ => (accept_reads m).bind le_rfl fun b => .pure fun _ hc => ?_
  · exact (stops_statement hstop).elim (hφ a ha).1 fun h => h.elim (hφ a ha).2.1 (hφ a ha).2.2
  · refine hc.done ?_
    rw [mul_assoc]
    exact Tally.lost_mul_le_lost _ _

/-- What ends a statement, when the statement has taken a token. -/
theorem statementEnd_same {T U : Array Stmt → Tally} (hT : ∀ xs x, T xs * (x.tally * .token Punctuation.semicolon) ≤ T (xs.push x))
    (hU : ∀ xs x, T xs * x.tally ≤ U (xs.push x)) (xs : Array Stmt) (s : Stmt) (before : Nat)
    {k : Parse (ForInStep (Array Stmt))} (hk : k = do
      if ← isAtStatementsEnd <||> accept Punctuation.semicolon then return .yield (xs.push s)
      else
        resumeStatements before
        return .yield (xs.push s)) {Q : Array Stmt → Cursor → Prop} :
    Same (Reached start m (T xs * .given (before = 0) * s.tally) ⊤) k k
      (Continues (fun xs c => Reached start m (T xs) ⊤ c ∨ Reached start m (U xs) EndsStatements c) Q) := by
  subst hk
  have hgiven : T xs * .given (before = 0) * s.tally ≤ T xs * s.tally :=
    mul_le_mul_left (mul_le_of_le_one_right' (Tally.given_le_one _)) _
  cases m with
  | zero => exact .absurd fun c hc => Nat.not_lt_zero _ hc.room
  | succ m =>
    refine .bind (endOrAccept_same isAtStatementsEnd_asks) fun b => ?_
    cases b with
    | true =>
      refine .or (.pure fun _ hc => .inr (hc.mono le_rfl (hgiven.trans (hU xs s)) And.right)) (.pure fun _ hc => .inl ?_)
      refine hc.mono (Nat.le_succ m) ((mul_le_mul_left hgiven _).trans ?_) id
      rw [mul_assoc]
      exact hT xs s
    | false =>
      refine .bind (resumeStatements_same before) fun _ => .pure fun _ hc => .inl (hc.done ?_)
      exact Tally.le_of_words_eq_zero rfl (by simpa [Tally.lost] using (hT xs s).2)

theorem statementPass_passesTo (h : Agrees n p q) {T U : Array Stmt → Tally}
    (hT : ∀ xs x, T xs * (x.tally * .token Punctuation.semicolon) ≤ T (xs.push x)) (hU : ∀ xs x, T xs * x.tally ≤ U (xs.push x))
    (hTU : ∀ xs, T xs ≤ U xs) : PassesTo n T U EndsStatements (statementPass p) (statementPass q) where
  step m hm start xs := by
    refine .ifAsk isAtStatementsEnd_asks (.pure fun _ hc => hc.done (hTU xs)) (.reports fun before => ?_)
    refine .byCases (fun a => Recovery.statementStart.contains a.kind = true) ?_ ?_
    · refine (h.keywordStmt m hm).bind le_rfl (fun _ => And.right) fun s => ?_
      exact statementEnd_same hT hU xs s before rfl
    · refine .bind (h.stmt.moves hm (χ := fun kind => ¬Recovery.statementStart.contains kind = true ∧ ¬endsStatements kind = true)
        fun a ha => ⟨ha.2, ha.1.2⟩) fun s => .or (statementEnd_same hT hU xs s before rfl) ?_
      -- The statement has taken nothing, so what ends it has to.
      refine .bind (endOrAccept_same isAtStatementsEnd_asks) fun b => ?_
      cases b with
      | true =>
        refine .or (.absurd fun c hc => hc.face.1.2 hc.face.2) (.pure fun _ hc => .inl (hc.done ?_))
        refine le_trans (mul_le_mul_left (mul_le_mul_left (mul_le_of_le_one_right' (Tally.given_le_one _)) _) _) ?_
        rw [mul_assoc]
        exact hT xs s
      | false =>
        refine .bind (resumeStatements_takes before fun a ha => ⟨ha.1.1, ha.2⟩) fun _ => .pure fun _ hc => .inl (hc.done ?_)
        exact Tally.le_of_words_eq_zero rfl (by simpa [Tally.lost] using (hT xs s).2)
  stop m _ start xs :=
    .ifAsk isAtStatementsEnd_asks (.pure fun _ hc => hc.done le_rfl) (.absurd fun _ hc => hc.face.2 hc.face.1)

/-- The tally of statements in a list. -/
def stmtsTally (ss : List Stmt) : Tally := .terminated (ss.map Stmt.tally)

theorem statements_reads (h : Agrees n p q) : Reads n stmtsTally (statements p) (statements q) := by
  intro m hm start t
  have hpass : PassesTo n (fun xs => t * eachBefore (.token Punctuation.semicolon) Stmt.tally xs)
      (fun xs => t * stmtsTally xs.toList) EndsStatements (statementPass p) (statementPass q) := by
    refine statementPass_passesTo h (fun xs x => ?_) (fun xs x => ?_) fun xs => ?_
    · rw [eachBefore_push, mul_assoc]
    · rw [mul_assoc]
      exact mul_le_mul_right (eachBefore_mul_le_separatedBy (Tally.one_le_optionalToken _) _ xs x) t
    · exact mul_le_mul_right (eachBefore_le_separatedBy (Tally.token_le_optionalToken _) _ xs) t
  exact .bind (.weaken (hpass.loop hm #[]) le_rfl (by simp) fun _ => id) fun xs => .ret le_rfl

/-- What follows the opening brace of a block. -/
theorem block_rest (h : Agrees n p q) (hm : m ≤ n) (loc : Location) :
    Same (Reached start m (t * .token Punctuation.lBrace) φ)
      (do
        let stmts ← statements p
        let _ ← expect Punctuation.rBrace
        return ⟨loc, stmts⟩)
      (do
        let stmts ← statements q
        let _ ← expect Punctuation.rBrace
        return ⟨loc, stmts⟩) fun b : Block => Reached start m (t * b.tally) ⊤ := by
  refine (statements_reads h).bind hm fun stmts => (expect_reads m _).bind le_rfl fun _ => .ret (le_of_eq ?_)
  simp only [Block.tally_mk, stmtsTally, mul_assoc]

theorem block_reads (h : Agrees n p q) : Reads n Block.tally (block p) (block q) := fun _ hm _ _ =>
  (expect_reads n _).bind hm fun loc => block_rest h hm loc

theorem block_takes (h : Agrees n p q) : Takes n (·.kind = Punctuation.lBrace) Block.tally (block p) (block q) := fun _ hm _ _ =>
  (expect_takes n _).bind hm (fun _ => id) fun loc => block_rest h hm loc

end GoSyntax.Grammar
