import GoSyntax.Proofs.Canonical.Simple

/-!
# Blocks and control statements are read back

The statements of a list are read one by one, each with the `;` behind it, until something ends the list. The header of a control
statement is read up to the brace that starts its body: no statement of it ends where the brace could be its own.
-/

namespace GoSyntax

open Parse Grammar Productions

/-- In a list of statements, the word of a statement is read back in front of a `;`, and nothing ends the list where it starts. -/
structure Stmt.Reads (s : Stmt) : Prop where
  starts : ∀ tail, endsStatements (nextKind (s.word ++ .punctuation .semicolon :: tail)) = false
  yields : ∀ rest, Yields (Grammar.stmt .full) (·.shape = s.shape) (s.word ++ .punctuation .semicolon :: rest)
    (.punctuation .semicolon :: rest)

variable {rest : List TokenKind} {loc : Location}

namespace Yields

/-! ## Blocks -/

theorem isAtStatementsEnd {β : Type} {R : β → Prop} {k : Bool → Parse β} {input : List TokenKind}
    (h : Yields (k (endsStatements (nextKind input))) R input rest) : Yields (Grammar.isAtStatementsEnd >>= k) R input rest := by
  rw [Grammar.isAtStatementsEnd, bind_assoc]
  exact .current fun _ => h

/-- Statements up to what ends them. -/
theorem statements {ss : List Stmt} (h : ∀ s ∈ ss, s.Reads) (hrest : endsStatements (nextKind rest) = true) :
    Yields (Grammar.statements .full) (List.Forall₂ (fun a s => a.shape = s.shape) · ss) (terminatedWords (ss.map Stmt.word) ++ rest)
      rest := by
  rw [terminatedWords, List.flatMap_map]
  refine .bind (loopItems loopsEnd_full.statements (F := fun _ => True) trivial (fun acc => ?_) ss (fun _ _ _ => trivial)
    (fun s hs acc tail _ => ?_) #[]) fun as has => .ret has.forall₂
  · exact .isAtStatementsEnd (.yes hrest (.ret rfl))
  · rw [List.append_assoc]
    refine .isAtStatementsEnd (.no (ne_true_of_eq_false ((h s hs).starts tail)) (.reports fun _ => ?_))
    rw [stmt_full]
    refine .bind ((h s hs).yields tail) fun a ha => .orM (.isAtStatementsEnd (.no Bool.false_ne_true (.accept rfl ?_)))
    exact .ret ⟨_, rfl, a, rfl, ha⟩

end Yields

/-- A block of statements that are read back is read back. -/
theorem Block.reads {b : Block} (h : ∀ s ∈ b.stmts, s.Reads) : b.Reads := by
  intro rest
  obtain ⟨loc, stmts⟩ := b
  rw [word_mk, List.cons_append, List.append_assoc]
  refine .expect rfl fun _ => .bind (.statements h rfl) fun ss hss => .expect rfl fun _ => .ret ?_
  rw [shape, shape, shapes_congr shapesOfStmts_eq hss]

theorem Block.exists_word (b : Block) : ∃ tail, b.word = .punctuation .lBrace :: tail := by
  obtain ⟨loc, stmts⟩ := b
  exact ⟨_, word_mk loc stmts⟩

/-! ## Headers -/

namespace Yields

/-- A statement of a header. -/
theorem headerStmt {s : Stmt} (h : s.ReadsAsSimple (-1))
    (hrest : nextKind rest = .punctuation .semicolon ∨ nextKind rest = .punctuation .lBrace ∧ s.opensBody (-1) = false) :
    Yields (Grammar.headerStmt .full) (·.shape = s.shape) (s.word ++ rest) rest := by
  refine .current fun _ => .bind (h.yields .header rest hrest) ?_
  rintro _ ⟨s', rfl, hs⟩
  exact .ret hs

/-- A statement of a header that may be missing. -/
theorem headerStmtBefore? {s : Option Stmt} {stop : TokenKind} (hstop : stop.startsValue = false) (h : ∀ t ∈ s, t.ReadsAsSimple (-1))
    (hnone : s = none → (nextKind rest).sameKind stop = true)
    (hsome : ∀ t ∈ s, nextKind rest = .punctuation .semicolon ∨ nextKind rest = .punctuation .lBrace ∧ t.opensBody (-1) = false) :
    Yields (Grammar.headerStmtBefore? .full stop) (fun r => shapeOfStmt? r = shapeOfStmt? s) (wordOf? Stmt.word s ++ rest) rest := by
  cases s with
  | none => exact .ifAt (hnone rfl) (.ret rfl)
  | some t =>
    refine .ifNotAt (TokenKind.sameKind_of_startsValue ((h t rfl).starts rest) hstop) (.map ?_)
    exact (headerStmt (h t rfl) (hsome t rfl)).conseq fun t' ht => congrArg some ht

theorem startsValue_header {init second : Option Stmt} (hinit : ∀ s ∈ init, s.ReadsAsSimple (-1))
    (hsecond : ∀ s ∈ second, s.ReadsAsSimple (-1)) (hne : init = none → second ≠ none) (tail : List TokenKind) :
    (nextKind (Stmt.initWord init ++ (wordOf? Stmt.word second ++ tail))).startsValue = true := by
  cases init with
  | none =>
    cases second with
    | none => exact absurd rfl (hne rfl)
    | some s => exact (hsecond s rfl).starts tail
  | some s =>
    rw [Stmt.initWord, List.append_assoc]
    exact (hinit s rfl).starts _

/-- A header that is not empty. -/
theorem header {init second : Option Stmt} (hinit : ∀ s ∈ init, s.ReadsAsSimple (-1)) (hsecond : ∀ s ∈ second, s.ReadsAsSimple (-1))
    (hopens : ∀ s ∈ second, s.opensBody (-1) = false) (hne : init = none → second ≠ none) :
    Yields (Grammar.header .full) (fun r => shapeOfStmt? r.1 = shapeOfStmt? init ∧ shapeOfStmt? r.2 = shapeOfStmt? second)
      (Stmt.initWord init ++ (wordOf? Stmt.word second ++ .punctuation .lBrace :: rest)) (.punctuation .lBrace :: rest) := by
  have hlast : Yields (Grammar.headerStmtBefore? .full Punctuation.lBrace) (fun r => shapeOfStmt? r = shapeOfStmt? second)
      (wordOf? Stmt.word second ++ .punctuation .lBrace :: rest) (.punctuation .lBrace :: rest) :=
    headerStmtBefore? rfl hsecond (fun _ => rfl) fun s hs => .inr ⟨rfl, hopens s hs⟩
  cases init with
  | none =>
    have hfirst : Yields (Grammar.headerStmtBefore? .full Punctuation.semicolon) (fun r => shapeOfStmt? r = shapeOfStmt? second)
        (wordOf? Stmt.word second ++ .punctuation .lBrace :: rest) (.punctuation .lBrace :: rest) :=
      headerStmtBefore? rfl hsecond (fun h => absurd h (hne rfl)) fun s hs => .inr ⟨rfl, hopens s hs⟩
    exact .bind hfirst fun second' hs => .ifNotAccept rfl (.ret ⟨rfl, hs⟩)
  | some s =>
    have hfirst : Yields (Grammar.headerStmtBefore? .full Punctuation.semicolon) (fun r => shapeOfStmt? r = shapeOfStmt? (some s))
        (wordOf? Stmt.word (some s) ++ .punctuation .semicolon :: (wordOf? Stmt.word second ++ .punctuation .lBrace :: rest))
        (.punctuation .semicolon :: (wordOf? Stmt.word second ++ .punctuation .lBrace :: rest)) :=
      headerStmtBefore? rfl hinit (fun h => nomatch h) fun _ _ => .inl rfl
    rw [Stmt.initWord, List.append_assoc]
    exact .bind hfirst fun init' hi => .ifAccept rfl (.bind hlast fun second' hs => .ret ⟨hi, hs⟩)

/-- What is read of a header as an expression is one. -/
theorem headerExpr {what : String} {s : Stmt} {e : Expr} (h : s.shape = (Stmt.expr loc e).shape) :
    Yields (Grammar.headerExpr what s) (·.shape = e.shape) rest rest := by
  cases s with
  | expr loc' e' =>
    obtain ⟨-, he⟩ := Stmt.expr.inj h
    exact .ret he
  | _ => nomatch h

end Yields

/-! ## If -/

/-- What stands behind the body of an `if` is read back: another `if` or a block. -/
def Stmt.ReadsBehindElse (s : Stmt) : Prop :=
  ∀ rest, Yields (Grammar.otherwise .full) (·.shape = s.shape) (s.word ++ .punctuation .semicolon :: rest)
    (.punctuation .semicolon :: rest)

namespace Stmt

theorem readsBehindElse_block {body : Block} (h : body.Reads) : (block body).ReadsBehindElse := by
  intro rest
  obtain ⟨tail, htail⟩ := body.exists_word
  have hread := h (.punctuation .semicolon :: rest)
  rw [word_block, htail] at *
  refine .ifNotAt rfl (.ifAt rfl (.map (hread.conseq fun body' hb => ?_)))
  rw [shape, shape, hb]

theorem readsBehindElse_if {init otherwise : Option Stmt} {cond : Expr} {body : Block}
    (h : (Stmt.if loc init cond body otherwise).Reads) : (Stmt.if loc init cond body otherwise).ReadsBehindElse := by
  intro rest
  have hread := h.yields rest
  rw [word_if] at *
  refine .ifAt rfl ?_
  rw [stmt_full]
  exact hread

theorem reads_if {init otherwise : Option Stmt} {cond : Expr} {body : Block} (hinit : ∀ s ∈ init, s.ReadsAsSimple (-1))
    (hcond : cond.ReadsAsValue (-1)) (hopens : cond.opensBody (-1) = false) (hbody : body.Reads)
    (hotherwise : ∀ s ∈ otherwise, s.ReadsBehindElse) : (Stmt.if loc init cond body otherwise).Reads where
  starts tail := by
    rw [word_if]
    rfl
  yields rest := by
    obtain ⟨tail, htail⟩ := body.exists_word
    have hsecond : ∀ s ∈ some (expr loc cond), s.ReadsAsSimple (-1) := by
      rintro _ ⟨⟩
      exact readsAsSimple_expr hcond
    have hheader : ∀ input, Yields (ifHeader .full) (fun r => shapeOfStmt? r.1 = shapeOfStmt? init ∧ r.2.shape = cond.shape)
        (initWord init ++ (cond.word ++ .punctuation .lBrace :: input)) (.punctuation .lBrace :: input) := by
      intro input
      have hstart := Yields.startsValue_header hinit hsecond (fun _ h => nomatch h) (.punctuation .lBrace :: input)
      refine .ifNotAt (TokenKind.sameKind_of_startsValue hstart rfl) (.bind (.header hinit hsecond ?_ fun _ h => nomatch h) ?_)
      · rintro _ ⟨⟩
        exact hopens
      · rintro ⟨init', _ | s'⟩ ⟨hi, hs⟩
        · nomatch hs
        · exact .bind (.headerExpr (Option.some.inj hs)) fun cond' hc => .ret ⟨hi, hc⟩
    have hbody := hbody (otherwiseWord otherwise ++ .punctuation .semicolon :: rest)
    rw [htail, List.cons_append] at hbody
    rw [word_if, htail, List.cons_append, List.append_assoc, List.append_assoc, List.append_assoc, List.cons_append]
    refine .current fun _ => .consume fun _ => .bind (hheader _) ?_
    rintro ⟨init', cond'⟩ ⟨hi, hc⟩
    refine .bind hbody fun body' hb => ?_
    cases otherwise with
    | none =>
      refine .ifNotAccept rfl (.ret ?_)
      rw [shape, shape, hi, hc, hb]
    | some s =>
      refine .ifAccept rfl (.bind (hotherwise s rfl rest) fun s' hs => .ret ?_)
      rw [shape, shape, hi, hc, hb, shapeOfStmt?, shapeOfStmt?, hs]

end Stmt

/-! ## Switch and select -/

/-- In the braces of a switch, the word of a clause is read back. -/
def CaseClause.Reads (c : CaseClause) (ofTypes : Bool) : Prop :=
  ∀ rest, endsStatements (nextKind rest) = true → Yields (Grammar.caseClause .full ofTypes) (·.shape = c.shape) (c.word ++ rest) rest

/-- In the braces of a select, the word of a clause is read back. -/
def CommClause.Reads (c : CommClause) : Prop :=
  ∀ rest, endsStatements (nextKind rest) = true → Yields (Grammar.commClause .full) (·.shape = c.shape) (c.word ++ rest) rest

/-- What a clause of a select waits for is read back. -/
def Stmt.ReadsAsCommunication (s : Stmt) : Prop :=
  ∀ rest,
    Yields (Grammar.communication .full) (·.shape = s.shape) (s.word ++ .punctuation .colon :: rest) (.punctuation .colon :: rest)

namespace Yields

/-- Clauses in braces: where the next one starts or the brace stands, the statements of a clause end. -/
theorem clauses {α β : Type} {S : α → β → Prop} {word : β → List TokenKind} {clause : Parse α} (hends : Ends (clausePass clause))
    {xs : List β} (hstart : ∀ x ∈ xs, ∀ tail, startsClause (nextKind (word x ++ tail)) = true)
    (hitem : ∀ x ∈ xs, ∀ tail, endsStatements (nextKind tail) = true → Yields clause (S · x) (word x ++ tail) tail) :
    Yields (Grammar.clauses clause) (List.Forall₂ S · xs) (Stmt.clausesWord (xs.map word) ++ rest) rest := by
  have hstarts : ∀ kind, startsClause kind = true → endsStatements kind = true
      ∧ (kind.sameKind Punctuation.rBrace || kind.sameKind .eof) = false := by
    intro kind hkind
    rcases Bool.or_eq_true_iff.1 hkind with h | h <;> obtain rfl := (TokenKind.Bare.sameKind_iff kind).1 h <;> exact ⟨rfl, rfl⟩
  rw [Stmt.clausesWord, List.cons_append, List.append_assoc, ← List.flatMap_def]
  refine .expect rfl fun _ => .bind (loopItems hends (F := fun kind => endsStatements kind = true) rfl (fun acc => ?_) xs
    (fun x hx tail => (hstarts _ (hstart x hx tail)).1) (fun x hx acc tail htail => ?_) #[]) fun as has =>
      .expect rfl fun _ => .ret has.forall₂
  · exact .current fun _ => .yes rfl (.ret rfl)
  · have hx' := hstart x hx tail
    refine .current fun _ => .no (ne_true_of_eq_false (hstarts _ hx').2) (.yes hx' ?_)
    exact .bind (hitem x hx tail htail) fun a ha => .ret ⟨_, rfl, a, rfl, ha⟩

/-- The start of a clause, up to its colon: `default`, or `case` and what the clause is for. -/
theorem clauseStart {α β : Type} {P : Option α → Prop} {R : β → Prop} {label : Parse α} {x : Option (List TokenKind)}
    {k : Token → Option α → Parse β} {after : List TokenKind} (hnone : x = none → P none)
    (hsome : ∀ w ∈ x, Yields label (fun a => P (some a)) (w ++ .punctuation .colon :: rest) (.punctuation .colon :: rest))
    (hk : ∀ here a, P a → Yields (k here a) R rest after) :
    Yields (do
      let here ← Parse.consume
      let a ← Grammar.clauseLabel? here label
      let _ ← Parse.expect Punctuation.colon
      k here a) R (labelWord x ++ rest) after := by
  cases x with
  | none => exact .consume fun loc => .expect rfl fun _ => hk ⟨_, loc⟩ none (hnone rfl)
  | some w =>
    rw [labelWord, List.cons_append, List.append_assoc]
    exact .consume fun loc => .bind (.map (hsome w rfl)) fun a ha => .expect rfl fun _ => hk ⟨_, loc⟩ a ha

/-- Types between commas. -/
theorem caseTypes {ts : List Expr} (hne : ts ≠ []) (h : ∀ t ∈ ts, t.ReadsAsType false) :
    Yields (caseList .full true) (List.Forall₂ (fun a t => a.shape = t.shape) · ts) (exprsWord ts ++ .punctuation .colon :: rest)
      (.punctuation .colon :: rest) := by
  refine .bind (separated loopsEnd_full.types rfl hne fun t ht tail htail => .type (h t ht) ?_) fun _ hr => .ret hr
  rcases htail with htail | ⟨rfl, -⟩
  · rw [htail]
    rfl
  · rfl

/-- Expressions between commas. -/
theorem caseValues {es : List Expr} (hne : es ≠ []) (h : ∀ e ∈ es, e.ReadsAsValue 0) :
    Yields (caseList .full false) (List.Forall₂ (fun a e => a.shape = e.shape) · es) (exprsWord es ++ .punctuation .colon :: rest)
      (.punctuation .colon :: rest) :=
  .bind (.exprList hne h rfl (.inl rfl)) fun _ hr => .ret hr

end Yields

/-- A clause whose list and statements are read back is read back. -/
theorem CaseClause.reads {c : CaseClause} {ofTypes : Bool} (hbody : ∀ s ∈ c.body, s.Reads)
    (hlist : ∀ es ∈ c.list, ∀ rest, Yields (caseList .full ofTypes) (List.Forall₂ (fun a e => a.shape = e.shape) · es)
      (exprsWord es ++ .punctuation .colon :: rest) (.punctuation .colon :: rest)) : c.Reads ofTypes := by
  intro rest hrest
  obtain ⟨loc, list, body⟩ := c
  rw [word_mk, List.append_assoc]
  refine .clauseStart (P := fun r => shapeOfCaseList r = shapeOfCaseList list) (fun hnone => ?_) (fun w hw => ?_) fun here list' hl =>
    .bind (.statements hbody hrest) fun ss hss => .ret ?_
  · rw [Option.map_eq_none_iff.1 hnone]
  · obtain ⟨es, rfl, rfl⟩ := Option.map_eq_some_iff.1 hw
    exact (hlist es rfl _).conseq fun r hr => congrArg some (shapes_congr shapesOfExprs_eq hr)
  · rw [shape, shape, hl, shapes_congr shapesOfStmts_eq hss]

theorem CaseClause.startsClause_word (c : CaseClause) (tail : List TokenKind) : startsClause (nextKind (c.word ++ tail)) = true := by
  obtain ⟨loc, list, body⟩ := c
  rw [word_mk]
  cases list <;> rfl

theorem CommClause.reads {c : CommClause} (hbody : ∀ s ∈ c.body, s.Reads) (hcomm : ∀ s ∈ c.comm, s.ReadsAsCommunication) :
    c.Reads := by
  intro rest hrest
  obtain ⟨loc, comm, body⟩ := c
  rw [word_mk, List.append_assoc]
  refine .clauseStart (P := fun r => shapeOfStmt? r = shapeOfStmt? comm) (fun hnone => ?_) (fun w hw => ?_) fun here comm' hc =>
    .bind (.statements hbody hrest) fun ss hss => .ret ?_
  · rw [Option.map_eq_none_iff.1 hnone]
  · obtain ⟨s, rfl, rfl⟩ := Option.map_eq_some_iff.1 hw
    exact (hcomm s rfl _).conseq fun r hr => congrArg some hr
  · rw [shape, shape, hc, shapes_congr shapesOfStmts_eq hss]

theorem CommClause.startsClause_word (c : CommClause) (tail : List TokenKind) : startsClause (nextKind (c.word ++ tail)) = true := by
  obtain ⟨loc, comm, body⟩ := c
  rw [word_mk]
  cases comm <;> rfl

/-- The header of a switch, which may be empty. -/
theorem Yields.switchHeader {init second : Option Stmt} (hinit : ∀ s ∈ init, s.ReadsAsSimple (-1))
    (hsecond : ∀ s ∈ second, s.ReadsAsSimple (-1)) (hopens : ∀ s ∈ second, s.opensBody (-1) = false) :
    Yields (Grammar.switchHeader .full) (fun r => shapeOfStmt? r.1 = shapeOfStmt? init ∧ shapeOfStmt? r.2 = shapeOfStmt? second)
      (Stmt.initWord init ++ (wordOf? Stmt.word second ++ .punctuation .lBrace :: rest)) (.punctuation .lBrace :: rest) := by
  by_cases hne : init = none → second ≠ none
  · have hstart := startsValue_header hinit hsecond hne (.punctuation .lBrace :: rest)
    exact .ifNotAt (TokenKind.sameKind_of_startsValue hstart rfl) (header hinit hsecond hopens hne)
  · obtain ⟨rfl, hnone⟩ := Classical.not_imp.1 hne
    obtain rfl := Classical.not_not.1 hnone
    exact .ifAt rfl (.ret ⟨rfl, rfl⟩)

namespace Stmt

variable {clauses : List CaseClause} {init : Option Stmt}

/-- A switch on values. -/
theorem reads_switch {tag : Option Expr} (hinit : ∀ s ∈ init, s.ReadsAsSimple (-1)) (htag : ∀ e ∈ tag, e.ReadsAsValue (-1))
    (hopens : ∀ e ∈ tag, e.opensBody (-1) = false ∧ isTypeGuard e = false) (hclauses : ∀ c ∈ clauses, c.Reads false) :
    (switch loc init tag clauses).Reads where
  starts tail := by
    rw [word_switch]
    rfl
  yields rest := by
    have hlist : Yields (Grammar.clauses (caseClause .full false)) (fun r => shapesOfCases r = shapesOfCases clauses)
        (clausesWord (clauses.map CaseClause.word) ++ .punctuation .semicolon :: rest) (.punctuation .semicolon :: rest) :=
      (Yields.clauses (loopsEnd_full.cases false) (fun c _ => c.startsClause_word) hclauses).conseq
        fun _ hcs => shapes_congr shapesOfCases_eq hcs
    rw [word_switch, List.cons_append, List.append_assoc, List.append_assoc]
    refine .current fun _ => .consume fun _ => ?_
    cases tag with
    | none =>
      have hsecond : ∀ s ∈ (none : Option Stmt), s.ReadsAsSimple (-1) := by rintro _ ⟨⟩
      refine .bind (.switchHeader hinit hsecond (by rintro _ ⟨⟩)) ?_
      rintro ⟨init', _ | s'⟩ ⟨hi, hs⟩
      · refine .bind hlist fun cs hcs => .ret ?_
        rw [shape, shape, hi, hcs]
      · cases hs
    | some e =>
      obtain ⟨hopens, hguard⟩ := hopens e rfl
      have hsecond : ∀ s ∈ some (expr loc e), s.ReadsAsSimple (-1) := by
        rintro _ ⟨⟩
        exact readsAsSimple_expr (htag e rfl)
      refine .bind (.switchHeader hinit hsecond ?_) ?_
      · rintro _ ⟨⟩
        exact hopens
      · rintro ⟨init', _ | s'⟩ ⟨hi, hs⟩
        · cases hs
        · have hs := Option.some.inj hs
          have hnot : isTypeSwitchGuard s' = false := by
            rw [← isTypeSwitchGuard_shape, hs, isTypeSwitchGuard_shape]
            exact hguard
          refine .no (ne_true_of_eq_false hnot) (.bind hlist fun cs hcs => .bind (.headerExpr hs) fun e' he => .ret ?_)
          rw [shape, shape, hi, hcs, shapeOfExpr?, shapeOfExpr?, he]

/-- A guard of a type switch takes no body. -/
theorem opensBody_of_isTypeSwitchGuard {s : Stmt} (h : isTypeSwitchGuard s = true) (level : Int) : s.opensBody level = false := by
  have hguard : ∀ e : Expr, isTypeGuard e = true → e.opensBody level = false := by
    intro e he
    cases e with
    | assertion => rfl
    | _ => nomatch he
  cases s with
  | expr loc e => exact hguard e h
  | assign loc op left right =>
    cases op with
    | define =>
      match left, right with
      | [_], [e] => exact hguard e h
      | [], _ | _ :: _ :: _, _ | [_], [] | [_], _ :: _ :: _ => nomatch h
    | _ => nomatch h
  | _ => nomatch h

theorem reads_typeSwitch {guard : Stmt} (hinit : ∀ s ∈ init, s.ReadsAsSimple (-1)) (hguard : guard.ReadsAsSimple (-1))
    (hkind : isTypeSwitchGuard guard = true) (hclauses : ∀ c ∈ clauses, c.Reads true) :
    (typeSwitch loc init guard clauses).Reads where
  starts tail := by
    rw [word_typeSwitch]
    rfl
  yields rest := by
    have hsecond : ∀ s ∈ some guard, s.ReadsAsSimple (-1) := by
      rintro _ ⟨⟩
      exact hguard
    rw [word_typeSwitch, List.cons_append, List.append_assoc, List.append_assoc]
    refine .current fun _ => .consume fun _ => .bind (.switchHeader hinit hsecond ?_) ?_
    · rintro _ ⟨⟩
      exact opensBody_of_isTypeSwitchGuard hkind (-1)
    · rintro ⟨init', _ | s'⟩ ⟨hi, hs⟩
      · nomatch hs
      · have hs := Option.some.inj hs
        have hkind' : isTypeSwitchGuard s' = true := by
          rw [← isTypeSwitchGuard_shape, hs, isTypeSwitchGuard_shape]
          exact hkind
        refine .yes hkind' ?_
        refine .bind (.clauses (loopsEnd_full.cases true) (fun c _ => c.startsClause_word) hclauses) fun cs hcs => .ret ?_
        rw [shape, shape, hi, hs, shapes_congr shapesOfCases_eq hcs]

/-- A receive. -/
theorem readsAsCommunication_expr {e : Expr} (h : e.ReadsAsValue 0) : (expr loc e).ReadsAsCommunication := by
  intro rest
  refine .current fun _ => .bind (.singleExpr h rfl (.inl rfl)) ?_
  rintro _ ⟨e', rfl, he⟩
  refine .current fun _ => .checkAtMost (le_refl 1) (.ret ?_)
  rw [shape, shape, he]

theorem readsAsCommunication_send {channel value : Expr} (hchannel : channel.ReadsAsValue 0) (hvalue : value.ReadsAsValue 0) :
    (send loc channel value).ReadsAsCommunication := by
  intro rest
  rw [word_send, List.append_assoc, List.cons_append]
  refine .current fun _ => .bind (.singleExpr hchannel rfl (.inl rfl)) ?_
  rintro _ ⟨channel', rfl, hc⟩
  refine .current fun _ => .consume fun _ => .checkAtMost (le_refl 1) (.bind (hvalue.yields _ (.inl rfl)) fun value' hv => .ret ?_)
  rw [shape, shape, hc, hv]

/-- A receive whose values are assigned. -/
theorem readsAsCommunication_assign {op : Operator} {left : List Expr} {value : Expr} (hop : op = .assign ∨ op = .define)
    (hne : left ≠ []) (htwo : left.length ≤ 2) (hleft : ∀ e ∈ left, e.ReadsAsValue 0) (hvalue : value.ReadsAsValue 0) :
    (assign loc op left [value]).ReadsAsCommunication := by
  intro rest
  have hcloses : (TokenKind.operator op).closes = true := by rcases hop with rfl | rfl <;> rfl
  have hword : (assign loc op left [value]).word = exprsWord left ++ .operator op :: value.word := word_assign loc op left [value]
  rw [hword, List.append_assoc, List.cons_append]
  refine .current fun _ => .bind (.exprList hne hleft rfl (.inl hcloses)) ?_
  rintro ⟨first, others⟩ hl
  have hinto : ∀ loc', Yields (receiveInto .full op (first :: others) loc') (·.shape = (assign loc op left [value]).shape)
      (.operator op :: (value.word ++ .punctuation .colon :: rest)) (.punctuation .colon :: rest) := by
    refine fun loc' => .consume fun _ => .checkAtMost (hl.length_eq.trans_le htwo) ?_
    refine .bind (hvalue.yields _ (.inl rfl)) fun value' hv => .ret ?_
    have hvalues : shapesOfExprs [value'] = shapesOfExprs [value] := congrArg (fun e => [e]) hv
    rw [shape, shape, shapes_congr shapesOfExprs_eq hl, hvalues]
  refine .current fun _ => ?_
  rcases hop with rfl | rfl <;> exact hinto _

theorem reads_select {clauses : List CommClause} (hclauses : ∀ c ∈ clauses, c.Reads) : (select loc clauses).Reads where
  starts tail := rfl
  yields rest := by
    rw [word_select, List.cons_append]
    refine .current fun _ => .consume fun _ =>
      .bind (.clauses loopsEnd_full.comms (fun c _ => c.startsClause_word) hclauses) fun cs hcs =>
      .ret ?_
    rw [shape, shape, shapes_congr shapesOfComms_eq hcs]

end Stmt

/-! ## For -/

/-- The header is made of an init statement, a condition and a post statement like these. -/
def Grammar.LoopHeader.IsClauses (init : Option Stmt) (cond : Option Expr) (post : Option Stmt) : LoopHeader → Prop
  | .clauses init' cond' post' => shapeOfStmt? init' = shapeOfStmt? init
    ∧ shapeOfStmt? cond' = shapeOfStmt? (cond.map (.expr default)) ∧ shapeOfStmt? post' = shapeOfStmt? post
  | .range _ _ _ => False

/-- The header is a range clause with variables and an operand like these. -/
def Grammar.LoopHeader.IsRange (vars : List Expr) (define : Bool) (operand : Expr) : LoopHeader → Prop
  | .clauses _ _ _ => False
  | .range vars' define' operand' =>
    List.Forall₂ (fun a e => a.shape = e.shape) vars' vars ∧ define' = define ∧ operand'.shape = operand.shape

namespace Yields

variable {init post : Option Stmt} {cond : Option Expr}

theorem wordOf_expr (cond : Option Expr) : wordOf? Expr.word cond = wordOf? Stmt.word (cond.map (.expr default)) := by
  cases cond <;> rfl

theorem readsAsSimple_cond (hcond : ∀ e ∈ cond, e.ReadsAsValue (-1)) : ∀ s ∈ cond.map (Stmt.expr default), s.ReadsAsSimple (-1) := by
  intro s hs
  obtain ⟨e, he, rfl⟩ := Option.map_eq_some_iff.1 hs
  exact Stmt.readsAsSimple_expr (hcond e he)

/-- What comes behind the init statement of a loop. -/
theorem loopClauses {init' : Option Stmt} (hinit : shapeOfStmt? init' = shapeOfStmt? init) (hcond : ∀ e ∈ cond, e.ReadsAsValue (-1))
    (hpost : ∀ s ∈ post, s.ReadsAsSimple (-1)) (hopens : ∀ s ∈ post, s.opensBody (-1) = false) :
    Yields (Grammar.loopClauses .full init') (LoopHeader.IsClauses init cond post)
      (.punctuation .semicolon :: (wordOf? Expr.word cond ++ .punctuation .semicolon
        :: (wordOf? Stmt.word post ++ .punctuation .lBrace :: rest))) (.punctuation .lBrace :: rest) := by
  rw [wordOf_expr]
  refine .consume fun _ => ?_
  refine .bind (headerStmtBefore? rfl (readsAsSimple_cond hcond) (fun _ => rfl) fun _ _ => .inl rfl) fun cond' hc => ?_
  refine .expect rfl fun _ => ?_
  refine .bind (headerStmtBefore? rfl hpost (fun _ => rfl) fun s hs => .inr ⟨rfl, hopens s hs⟩) fun post' hp => ?_
  exact .ret ⟨hinit, hc, hp⟩

/-- The header of a loop that is no range clause. -/
theorem loopHeader (hinit : ∀ s ∈ init, s.ReadsAsSimple (-1)) (hcond : ∀ e ∈ cond, e.ReadsAsValue (-1))
    (hpost : ∀ s ∈ post, s.ReadsAsSimple (-1)) (hopens : init = none → post = none → ∀ e ∈ cond, e.opensBody (-1) = false)
    (hopens' : ∀ s ∈ post, s.opensBody (-1) = false) :
    Yields (Grammar.loopHeader .full) (LoopHeader.IsClauses init cond post)
      (Stmt.loopWord init cond post ++ .punctuation .lBrace :: rest) (.punctuation .lBrace :: rest) := by
  -- A first statement may be the init statement or, on its own, the condition.
  have hfirst : ∀ (s : Stmt) input, s.ReadsAsSimple (-1) →
      Yields (Grammar.loopHeaderFrom .full) (LoopHeader.IsClauses init cond post) (s.word ++ input) (.punctuation .lBrace :: rest) →
      Yields (Grammar.loopHeader .full) (LoopHeader.IsClauses init cond post) (s.word ++ input) (.punctuation .lBrace :: rest) := by
    intro s input hs h
    have hstart := hs.starts input
    exact .ifNotAt (TokenKind.sameKind_of_startsValue hstart rfl) (.ifNotAccept (TokenKind.sameKind_of_startsValue hstart rfl)
      (.ifNotAt (TokenKind.sameKind_of_startsValue hstart rfl) h))
  cases init with
  | some s =>
    have hs := hinit s rfl
    rw [Stmt.loopWord, Option.isSome_some, Bool.true_or, if_pos rfl, wordOf?, List.append_assoc, List.cons_append, List.append_assoc,
      List.cons_append]
    refine hfirst s _ hs (.bind (hs.yields .loopHeader _ (.inl rfl)) ?_)
    rintro _ ⟨s', rfl, hs'⟩
    exact .ifAt rfl (loopClauses (congrArg some hs') hcond hpost hopens')
  | none =>
    cases post with
    | some s =>
      have hword : Stmt.loopWord none cond (some s) ++ .punctuation .lBrace :: rest = .punctuation .semicolon
          :: (wordOf? Expr.word cond ++ .punctuation .semicolon :: (wordOf? Stmt.word (some s) ++ .punctuation .lBrace :: rest)) := by
        simp [Stmt.loopWord, wordOf?]
      rw [hword]
      exact .ifNotAt rfl (.ifNotAccept rfl (.ifAt rfl (loopClauses rfl hcond hpost hopens')))
    | none =>
      cases cond with
      | none => exact .ifAt rfl (.ret ⟨rfl, rfl, rfl⟩)
      | some e =>
        have he := hcond e rfl
        have hs : (Stmt.expr default e).ReadsAsSimple (-1) := Stmt.readsAsSimple_expr he
        refine hfirst (.expr default e) _ hs (.bind (hs.yields .loopHeader _ (.inr ⟨rfl, hopens rfl rfl e rfl⟩)) ?_)
        rintro _ ⟨s', rfl, hs'⟩
        exact .ifNotAt rfl (.ret ⟨rfl, congrArg some hs', rfl⟩)

/-- Variables and a range clause behind them. -/
theorem rangeClause {vars : List Expr} {define : Bool} {operand : Expr} (hne : vars ≠ []) (htwo : vars.length ≤ 2)
    (hvars : ∀ e ∈ vars, e.ReadsAsValue (-1)) (hoperand : operand.ReadsAsValue (-1)) (hopens : operand.opensBody (-1) = false) :
    Yields (simple .full .loopHeader (-1)) (fun r => ∃ vars' operand', r = .range vars' define operand'
        ∧ List.Forall₂ (fun a e => a.shape = e.shape) vars' vars ∧ operand'.shape = operand.shape)
      (exprsWord vars ++ .operator (Layout.rangeOp define) :: .keyword .range :: (operand.word ++ .punctuation .lBrace :: rest))
      (.punctuation .lBrace :: rest) := by
  have hop : (Layout.rangeOp define).family = .assignment := by cases define <;> rfl
  have hdefine : (Layout.rangeOp define == .define) = define := by cases define <;> rfl
  have hposition : (SimplePosition.loopHeader == .loopHeader
      && (Layout.rangeOp define == .assign || Layout.rangeOp define == .define)) = true := by
    cases define <;> rfl
  refine .current fun _ => .bind (.exprList hne hvars rfl (.inl (TokenKind.closes_operator (.inr hop)))) ?_
  rintro ⟨first, others⟩ hl
  refine .simpleFrom (.inr hop) ?_
  rw [simpleBy, hop]
  refine .consume fun _ => .andM ?_
  rw [hposition]
  refine .ifAccept rfl (.bind (hoperand.yields _ (.inr ⟨rfl, hopens⟩)) fun operand' ho => .checkAtMost ?_ (.ret ?_))
  · exact hl.length_eq.trans_le htwo
  · exact ⟨_, _, by rw [hdefine], hl, ho⟩

/-- The header of a loop over the elements of something. -/
theorem rangeHeader {key value : Option Expr} {define : Bool} {operand : Expr} (hnone : key = none → value = none ∧ define = false)
    (hkey : ∀ e ∈ key, e.ReadsAsValue (-1)) (hvalue : ∀ e ∈ value, e.ReadsAsValue (-1)) (hoperand : operand.ReadsAsValue (-1))
    (hopens : operand.opensBody (-1) = false) :
    Yields (Grammar.loopHeader .full) (LoopHeader.IsRange (key.toList ++ value.toList) define operand)
      (Stmt.rangeWord key value define ++ .keyword .range :: (operand.word ++ .punctuation .lBrace :: rest))
      (.punctuation .lBrace :: rest) := by
  cases key with
  | none =>
    obtain ⟨rfl, rfl⟩ := hnone rfl
    have hread := hoperand.yields (.punctuation .lBrace :: rest) (.inr ⟨rfl, hopens⟩)
    exact .ifNotAt rfl (.ifAccept rfl (.bind hread fun operand' ho => .ret ⟨.nil, rfl, ho⟩))
  | some k =>
    have hk := hkey k rfl
    have hword : Stmt.rangeWord (some k) value define ++ .keyword .range :: (operand.word ++ .punctuation .lBrace :: rest)
        = exprsWord (k :: value.toList) ++ .operator (Layout.rangeOp define)
          :: .keyword .range :: (operand.word ++ .punctuation .lBrace :: rest) := by
      cases value <;> simp [Stmt.rangeWord, exprsWord, commas]
    have hvars : ∀ e ∈ k :: value.toList, e.ReadsAsValue (-1) := by
      intro e he
      rcases List.mem_cons.1 he with rfl | he
      · exact hk
      · exact hvalue e (Option.mem_toList.1 he)
    have htwo : (k :: value.toList).length ≤ 2 := by cases value <;> simp
    have hstart := hk.starts ((value.toList.map Expr.word).flatMap (.punctuation .comma :: ·) ++ .operator (Layout.rangeOp define)
      :: .keyword .range :: (operand.word ++ .punctuation .lBrace :: rest))
    rw [← List.append_assoc, ← exprsWord_cons] at hstart
    rw [hword]
    refine .ifNotAt (TokenKind.sameKind_of_startsValue hstart rfl) (.ifNotAccept (TokenKind.sameKind_of_startsValue hstart rfl)
      (.ifNotAt (TokenKind.sameKind_of_startsValue hstart rfl) ?_))
    refine .bind (rangeClause (List.cons_ne_nil k _) htwo hvars hoperand hopens) ?_
    rintro _ ⟨vars', operand', rfl, hv, ho⟩
    exact .ret ⟨hv, rfl, ho⟩

end Yields

namespace Stmt

theorem reads_for {init post : Option Stmt} {cond : Option Expr} {body : Block} (hinit : ∀ s ∈ init, s.ReadsAsSimple (-1))
    (hcond : ∀ e ∈ cond, e.ReadsAsValue (-1)) (hpost : ∀ s ∈ post, s.ReadsAsSimple (-1))
    (hopens : init = none → post = none → ∀ e ∈ cond, e.opensBody (-1) = false) (hopens' : ∀ s ∈ post, s.opensBody (-1) = false)
    (hbody : body.Reads) : (Stmt.for loc init cond post body).Reads where
  starts tail := rfl
  yields rest := by
    obtain ⟨tail, htail⟩ := body.exists_word
    have hbody := hbody (.punctuation .semicolon :: rest)
    rw [htail] at hbody
    rw [word_for, htail, List.cons_append, List.append_assoc]
    refine .current fun _ => .consume fun _ => .bind (.loopHeader hinit hcond hpost hopens hopens') ?_
    rintro (⟨init', cond', post'⟩ | _) hh
    · obtain ⟨hi, hc, hp⟩ := hh
      refine .bind hbody fun body' hb => ?_
      cases cond with
      | none =>
        cases cond' with
        | none => exact .ret (by rw [shape, shape, hi, hp, hb])
        | some s => cases hc
      | some e =>
        cases cond' with
        | none => cases hc
        | some s =>
          refine .bind (.headerExpr (Option.some.inj hc)) fun e' he => .ret ?_
          rw [shape, shape, hi, hp, hb, shapeOfExpr?, shapeOfExpr?, he]
    · exact hh.elim

theorem reads_range {key value : Option Expr} {define : Bool} {operand : Expr} {body : Block}
    (hnone : key = none → value = none ∧ define = false) (hkey : ∀ e ∈ key, e.ReadsAsValue (-1))
    (hvalue : ∀ e ∈ value, e.ReadsAsValue (-1)) (hoperand : operand.ReadsAsValue (-1)) (hopens : operand.opensBody (-1) = false)
    (hbody : body.Reads) : (Stmt.range loc key value define operand body).Reads where
  starts tail := by
    rw [word_range loc operand body hnone]
    rfl
  yields rest := by
    obtain ⟨tail, htail⟩ := body.exists_word
    have hbody := hbody (.punctuation .semicolon :: rest)
    rw [htail] at hbody
    rw [word_range loc operand body hnone, htail, List.cons_append, List.append_assoc, List.cons_append, List.append_assoc]
    refine .current fun _ => .consume fun _ => .bind (.rangeHeader hnone hkey hvalue hoperand hopens) ?_
    rintro (_ | ⟨vars, define', operand'⟩) hh
    · exact hh.elim
    · obtain ⟨hv, rfl, ho⟩ := hh
      have hvars : shapeOfExpr? vars[0]? = shapeOfExpr? key ∧ shapeOfExpr? vars[1]? = shapeOfExpr? value := by
        cases key with
        | none =>
          obtain ⟨rfl, -⟩ := hnone rfl
          cases hv
          exact ⟨rfl, rfl⟩
        | some k =>
          cases value with
          | none =>
            obtain _ | ⟨hk, _ | _⟩ := hv
            exact ⟨congrArg some hk, rfl⟩
          | some v =>
            obtain _ | ⟨hk, _ | ⟨hv, _ | _⟩⟩ := hv
            exact ⟨congrArg some hk, congrArg some hv⟩
      refine .bind hbody fun body' hb => .ret ?_
      rw [shape, shape, hvars.1, hvars.2, ho, hb]

end Stmt

end GoSyntax
