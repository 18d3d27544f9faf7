import GoSyntax.Grammar.File
import GoSyntax.Proofs.Reading.Statement

/-!
# Reading files and fragments

A declaration takes a token: one that starts none is skipped, since recovery does not stop at it. So the declarations end only where
the input does.
-/

namespace GoSyntax

open Parse

/-- Productions that are entered again only behind a token agree on one token more. -/
theorem Agrees.deepen {n : Nat} {p q : Productions} (h : Agrees n p q) : Agrees (n + 1) p.deepen q.deepen where
  type? := Grammar.type?_reads h false
  noType _ _ _ _ := Grammar.type?_none p q false
  expr := Grammar.expr_reads h
  unary := Grammar.unary_reads h
  elementValue := Grammar.elementValue_reads h
  stmt := Grammar.stmt_reads h
  keywordStmt _ hk _ hm := Grammar.stmt_takes h _ (hm.trans (Nat.le_of_lt_succ hk))

/-- As many depths as tokens are enough: what stands below them is never reached. -/
theorem Agrees.deepenBy (p q : Productions) : ∀ d, Agrees d (p.deepenBy d) (q.deepenBy d)
  | 0 => .zero p q
  | d + 1 => (deepenBy p q d).deepen

namespace Grammar

variable {n m : Nat} {p q : Productions} {start : Cursor} {t u : Tally} {φ : Token → Prop}

/-! ## Declarations -/

/-- The `;` behind a declaration is read or reported as missing, unless there has been a report already. -/
theorem declEnd_same (quiet : Bool) :
    Same (Reached start m (t * .given (quiet = false)) φ) (declEnd quiet) (declEnd quiet)
      fun _ => Reached start m (t * .token Punctuation.semicolon) ⊤ := by
  have hgiven : t * .given (quiet = false) ≤ t := mul_le_of_le_one_right' (Tally.given_le_one _)
  refine .ifAccept (.pure fun _ hc => hc.done (mul_le_mul_left hgiven _)) ?_
  have hskip : Same (Reached start m (.lost t) ⊤) (skipTo Recovery.declarationStart) (skipTo Recovery.declarationStart)
      fun _ => Reached start m (t * .token Punctuation.semicolon) ⊤ := by
    refine (skipTo_reads m _).last le_rfl fun _ => (Tally.lost_mul_le_lost _ _).trans ?_
    exact Tally.le_of_words_eq_zero rfl (by simp)
  cases quiet with
  | true => exact hskip.weaken le_rfl (Tally.le_of_words_eq_zero (by simp [Tally.words_given_of_not]) (by simp)) fun _ _ => trivial
  | false =>
    refine .reportHere (fun _ => rfl) fun _ _ => hskip.weaken le_rfl ?_ fun _ _ => trivial
    exact Tally.mul_fault_le_lost (by simp) _

theorem receiver?_reads (h : Agrees n p q) : Reads n receiverTally (receiver? p) (receiver? q) := fun _ hm _ t =>
  .ifAt ((parameters_reads h false).map hm fun _ => le_rfl) (.ret (le_of_eq (mul_one t).symm))

theorem body?_reads (h : Agrees n p q) : Reads n (tally? Block.tally) (body? p) (body? q) := fun _ hm _ t =>
  .ifAt ((block_reads h).map hm fun _ => le_rfl) (.ret (le_of_eq (mul_one t).symm))

theorem funcDecl_takes (h : Agrees n p q) : Takes n (·.kind = Keyword.func) FuncDecl.tally (funcDecl p) (funcDecl q) := by
  intro m hm start t
  refine .consumeKind (fun _ => id) fun _ => (receiver?_reads h).bind hm fun receiver => (name_reads m).bind le_rfl fun name => ?_
  refine (signature_reads h).bind hm fun sig => (body?_reads h).bind hm fun body => .ret (le_of_eq ?_)
  simp only [FuncDecl.tally_mk, tally?, mul_assoc]

/-- A token that starts no declaration is skipped. -/
theorem badDecl_takes (n : Nat) :
    Takes n (fun a => a.kind ≠ .eof ∧ ¬Recovery.declarationStart.contains a.kind = true) Decl.tally badDecl badDecl := by
  intro m _ start t
  refine .current fun here hhere => .reportHere (fun _ => rfl) ?_
  rintro _ rfl
  refine (skipTo_takes m _).bind le_rfl ?_ fun _ => .ret ?_
  · rintro _ rfl (hstop | heof)
    · exact hhere.2 hstop
    · exact hhere.1 heof
  · exact Tally.le_of_words_eq_zero (by simp) (by simp [Decl.tally_bad])

/-- The end of a declaration is not asked for again if something in the declaration has been reported. -/
theorem declEnd_bind (before : Nat) {d : Decl} (hd : d.tally = u * .token Punctuation.semicolon) :
    Same (Reached start m (t * .given (before = 0) * u) φ)
      (do
        declEnd (before < (← reports))
        return d)
      (do
        declEnd (before < (← reports))
        return d) fun d => Reached start m (t * d.tally) ⊤ := by
  refine .reports fun now => .bind ((declEnd_same _).weaken le_rfl ?_ fun _ _ => trivial) fun _ => .ret (le_of_eq (by rw [hd, mul_assoc]))
  refine mul_le_mul' (mul_le_mul_left (mul_le_of_le_one_right' (Tally.given_le_one _)) u) (Tally.given_mono ?_)
  rintro rfl
  exact decide_eq_false (Nat.not_lt_zero before)

theorem decl_takes (h : Agrees n p q) : Takes n (·.kind ≠ .eof) Decl.tally (decl p) (decl q) := by
  intro m hm start t
  refine .current fun here hhere => .reports fun before => ?_
  obtain ⟨kind, loc⟩ := here
  have hbad : (∀ word ∈ [Keyword.const, .func, .import, .type, .var], kind ≠ .keyword word) →
      Same (Reached start (m + 1) (t * .given (before = 0)) (· = ⟨kind, loc⟩)) badDecl badDecl
        fun d => Reached start m (t * d.tally) ⊤ := fun hno => by
    refine (badDecl_takes m).last le_rfl ?_ fun d => mul_le_mul_left (mul_le_of_le_one_right' (Tally.given_le_one _)) _
    rintro _ rfl
    refine ⟨hhere, fun hstart => ?_⟩
    obtain ⟨word, hword, hkind⟩ := (TokenSet.contains_keywords _ _).1 hstart
    exact hno word hword hkind
  have hgroup : ∀ keyword : Keyword, kind = keyword → Same (Reached start (m + 1) (t * .given (before = 0)) (· = ⟨kind, loc⟩))
      (do
        let group ← declGroup p keyword
        declEnd (before < (← reports))
        return Decl.group loc group)
      (do
        let group ← declGroup q keyword
        declEnd (before < (← reports))
        return Decl.group loc group) fun d => Reached start m (t * d.tally) ⊤ := fun keyword hkind =>
    (declGroup_takes h keyword).bind hm (by rintro _ rfl; exact hkind) fun group => declEnd_bind before (Decl.tally_group loc group)
  cases kind with
  | keyword word =>
    cases word with
    | func =>
      exact (funcDecl_takes h).bind hm (by rintro _ rfl; rfl) fun func => declEnd_bind before (Decl.tally_func loc func)
    | const | var | type | «import» => exact hgroup _ rfl
    | _ => exact hbad (by decide)
  | _ => exact hbad fun _ _ => by rintro ⟨⟩

/-! ## Files -/

theorem packageClause_reads (n : Nat) :
    Reads n (fun name => .token Keyword.package * name.tally * .token Punctuation.semicolon) packageClause packageClause := by
  intro m _ start t
  refine .current fun here _ => .ifAccept ((name_reads m).bind le_rfl fun package => ?_) ?_
  · refine .bind ((declEnd_same false).weaken le_rfl (Tally.le_mul_given rfl _) fun _ _ => trivial) fun _ => .ret (le_of_eq ?_)
    simp only [mul_assoc]
  · exact .reportHere (fun _ => rfl) fun _ _ => .ret (Tally.mul_fault_le_of_placeholders (by simp) _)

/-- A pass ends the declarations only where the input ends. -/
theorem declPass_same (h : Agrees n p q) {T : Array Decl → Tally} (hT : ∀ xs x, T xs * x.tally ≤ T (xs.push x)) (hm : m < n)
    (ds : Array Decl) :
    Same (Reached start (m + 1) (T ds) ⊤) (declPass p ds) (declPass q ds)
      (Continues (fun ds => Reached start m (T ds) ⊤) fun ds => Reached start (m + 1) (T ds) (·.kind = .eof)) := by
  refine .ifAsk (isAt_asks .eof) (.pure fun _ hc => hc.mono le_rfl le_rfl And.right) ?_
  exact (decl_takes h).bind hm.le (fun _ => And.right) fun d => .pure fun _ hc => hc.done (hT ds d)

theorem declarations_same (h : Agrees n p q) (hm : m ≤ n) :
    Same (Reached start m t φ) (loop #[] (declPass p)) (loop #[] (declPass q))
      fun ds => Reached start m (t * (ds.toList.map Decl.tally).prod) (·.kind = .eof) := by
  refine .weaken (.loop (I := fun m ds => Reached start m (t * (ds.toList.map Decl.tally).prod) ⊤) (fun _ _ _ hc => hc.room)
    (fun _ _ _ hc => hc.tight) (fun k hk ds => ?_) le_rfl #[]) le_rfl (by simp) fun _ _ => trivial
  have hT : ∀ (xs : Array Decl) x, t * (xs.toList.map Decl.tally).prod * x.tally ≤ t * ((xs.push x).toList.map Decl.tally).prod :=
    fun xs x => by simp [mul_assoc]
  refine (declPass_same h hT (hk.trans_le hm) ds).conseq (fun _ hc => hc) fun r c hr => ?_
  cases r with
  | yield ds => exact hr
  | done ds => exact Reached.mono hr hk le_rfl id

theorem sourceFile_same (h : Agrees n p q) (hm : m ≤ n) :
    Same (Reached start m t φ) (sourceFile p) (sourceFile q) fun f => Reached start m (t * f.tally) (·.kind = .eof) := by
  refine .current fun here _ => (packageClause_reads m).bind le_rfl fun package => .bind (declarations_same h hm) fun ds => ?_
  refine .pure fun _ hc => hc.mono le_rfl (le_of_eq ?_) id
  simp only [SourceFile.tally_mk, mul_assoc]

/-! ## Fragments -/

theorem fragmentEnd_reads (n : Nat) : Reads n (fun _ => ⊤) fragmentEnd fragmentEnd := by
  intro m _ start t
  have hend : Reads m (fun _ => ⊤) (reportExpected "end of input") (reportExpected "end of input") :=
    reportExpected_reads m _ Tally.placeholders_top
  refine (accept_reads m).bind le_rfl fun b => .ifAsk (isAt_asks .eof) (.ret (mul_le_mul_right le_top t)) (hend.last le_rfl fun _ => ?_)
  rw [mul_assoc]
  exact mul_le_mul_right le_top t

theorem exprFragment_reads (h : Agrees n p q) : Reads n (fun e => e.tally * ⊤) (exprFragment p) (exprFragment q) := fun _ hm _ t =>
  (expr_reads h 0).bind (hm.trans (Nat.le_succ n)) fun _ => (fragmentEnd_reads _).bind le_rfl fun _ =>
    .ret (le_of_eq (mul_assoc t _ _))

theorem stmtFragment_reads (h : Agrees n p q) : Reads n (fun s => s.tally * ⊤) (stmtFragment p) (stmtFragment q) := fun _ hm _ t =>
  (stmt_reads h).bind (hm.trans (Nat.le_succ n)) fun _ => (fragmentEnd_reads _).bind le_rfl fun _ =>
    .ret (le_of_eq (mul_assoc t _ _))

end Grammar

end GoSyntax
