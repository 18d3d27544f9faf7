import GoSyntax.Proofs.Canonical.Reread
import GoSyntax.Tree.Outline

/-!
# Calls that spread an argument

A `...` behind the last argument of a call spreads it. The parser takes a `...` behind any argument and does not keep which one it was, so
that calls which should spread different arguments, or more than one of them, are read without a diagnostic as if they spread the last.
-/

namespace GoSyntax

open Parse Grammar Productions

namespace Grammar

open Cursor

variable {c : Cursor}

/-- Where a fragment ends and no token is left, the end of the input has been met. -/
theorem pending_fragmentEnd (h : (fragmentEnd c).2.kinds = []) : (fragmentEnd c).2.feed.pending = [] := by
  generalize hend : (Parse.accept Punctuation.semicolon c).2 = d
  have happly : (fragmentEnd c).2
      = ((if d.here.kind.sameKind .eof = true then Pure.pure () else reportExpected "end of input" : Parse Unit)
        (Parse.current d).2).2 := by
    rw [← hend]
    rfl
  rw [happly] at h ⊢
  by_cases heof : d.here.kind.sameKind .eof = true
  · rw [if_pos heof]
    exact Cursor.pending_look_eq_nil ((TokenKind.Bare.sameKind_iff _).1 heof)
  · rw [if_neg heof] at h
    have hkinds : d.kinds = [] := ((kinds_peek 0 (Parse.current d).2).trans (kinds_peek 0 d)).symm.trans h
    obtain ⟨hhere, -⟩ | ⟨ks, -, hks⟩ := d.kinds_cases
    · exact absurd ((TokenKind.Bare.sameKind_iff _).2 hhere) heof
    · rw [hkinds] at hks
      nomatch hks

theorem pending_exprFragment (h : (exprFragment full c).2.kinds = []) : (exprFragment full c).2.feed.pending = [] := by
  rw [exprFragment_apply] at h ⊢
  dsimp only at h ⊢
  exact pending_fragmentEnd h

end Grammar

variable {rest : List TokenKind} {e : Expr} {spelling : List TokenKind}

/-- An expression on its own is read with the `;` behind it. -/
theorem Yields.exprFragment {s : Nat} (hs : s ≤ 6) (h : e.ReadsWord spelling 0 s) :
    Yields (Grammar.exprFragment .full) (·.shape = e.shape) (spelling ++ [.punctuation .semicolon]) [] := by
  have hend : Yields fragmentEnd (fun _ => True) [.punctuation .semicolon] [] :=
    .accept rfl (.isAt .eof (.yes rfl (.ret trivial)))
  have hexpr : Yields (Grammar.expr .full 0) (·.shape = e.shape) (spelling ++ [.punctuation .semicolon]) [.punctuation .semicolon] := by
    rw [expr_eq_tight]
    exact h.tight hs le_rfl (Expr.leavesTo_of_closes (.inl rfl) le_rfl)
  exact .bind hexpr fun e' he => .bind hend fun _ _ => .ret he

/-- In a call any arguments may have a `...` behind them. The tree is that of the call that spreads its last argument if there is a `...` at
all, and nothing is reported but what is wrong in the text of the tokens themselves. -/
theorem parseExpr_spread (path : SourcePath) (bytes : List UInt8) (callee : Expr) (args : List (Expr × Bool))
    (hcallee : (callee.isOperand || callee.isTypeForm) = true ∧ callee.InGrammar 0)
    (hargs : ∀ arg ∈ args, arg.1.isValue = true ∧ arg.1.InGrammar 1)
    (hspelled : (tokenize path bytes).1.map Token.kind = callee.word ++ .punctuation .lParen :: (commas (args.map Expr.argumentWord)
      ++ [.punctuation .rParen, .punctuation .semicolon, .eof])) :
    (parseExpr path bytes).tree.shape = (Expr.call default callee (args.map Prod.fst) (args.any Prod.snd)).shape
      ∧ (parseExpr path bytes).diagnostics = (tokenize path bytes).2 := by
  have hcall : (Expr.call default callee (args.map Prod.fst) (args.any Prod.snd)).ReadsWord
      (callee.word ++ .punctuation .lParen :: (commas (args.map Expr.argumentWord) ++ [.punctuation .rParen])) 0 0 := by
    refine Expr.readsWord_call hcallee.1 ((callee.readsBack 0 hcallee.2).operand (Expr.rank_of_callee hcallee.1)) fun arg harg => ?_
    exact (arg.1.readsBack 1 (hargs arg harg).2).value (hargs arg harg).2 (hargs arg harg).1
  have hinput : (Cursor.start path bytes).kinds = callee.word ++ .punctuation .lParen :: (commas (args.map Expr.argumentWord)
      ++ [.punctuation .rParen]) ++ [.punctuation .semicolon] := by
    refine List.append_cancel_right ((kinds_tokenize path bytes).symm.trans (hspelled.trans ?_))
    simp
  obtain ⟨htree, hdiagnostics⟩ := parsed_of_run run_exprFragment path bytes
  rw [parseExpr, htree, hdiagnostics]
  exact (Yields.exprFragment (Nat.zero_le 6) hcall).parsed Bonded.exprFragment hinput pending_exprFragment

/-- `f(a..., b, c...)` is read as `f(a, b, c...)`. -/
theorem parseExpr_spread_first :
    (parseExpr ⟨0, "p.go"⟩ (Utf8.encode "f(a..., b, c...)".toList)).tree.shape
        = .call default (.ident default "f") [.ident default "a", .ident default "b", .ident default "c"] true
      ∧ (parseExpr ⟨0, "p.go"⟩ (Utf8.encode "f(a..., b, c...)".toList)).diagnostics = [] := by
  have hargs : ∀ arg ∈ [(Expr.ident default "a", true), (.ident default "b", false), (.ident default "c", true)],
      arg.1.isValue = true ∧ arg.1.InGrammar 1 := by
    simp [Expr.isValue, Expr.rank, Expr.InGrammar]
  obtain ⟨hshape, hdiagnostics⟩ := parseExpr_spread ⟨0, "p.go"⟩ (Utf8.encode "f(a..., b, c...)".toList) (.ident default "f") _
    ⟨rfl, trivial⟩ hargs (by decide +kernel)
  exact ⟨hshape, hdiagnostics.trans (by decide +kernel)⟩

/-- There are two files without a diagnostic, one with a `...` in front of a comma and the other without, that have the same tree. -/
theorem exists_spread_before_comma : ∃ (path : SourcePath) (bytes bytes' : List UInt8),
    [TokenKind.punctuation .ellipsis, .punctuation .comma] <:+: (tokenize path bytes).1.map Token.kind
      ∧ ¬[TokenKind.punctuation .ellipsis, .punctuation .comma] <:+: (tokenize path bytes').1.map Token.kind
      ∧ (parseFile path bytes).diagnostics = [] ∧ (parseFile path bytes').diagnostics = []
      ∧ ((parseFile path bytes).tree == (parseFile path bytes').tree) = true :=
  ⟨⟨0, "<input>"⟩, Utf8.encode "package p\nvar x = f(a..., b)\n".toList, Utf8.encode "package p\nvar x = f(a, b...)\n".toList,
    by decide +kernel, by decide +kernel, by decide +kernel, by decide +kernel, by decide +kernel⟩

end GoSyntax
