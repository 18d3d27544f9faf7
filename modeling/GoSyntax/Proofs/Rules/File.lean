import GoSyntax.Grammar.File
import GoSyntax.Proofs.Rules.Places
import GoSyntax.Proofs.Rules.Statements

/-!
# A file that is read without a report keeps the rules

The productions of every depth assure that what they give keeps the rules, so a file does. Nothing has to be known of the source but
that nothing was reported.
-/

namespace GoSyntax

open Assures

theorem Productions.assured_exhausted : exhausted.Assured := by
  have hmissing : Assures (fun _ => False) missingOperand :=
    current.step fun _ => (reportHere _).bind fun _ => .pure id
  have hstmt : Assures (fun _ => False) missingStmt := current.step fun _ => (reportExpected _).bind fun _ => .pure id
  refine ⟨.pure ?_, fun _ => ?_, fun _ => ?_, fun _ => ?_, ?_, fun c _ hlog => (hstmt c hlog).2.elim⟩
  · intro e he
    nomatch he
  · exact hmissing.weaken fun _ h => h.elim
  · exact hmissing.weaken fun _ h => h.elim
  · exact hmissing.weaken fun _ h => h.elim
  · exact hstmt.weaken fun _ h => h.elim

/-- Where the keyword comes next, the statement is an `if`. -/
theorem Grammar.stmt_eq_ifStmt (p : Productions) {c : Cursor} (hif : c.here.kind = Keyword.if) :
    stmt p c = ifStmt p (Parse.current c).2 := by
  have hhere : (Parse.current c).1.kind = Keyword.if := hif
  unfold stmt
  rw [Parse.bind_apply, hhere]
  rfl

theorem Productions.Assured.deepen {p : Productions} (hp : p.Assured) : p.deepen.Assured where
  type? := Grammar.type?_assures hp false
  expr := Grammar.expr_assures hp
  unary := Grammar.unary_assures hp
  elementValue := Grammar.elementValue_assures hp
  stmt := Grammar.stmt_assures hp
  ifStmt c hif hlog := by
    change (Grammar.stmt p c).2.log = #[] at hlog
    change (Grammar.stmt p c).1.IsElse
    rw [Grammar.stmt_eq_ifStmt p hif] at hlog ⊢
    exact (Grammar.ifStmt_assures hp _ hlog).2.2

theorem Productions.assured_ofDepth (depth : Nat) : (ofDepth depth).Assured := by
  induction depth with
  | zero => exact assured_exhausted
  | succ depth ih => exact ih.deepen

namespace Grammar

variable {p : Productions}

theorem declEnd_assures (quiet : Bool) : Assures (fun _ => True) (declEnd quiet) := by
  have hmissing : Assures (fun _ => True) (missingEnd quiet) :=
    .ite (.pure trivial) ((reportExpected _).weaken fun _ _ => trivial)
  exact (accept _).step fun _ => .ite (.pure trivial) (hmissing.step fun _ => skipTo _)

theorem decl_assures (hp : p.Assured) : Assures (fun d : Decl => KeepRules d.nodes) (decl p) := by
  have hreceiver : Assures (fun r => ∀ fields ∈ r, namedAlike fields ∧ ∀ f ∈ fields, f.type.Sound .plain) (receiver? p) := by
    refine (isAt _).step fun _ => .ite ((parameters_assures hp false).map fun fields h => ?_) (.pure ?_)
    · rintro _ ⟨⟩
      exact ⟨h.1, (each_fieldParts fields).1 h.2⟩
    · simp
  have hbody : Assures (fun b => ∀ block ∈ b, ∀ s ∈ block.stmts, KeepRules s.nodes) (body? p) := by
    refine (isAt _).step fun _ => .ite ((block_assures hp).map fun b hb => ?_) (.pure ?_)
    · simpa using hb
    · simp
  have hfunc : Assures (fun f => ∀ loc, KeepRules (Decl.func loc f).nodes) (funcDecl p) := by
    refine consume.step fun _ => hreceiver.bind fun receiver => name.step fun name => (signature_assures hp).bind fun sig => ?_
    refine hbody.bind fun body => .pure ?_
    intro hbody hsig hreceiver loc
    exact Decl.keepRules_func.2 ⟨hreceiver, hsig, hbody⟩
  have hbad : Assures (fun d : Decl => KeepRules d.nodes) badDecl :=
    current.step fun _ => (reportHere _).step fun _ => (skipTo _).step fun _ => .pure Decl.keepRules_bad
  refine current.step fun here => reports.step fun before => ?_
  split
  · exact hfunc.bind fun f => reports.step fun _ => (declEnd_assures _).step fun _ => .pure fun h => h here.loc
  · refine .ite ((declGroup_assures hp _).bind fun g => reports.step fun _ => (declEnd_assures _).step fun _ => .pure ?_) hbad
    intro hg
    exact Decl.keepRules_group.2 hg
  · exact hbad

theorem sourceFile_assures (hp : p.Assured) : Assures (fun f : SourceFile => KeepRules f.nodes) (sourceFile p) := by
  have hpackage : Assures (fun _ => True) packageClause :=
    current.step fun _ => (accept _).step fun _ => .ite
      (name.step fun _ => (declEnd_assures _).step fun _ => .pure trivial) ((reportExpected _).step fun _ => .pure trivial)
  have hpass : ∀ decls : Array Decl, Assures (Collecting (fun d => KeepRules d.nodes) decls) (declPass p decls) := by
    intro decls
    refine (isAt _).step fun _ => .ite (.pure id) ((decl_assures hp).bind fun d => .pure ?_)
    exact collecting_push (P := fun d : Decl => KeepRules d.nodes) rfl
  refine current.step fun here => hpackage.step fun package => (collect hpass).bind fun decls => .pure ?_
  intro hdecls
  exact (keepRules_cons _ _).2 ⟨keepsRules_name package, (keepRules_flatMap _ _).2 hdecls⟩

end Grammar

/-- Every node of a file that is read without a report keeps the rules: what stands below it suits its role, its lists of fields are
named alike, and its parts go together. As every expression of the file has a role in a node, none stands where its role forbids it. -/
theorem parseFile_keepsRules (path : SourcePath) (bytes : List UInt8) (h : (parseFile path bytes).diagnostics = []) :
    (∀ n ∈ (parseFile path bytes).tree.nodes, n.KeepsRules)
      ∧ ∀ e, .expr e ∈ (parseFile path bytes).tree.nodes →
        ∃ n ∈ (parseFile path bytes).tree.nodes, ∃ role, (role, e) ∈ n.parts ∧ e.Suits role := by
  have hassured := Grammar.sourceFile_assures (Productions.assured_ofDepth ((Feed.tokens path bytes).items.length + 1))
  have hlog : (Grammar.run Grammar.sourceFile (.start path bytes)).2.log = #[] := Array.toList_eq_nil_iff.1 h
  have hrules : ∀ n ∈ (parseFile path bytes).tree.nodes, n.KeepsRules := (hassured (.start path bytes) hlog).2
  refine ⟨hrules, fun e he => ?_⟩
  obtain ⟨n, hn, role, hpart⟩ := (parseFile path bytes).tree.exists_role he
  exact ⟨n, hn, role, hpart, (hrules n hn).suits _ hpart⟩

/-- A variadic parameter, an `else`, three bounds, a body without a type behind a key, and a loop over a range, all in their places.
(`\x7b` and `\x7d` are braces.) -/
theorem parseFile_keepsRules_sample :
    (parseFile ⟨0, "p.go"⟩ (Utf8.encode ("package p; const a = 1; func f(b ...T) (c int) \x7b if a \x7b \x7d else \x7b \x7d; " ++
      "d[e:a:f] = M\x7bg: \x7b\x7d\x7d; for k, v := range m \x7b \x7d \x7d").toList)).diagnostics = []
    ∧ ∀ n ∈ (parseFile ⟨0, "p.go"⟩ (Utf8.encode ("package p; const a = 1; func f(b ...T) (c int) \x7b if a \x7b \x7d else \x7b \x7d; " ++
      "d[e:a:f] = M\x7bg: \x7b\x7d\x7d; for k, v := range m \x7b \x7d \x7d").toList)).tree.nodes, n.KeepsRules := by
  have hclean : (parseFile ⟨0, "p.go"⟩
      (Utf8.encode ("package p; const a = 1; func f(b ...T) (c int) \x7b if a \x7b \x7d else \x7b \x7d; " ++
        "d[e:a:f] = M\x7bg: \x7b\x7d\x7d; for k, v := range m \x7b \x7d \x7d").toList)).diagnostics = [] := by
    decide +kernel
  exact ⟨hclean, (parseFile_keepsRules _ _ hclean).1⟩

end GoSyntax
