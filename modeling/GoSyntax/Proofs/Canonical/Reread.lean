import GoSyntax.Proofs.Canonical.Trees
import GoSyntax.Proofs.TwoRuns.Reports

/-!
# Every tree of the grammar is read back

A source file is read back from its canonical spelling: the declarations one by one, each with the `;` behind it. A source with
these tokens may still have something to report in its text. Of the same tokens without these reports no syntactic diagnostic is
made, and a source whose text reports more is never told more about its syntax.
-/

namespace GoSyntax

open Parse Grammar Productions

variable {rest : List TokenKind}

/-! ## Files -/

/-- The declaration of a function is read back in front of a `;`. -/
theorem Yields.funcDecl {f : FuncDecl} (h : f.InGrammar) :
    Yields (Grammar.funcDecl .full) (·.shape = f.shape) (f.word ++ .punctuation .semicolon :: rest)
      (.punctuation .semicolon :: rest) := by
  obtain ⟨receiver, fname, sig, body⟩ := f
  obtain ⟨hreceiver, hsig, hbody⟩ := h
  have hread : ∀ input, Yields (receiver? .full) (fun r => r.map shapesOfFields = receiver.map shapesOfFields)
      (receiverWord receiver ++ .ident fname.text :: input) (.ident fname.text :: input) := by
    intro input
    cases receiver with
    | none => exact .ifNotAt rfl (.ret rfl)
    | some fields =>
      obtain ⟨halike, hin⟩ := hreceiver fields rfl
      rw [receiverWord, List.cons_append, List.append_assoc]
      exact .ifAt rfl (.map ((parameters halike hin (parametersReadBack fields false hin)).conseq fun r hr => congrArg some hr))
  have hbody : Yields (body? .full) (fun r => r.map Block.shape = body.map Block.shape)
      (wordOf? Block.word body ++ .punctuation .semicolon :: rest) (.punctuation .semicolon :: rest) := by
    cases body with
    | none => exact .ifNotAt rfl (.ret rfl)
    | some b =>
      obtain ⟨tail, htail⟩ := b.exists_word
      have hb := b.readsBack (hbody b rfl) (.punctuation .semicolon :: rest)
      rw [wordOf?, htail] at *
      exact .ifAt rfl (.map (hb.conseq fun b' hb' => congrArg some hb'))
  rw [FuncDecl.word_mk, List.cons_append, List.append_assoc, List.cons_append, List.append_assoc]
  refine .consume fun _ => .bind (hread _) fun receiver' hr => .name fun _ => ?_
  refine .bind (sig.readsBack hsig _) fun sig' hs => .bind hbody fun body' hb => .ret ?_
  rw [FuncDecl.shape, FuncDecl.shape, hr, hs, hb]
  rfl

/-- A declaration is read back with the `;` behind it. -/
theorem Yields.decl {d : Decl} (h : d.InGrammar) : Yields (Grammar.decl .full) (·.shape = d.shape) (d.word ++ rest) rest := by
  have hend : ∀ quiet, Yields (declEnd quiet) (fun _ => True) (.punctuation .semicolon :: rest) rest :=
    fun _ => .ifAccept rfl (.ret trivial)
  cases d with
  | bad => exact h.elim
  | func loc f =>
    have hread : Yields (Grammar.funcDecl .full) (·.shape = f.shape) (f.word ++ .punctuation .semicolon :: rest)
        (.punctuation .semicolon :: rest) := funcDecl h
    obtain ⟨tail, htail⟩ : ∃ tail, f.word = .keyword .func :: tail := by
      cases f
      exact ⟨_, FuncDecl.word_mk _ _ _ _⟩
    rw [Decl.word_func, List.append_assoc, List.singleton_append]
    rw [htail] at hread ⊢
    refine .current fun _ => .reports fun _ => .bind hread fun f' hf => .reports fun _ => .bind (hend _) fun _ _ => .ret ?_
    rw [Decl.shape, Decl.shape, hf]
  | group loc g =>
    have hread := g.readsBack h rest
    obtain ⟨keyword, specs, grouped⟩ := g
    have hgroup : ∀ here (before : Nat), Yields (do
        let group ← declGroup .full keyword
        declEnd (decide (before < (← Parse.reports)))
        return Decl.group here group) (·.shape = (Decl.group loc ⟨keyword, specs, grouped⟩).shape)
        ((DeclGroup.mk keyword specs grouped).word ++ .punctuation .semicolon :: rest) rest := by
      refine fun here before => .bind hread fun g' hg => .reports fun _ => .bind (hend _) fun _ _ => .ret ?_
      rw [Decl.shape, Decl.shape, hg]
    rw [Decl.word_group, List.append_assoc]
    rcases h.1 with rfl | rfl | rfl | rfl <;> exact .current fun _ => .reports fun _ => hgroup _ _

theorem Decl.sameKind_eof_word {d : Decl} (h : d.InGrammar) (tail : List TokenKind) :
    (nextKind (d.word ++ tail)).sameKind .eof = false := by
  cases d with
  | bad => exact h.elim
  | func loc f =>
    cases f
    rw [word_func, FuncDecl.word_mk]
    rfl
  | group loc g =>
    cases g
    rfl

/-- A source file is read back. -/
theorem Yields.sourceFile {f : SourceFile} (h : f.InGrammar) : Yields (Grammar.sourceFile .full) (·.shape = f.shape) f.word [] := by
  obtain ⟨loc, package, decls⟩ := f
  have hpackage : ∀ input, Yields packageClause (·.shape = package.shape)
      (.keyword .package :: .ident package.text :: .punctuation .semicolon :: input) input := by
    have hend : ∀ input, Yields (declEnd false) (fun _ => True) (.punctuation .semicolon :: input) input :=
      fun _ => .ifAccept rfl (.ret trivial)
    exact fun input => .current fun _ => .ifAccept rfl (.name fun _ => .bind (hend input) fun _ _ => .ret rfl)
  have hdecls : Yields (loop #[] (declPass .full)) (Grown (fun a d => a.shape = d.shape) #[] decls)
      (decls.flatMap Decl.word ++ []) [] := by
    refine loopItems loopsEnd_full.declarations (F := fun _ => True) trivial (fun acc => .ifAt rfl (.ret rfl)) decls
      (fun _ _ _ => trivial) (fun d hd acc tail _ => ?_) #[]
    exact .ifNotAt (Decl.sameKind_eof_word (h d hd) tail) (.bind (decl (h d hd)) fun a ha => .ret ⟨_, rfl, a, rfl, ha⟩)
  rw [List.append_nil] at hdecls
  rw [SourceFile.word_mk]
  refine .current fun _ => .bind (hpackage _) fun package' hp => .bind hdecls fun decls' hd => .ret ?_
  rw [SourceFile.shape, SourceFile.shape, hp, map_eq_map_of_forall₂ hd.forall₂]

/-! ## Sources -/

/-- A parser gives over a source what it yields from its tokens, whatever is wrong in the text. If it meets the end of the input, what is
wrong in the text is reported, all of it and nothing else. -/
theorem Yields.parsed {α : Type} {f : Parse α} {Q : α → Prop} {input : List TokenKind} (h : Yields f Q input rest)
    (hbonded : Bonded .abreast 0 f f) {path : SourcePath} {bytes : List UInt8} (hinput : (Cursor.start path bytes).kinds = input)
    (hpending : (f (.start path bytes)).2.kinds = rest → (f (.start path bytes)).2.feed.pending = []) :
    Q (f (.start path bytes)).1 ∧ (f (.start path bytes)).2.log.toList = (tokenize path bytes).2 := by
  have hquieter := Cursor.hushedStart_quieter path bytes
  -- the same tokens with nothing to report are read in silence
  obtain ⟨hresult, hend⟩ := h _ ⟨Feed.pending_hushed _, rfl, hquieter.kinds.trans hinput⟩
  -- and what is said of the syntax in the noisier run is said in this one as well
  obtain ⟨hsame, habreast⟩ := hbonded.together (.hushedStart path bytes, .start path bytes) trivial _ _ (.refl hquieter)
  obtain ⟨made, made', hmade, hmade', hsub, -⟩ := habreast.made
  refine ⟨hsame ▸ hresult, ?_⟩
  have hsilent : made = [] := by
    have hlog := hmade.log
    rw [hend.clean] at hlog
    exact hlog.symm
  rw [hsilent] at hsub
  have hdue := hmade'.due
  rw [hpending (habreast.quieter.kinds.symm.trans hend.kinds), List.append_nil] at hdue
  exact hmade'.log.trans ((eq_lexical_of_syntactic_eq_nil (List.sublist_nil.1 hsub)).trans hdue)

/-- A source whose tokens spell a tree of the grammar is parsed to this tree, and nothing is reported but what is wrong in the text
of the tokens themselves. -/
theorem parseFile_canonical (path : SourcePath) (bytes : List UInt8) (f : SourceFile) (h : f.InGrammar)
    (hspelled : (tokenize path bytes).1.map Token.kind = f.layout.canonical ++ [.eof]) :
    (parseFile path bytes).tree.shape = f.shape ∧ (parseFile path bytes).diagnostics = (tokenize path bytes).2 := by
  have hinput : (Cursor.start path bytes).kinds = f.word :=
    List.append_cancel_right ((kinds_tokenize path bytes).symm.trans hspelled)
  rw [parseFile_eq]
  exact (Yields.sourceFile h).parsed Bonded.sourceFile hinput fun _ => pending_sourceFile _

/-- The tree of `var x = f(08, xs...);` is read back although `08` is no octal number, which is all that is reported. -/
theorem parseFile_canonical_octal :
    ∃ f : SourceFile, f.InGrammar
      ∧ (tokenize ⟨0, "p.go"⟩ (Utf8.encode "package p; var x = f(08, xs...);".toList)).1.map Token.kind
        = f.layout.canonical ++ [.eof]
      ∧ (parseFile ⟨0, "p.go"⟩ (Utf8.encode "package p; var x = f(08, xs...);".toList)).tree.shape = f.shape
      ∧ (parseFile ⟨0, "p.go"⟩ (Utf8.encode "package p; var x = f(08, xs...);".toList)).diagnostics
        = [⟨.malformedNumber "invalid digit in octal literal", ⟨⟨0, "p.go"⟩, 1⟩⟩] := by
  have hin : SourceFile.InGrammar ⟨default, ⟨default, "p"⟩, [.group default ⟨.var, [.value default [⟨default, "x"⟩] none
      [.call default (.ident default "f") [.literal default (.int 8), .ident default "xs"] true]], false⟩]⟩ := by
    simp [SourceFile.InGrammar, Decl.InGrammar, DeclGroup.InGrammar, SpecsInGrammar, Spec.InGrammar, TypeInGrammar?,
      ExprsInGrammar, Expr.InGrammar, Expr.isValue, Expr.isOperand, Expr.isTypeForm, Expr.rank]
  obtain ⟨hshape, hdiagnostics⟩ := parseFile_canonical ⟨0, "p.go"⟩ (Utf8.encode "package p; var x = f(08, xs...);".toList) _ hin
    (by decide +kernel)
  exact ⟨_, hin, by decide +kernel, hshape, hdiagnostics.trans (by decide +kernel)⟩

/-- The tokens of `package p;` are parsed with a diagnostic if there is an illegal character among them. -/
theorem exists_reported_canonical :
    ∃ (path : SourcePath) (bytes : List UInt8) (f : SourceFile), f.InGrammar
      ∧ (tokenize path bytes).1.map Token.kind = f.layout.canonical ++ [.eof]
      ∧ (parseFile path bytes).diagnostics = [⟨.illegalCharacter '@', ⟨path, 2⟩⟩] :=
  ⟨⟨0, "p.go"⟩, Utf8.encode "package p;\n@".toList, ⟨default, ⟨default, "p"⟩, []⟩, by simp [SourceFile.InGrammar],
    by decide +kernel, by decide +kernel⟩

end GoSyntax
