import GoSyntax.CommandLine
import GoSyntax.Proofs.TwoRuns.Abreast
import GoSyntax.Proofs.TwoRuns.Grammar
import GoSyntax.Proofs.Unbounded

/-!
# What lexical diagnostics change in a parse

A parse reports what the text reports by itself, all of it and in order, and adds syntactic diagnostics. The tree depends on the
tokens alone: two sources with the same tokens have the same tree, whatever is wrong in their texts. The syntactic diagnostics do
not depend on the tokens alone: whether a missing `;` or `)` is reported hangs on the number of reports, and a lexical one counts.
So a source whose text reports more may be told less about its syntax, but it is never told anything else.
-/

namespace GoSyntax

/-! ## The grammar without a depth -/

theorem Grammar.run_sourceFile : Grammar.run Grammar.sourceFile = Grammar.sourceFile .full :=
  funext (Grammar.run_eq fun _ _ _ h _ => Grammar.sourceFile_same h le_rfl)

theorem Grammar.run_exprFragment : Grammar.run Grammar.exprFragment = Grammar.exprFragment .full :=
  funext (Grammar.run_eq fun n _ _ h start => Grammar.exprFragment_reads h n le_rfl start 1)

theorem Grammar.run_stmtFragment : Grammar.run Grammar.stmtFragment = Grammar.stmtFragment .full :=
  funext (Grammar.run_eq fun n _ _ h start => Grammar.stmtFragment_reads h n le_rfl start 1)

theorem parsed_of_run {α : Type} {parser : Productions → Parse α} (h : Grammar.run parser = parser .full) (path : SourcePath)
    (bytes : List UInt8) : (Parsed.ofBytes parser path bytes).tree = (parser .full (.start path bytes)).1
      ∧ (Parsed.ofBytes parser path bytes).diagnostics = (parser .full (.start path bytes)).2.log.toList := by
  rw [Parsed.ofBytes, h]
  exact ⟨rfl, rfl⟩

theorem Grammar.fragment_apply {α : Type} (f : Parse α) (c : Cursor) :
    (f >>= fun a => fragmentEnd >>= fun _ => Pure.pure a) c = ((f c).1, (fragmentEnd (f c).2).2) := rfl

theorem Grammar.stmtFragment_apply (c : Cursor) : stmtFragment .full c = ((stmt .full c).1, (fragmentEnd (stmt .full c).2).2) :=
  fragment_apply (stmt .full) c

theorem Grammar.exprFragment_apply (c : Cursor) : exprFragment .full c = ((expr .full 0 c).1, (fragmentEnd (expr .full 0 c).2).2) :=
  fragment_apply (expr .full 0) c

theorem Feed.Quieter.map_value {α : Type} {ns ns' : List (Noted α)} (h : List.Forall₂ Noted.Quieter ns ns') :
    ns.map Noted.value = ns'.map Noted.value := by
  induction h with
  | nil => rfl
  | cons hn _ ih => rw [List.map_cons, List.map_cons, hn.value, ih]

theorem Cursor.Quieter.kinds {c c' : Cursor} (h : c.Quieter c') : c.kinds = c'.kinds :=
  congrArg (List.map Token.kind) (Feed.Quieter.map_value h.feed.items)

/-- Productions that are run at the depth of their cursor are bonded if they are at each depth: as many tokens are left in both
runs. -/
theorem Bonded.ofDepth {α : Type} {level : Int} {f : Productions → Parse α}
    (h : ∀ depth, Bonded .abreast level (f (.ofDepth depth)) (f (.ofDepth depth))) :
    Bonded .abreast level (fun c => f (.ofDepth (c.kinds.length + 1)) c) (fun c => f (.ofDepth (c.kinds.length + 1)) c) := by
  refine ⟨fun i hi c c' hc => ?_⟩
  have hkinds : c.kinds.length = c'.kinds.length := by rw [Cursor.Quieter.kinds (Cursor.Abreast.quieter hc)]
  simp only [← hkinds]
  exact (h _).together i hi c c' hc

namespace Productions

theorem areBonded_ofDepth {ι : Type} (B : Bond ι) (depth : Nat) : (ofDepth depth).AreBonded B (ofDepth depth) := by
  induction depth with
  | zero => exact areBonded_exhausted
  | succ depth ih => exact ih.deepen

instance areBonded_full : full.AreBonded .abreast full where
  type? := Bonded.ofDepth (f := Productions.type?) fun depth => (areBonded_ofDepth _ depth).type?
  expr level := Bonded.ofDepth (f := fun p => p.expr level) fun depth => (areBonded_ofDepth _ depth).expr level
  unary level := Bonded.ofDepth (f := fun p => p.unary level) fun depth => (areBonded_ofDepth _ depth).unary level
  elementValue level := Bonded.ofDepth (f := fun p => p.elementValue level) fun depth => (areBonded_ofDepth _ depth).elementValue level
  stmt := Bonded.ofDepth (f := Productions.stmt) fun depth => (areBonded_ofDepth _ depth).stmt

end Productions

/-! ## The end of a file -/

/-- What holds wherever a pass ends a loop holds where the loop has ended, if passes that go on keep what it takes. -/
theorem Parse.Ends.loop_done {α : Type} {pass : α → Parse (ForInStep α)} (h : Parse.Ends pass) {I R : α → Cursor → Prop}
    (hyield : ∀ a c a', I a c → (pass a c).1 = .yield a' → I a' (pass a c).2)
    (hdone : ∀ a c a', I a c → (pass a c).1 = .done a' → R a' (pass a c).2) (a : α) (c : Cursor) (hstart : I a c) :
    R (Parse.loop a pass c).1 (Parse.loop a pass c).2 := by
  induction hn : c.kinds.length using Nat.strong_induction_on generalizing a c with
  | _ n ih =>
    have hdone := hdone a c
    have hyield := hyield a c
    rw [h.unrolls, Parse.bind_apply]
    cases hr : (pass a c).1 with
    | done a' => exact hdone a' hstart hr
    | yield a' =>
      have hlt := h.advances a c a' hr
      exact ih _ (hn ▸ hlt) a' _ (hyield a' hstart hr) rfl

/-- Where no token is left and the end has been looked at, nothing is due. -/
theorem Cursor.pending_look_eq_nil {c : Cursor} (h : c.here.kind = .eof) : (c.feed.look 1).2.pending = [] := by
  have hitems : c.feed.items = [] := by
    have hkinds := Cursor.kinds_eq_nil h
    rw [Cursor.kinds, Cursor.tokens, List.map_eq_nil_iff, List.map_eq_nil_iff] at hkinds
    exact hkinds
  rw [Feed.look, hitems]
  rfl

/-- The loop over the declarations ends where the end of the input has been looked at. -/
theorem Grammar.pending_declPass {p : Productions} (decls : Array Decl) (c : Cursor) (decls' : Array Decl)
    (h : (declPass p decls c).1 = .done decls') : (declPass p decls c).2.feed.pending = [] := by
  have hpass : declPass p decls c = (if c.here.kind.sameKind .eof then return .done decls
      else return .yield (decls.push (← decl p)) : Parse (ForInStep (Array Decl))) (Parse.current c).2 := rfl
  rw [hpass] at h ⊢
  split at h
  · next heof =>
    rw [if_pos heof]
    exact Cursor.pending_look_eq_nil ((TokenKind.Bare.sameKind_iff _).1 heof)
  · nomatch h

/-- Where a file ends nothing is left to report. -/
theorem Grammar.pending_sourceFile (c : Cursor) : (sourceFile .full c).2.feed.pending = [] :=
  Parse.Ends.loop_done (I := ⊤) (R := fun _ c => c.feed.pending = []) Productions.loopsEnd_full.declarations (fun _ _ _ _ _ => trivial)
    (fun decls c decls' _ => pending_declPass decls c decls') #[] _ trivial

/-- From quieter tokens on, a file has the same tree, and the two parses stay abreast. -/
theorem Grammar.sourceFile_abreast {c c' : Cursor} (h : c.Quieter c') :
    (sourceFile .full c).1 = (sourceFile .full c').1 ∧ c.Abreast c' (sourceFile .full c).2 (sourceFile .full c').2 :=
  (Bonded.sourceFile (B := .abreast) (p := .full) (q := .full)).together (c, c') trivial c c' (.refl h)

theorem parseFile_eq (path : SourcePath) (bytes : List UInt8) :
    parseFile path bytes = .ofParse (Grammar.sourceFile .full) path bytes :=
  congrArg (fun f => Parsed.ofParse f path bytes) Grammar.run_sourceFile

/-! ## Lexical diagnostics -/

/-- The faults that a parser finds in the order of tokens. -/
def Fault.isSyntactic : Fault → Bool
  | expectedToken _ _ | expectedDeclaration _ | expectedField _ | expectedMethodSpec _ | expectedType _ | expectedOperand _
  | expectedIdentifier _ | illegalVariadic | arityMismatch _ _ _ | malformedSlice _ => true
  | _ => false

theorem Fault.isSyntactic_of_not_isLexical {fault : Fault} (h : fault.isLexical = false) : fault.isSyntactic = true := by
  cases fault <;> first | rfl | nomatch h

theorem lexical_parseFile (path : SourcePath) (bytes : List UInt8) :
    lexical (parseFile path bytes).diagnostics = (tokenize path bytes).2 := by
  have hq : (Cursor.start path bytes).Quieter (.start path bytes) :=
    ⟨.refl _, Feed.lexical_tokens path bytes, Feed.lexical_tokens path bytes⟩
  obtain ⟨made, -, hmade, -⟩ := (Grammar.sourceFile_abreast hq).2.made
  have hlog := hmade.log
  have hdue := hmade.due
  rw [Grammar.pending_sourceFile, List.append_nil] at hdue
  rw [parseFile_eq]
  change lexical (Grammar.sourceFile .full (.start path bytes)).2.log.toList = (Feed.tokens path bytes).pending
  rw [hlog]
  exact hdue

/-- The text of a source without a diagnostic has nothing to report. -/
theorem pending_of_clean {path : SourcePath} {bytes : List UInt8} (h : (parseFile path bytes).diagnostics = []) :
    (Feed.tokens path bytes).pending = [] :=
  (lexical_parseFile path bytes).symm.trans (by rw [h]; rfl)

theorem lexicalCount_parseFile (path : SourcePath) (bytes : List UInt8) :
    (parseFile path bytes).lexicalCount = (tokenize path bytes).2.length := by
  rw [← lexical_parseFile]
  exact List.countP_eq_length_filter

/-- The lexical diagnostics of a parse are those of its tokens, in the same order, and all others are of the parser's own kinds. So
the summary of a file counts as lexical what listing its tokens reports. -/
theorem parseFile_lexical_diagnostics :
    (∀ path bytes, (parseFile path bytes).diagnostics.filter Diagnostic.isLexical = (tokenize path bytes).2
      ∧ (∀ d ∈ (parseFile path bytes).diagnostics, d.isLexical = false → d.fault.isSyntactic = true)
      ∧ (parseFile path bytes).lexicalCount = (tokenize path bytes).2.length)
    ∧ ∀ opener file reads, opener file = .ok reads →
      (parseFile (Command.handle file) (ReadResult.content reads)).lexicalCount = (Command.runTokens opener file).messages.length := by
  refine ⟨fun path bytes => ?_, fun opener file reads hopen => ?_⟩
  · exact ⟨lexical_parseFile path bytes, fun d _ hd => Fault.isSyntactic_of_not_isLexical hd, lexicalCount_parseFile path bytes⟩
  · rw [lexicalCount_parseFile, Command.runTokens, Command.withFile, hopen]
    exact (List.length_map _).symm

/-- `08` is no octal number: a parse counts one lexical diagnostic, and so many messages the listing of the tokens gives. -/
theorem parseFile_lexical_diagnostics_octal :
    (parseFile (Command.handle "p.go") (ReadResult.content (ReadResult.ofContent (Utf8.encode "package p\nvar x = 08".toList)))).lexicalCount
        = 1
      ∧ (Command.runTokens (fun _ => .ok (ReadResult.ofContent (Utf8.encode "package p\nvar x = 08".toList))) "p.go").messages.length
        = 1 := by
  have hcount : (parseFile (Command.handle "p.go")
      (ReadResult.content (ReadResult.ofContent (Utf8.encode "package p\nvar x = 08".toList)))).lexicalCount = 1 := by decide +kernel
  exact ⟨hcount, (parseFile_lexical_diagnostics.2 _ "p.go" _ rfl).symm.trans hcount⟩

/-! ## The tree -/

/-- A feed with the same items and nothing to report. -/
def Feed.hushed {α : Type} (f : Feed α) : Feed α := ⟨f.items.map Noted.silent, f.last.silent⟩

namespace Feed

variable {α : Type} {f g : Feed α}

theorem map_value_hushed (f : Feed α) : f.hushed.items.map Noted.value = f.items.map Noted.value := by
  rw [hushed, List.map_map]
  rfl

/-- A feed that reports nothing is known by its values. -/
theorem hushed_eq_of_values (h : f.values = g.values) : f.hushed = g.hushed := by
  obtain ⟨hitems, hlast⟩ := List.append_inj' h rfl
  have hsilent : ∀ ns : List (Noted α), ns.map Noted.silent = (ns.map Noted.value).map fun v => ⟨v, []⟩ := by
    intro ns
    rw [List.map_map]
    rfl
  rw [hushed, hushed, hsilent, hsilent, hitems, Noted.silent, Noted.silent, (List.cons.inj hlast).1]

theorem quieter_hushed (f : Feed α) : f.hushed.Quieter f := by
  refine ⟨?_, ⟨rfl, fun _ => rfl⟩⟩
  rw [hushed, List.forall₂_map_left_iff, List.forall₂_same]
  exact fun n _ => ⟨rfl, fun _ => rfl⟩

theorem pending_hushed (f : Feed α) : f.hushed.pending = [] := by
  rw [pending, List.append_eq_nil_iff, List.flatMap_eq_nil_iff]
  refine ⟨fun n hn => ?_, rfl⟩
  obtain ⟨n', _, rfl⟩ := List.mem_map.1 hn
  rfl

theorem Scanned.hushed {f : Feed Token} (h : f.Scanned) : f.hushed.Scanned := by
  rw [Scanned, map_value_hushed]
  exact h

end Feed

/-- The start of a source whose text reports nothing. -/
def Cursor.hushedStart (path : SourcePath) (bytes : List UInt8) : Cursor :=
  ⟨(Feed.tokens path bytes).hushed, #[], (Feed.scanned_tokens path bytes).hushed⟩

theorem Cursor.hushedStart_eq {path : SourcePath} {a b : List UInt8} (h : (tokenize path a).1 = (tokenize path b).1) :
    hushedStart path a = hushedStart path b := by
  unfold hushedStart
  congr 1
  exact Feed.hushed_eq_of_values h

theorem Cursor.hushedStart_quieter (path : SourcePath) (bytes : List UInt8) : (hushedStart path bytes).Quieter (.start path bytes) := by
  refine ⟨Feed.quieter_hushed _, ?_, Feed.lexical_tokens path bytes⟩
  change Lexical (Feed.tokens path bytes).hushed.pending
  rw [Feed.pending_hushed]
  exact .nil

/-- The tree is a function of the tokens: two sources with the same tokens, on the same lines, have the same tree, whatever each of
their texts reports. -/
theorem parseFile_tree_eq (path : SourcePath) (a b : List UInt8) (h : (tokenize path a).1 = (tokenize path b).1) :
    (parseFile path a).tree = (parseFile path b).tree := by
  have htree : ∀ bytes, (parseFile path bytes).tree = (Grammar.sourceFile .full (.hushedStart path bytes)).1 := by
    intro bytes
    rw [parseFile_eq]
    exact (Grammar.sourceFile_abreast (Cursor.hushedStart_quieter path bytes)).1.symm
  rw [htree, htree, Cursor.hushedStart_eq h]

/-- `8` and `08` are the same token, and only the second is reported. -/
theorem parseFile_tree_eq_octal :
    (tokenize ⟨0, "p.go"⟩ (Utf8.encode "package p\nvar x = 8".toList)).2 = []
      ∧ (tokenize ⟨0, "p.go"⟩ (Utf8.encode "package p\nvar x = 08".toList)).2.length = 1
      ∧ (parseFile ⟨0, "p.go"⟩ (Utf8.encode "package p\nvar x = 8".toList)).tree
        = (parseFile ⟨0, "p.go"⟩ (Utf8.encode "package p\nvar x = 08".toList)).tree :=
  ⟨by decide +kernel, by decide +kernel, parseFile_tree_eq _ _ _ (by decide +kernel)⟩

/-! ## Syntactic diagnostics -/

/-- Of two sources with the same tokens, one may be quieter: none of its tokens reports anything unless the same token of the other
does. All syntactic diagnostics of the other parse are made of the quieter one too, and in the same order; if the same tokens
report something in both, the syntactic diagnostics are the same. -/
theorem parseFile_syntactic_sublist (path : SourcePath) (a b : List UInt8)
    (h : (Feed.tokens path a).Quieter (Feed.tokens path b)) :
    ((parseFile path b).diagnostics.filter fun d => !d.isLexical).Sublist
        ((parseFile path a).diagnostics.filter fun d => !d.isLexical)
      ∧ ((Feed.tokens path b).Quieter (Feed.tokens path a) →
        ((parseFile path a).diagnostics.filter fun d => !d.isLexical)
          = (parseFile path b).diagnostics.filter fun d => !d.isLexical) := by
  have hsub : ∀ a b, (Feed.tokens path a).Quieter (Feed.tokens path b) →
      (syntactic (parseFile path b).diagnostics).Sublist (syntactic (parseFile path a).diagnostics) := by
    intro a b h
    have hq : (Cursor.start path a).Quieter (.start path b) := ⟨h, Feed.lexical_tokens path a, Feed.lexical_tokens path b⟩
    obtain ⟨made, made', hm, hm', hsub, -⟩ := (Grammar.sourceFile_abreast hq).2.made
    rw [parseFile_eq, parseFile_eq]
    have hlog := hm.log
    have hlog' := hm'.log
    change (syntactic (Grammar.sourceFile .full (.start path b)).2.log.toList).Sublist
      (syntactic (Grammar.sourceFile .full (.start path a)).2.log.toList)
    rw [hlog, hlog']
    exact hsub
  exact ⟨hsub a b h, fun h' => (hsub b a h').antisymm (hsub a b h)⟩

/-- Behind the statement `a` a `;` is missing. It is reported in front of `8`, and in front of `08` too if the list has the report
of the quieter source. -/
theorem parseFile_syntactic_sublist_octal :
    (Feed.tokens ⟨0, "p.go"⟩ (Utf8.encode "package p\nfunc f() { a 8 }\n".toList)).Quieter
        (.tokens ⟨0, "p.go"⟩ (Utf8.encode "package p\nfunc f() { a 08 }\n".toList))
      ∧ ((parseFile ⟨0, "p.go"⟩ (Utf8.encode "package p\nfunc f() { a 08 }\n".toList)).diagnostics.filter fun d => !d.isLexical).Sublist
        ((parseFile ⟨0, "p.go"⟩ (Utf8.encode "package p\nfunc f() { a 8 }\n".toList)).diagnostics.filter fun d => !d.isLexical) :=
  have h : (Feed.tokens ⟨0, "p.go"⟩ (Utf8.encode "package p\nfunc f() { a 8 }\n".toList)).Quieter
      (.tokens ⟨0, "p.go"⟩ (Utf8.encode "package p\nfunc f() { a 08 }\n".toList)) := by decide +kernel
  ⟨h, (parseFile_syntactic_sublist _ _ _ h).1⟩

/-- The syntactic diagnostics are no function of the tokens: the `;` that is missing behind `a` is reported in front of `8` but not
in front of `08`, because the report of the malformed number counts as one of the statement before it. -/
theorem exists_masked_syntactic : ∃ (path : SourcePath) (a b : List UInt8), (tokenize path a).1 = (tokenize path b).1
    ∧ ((parseFile path a).diagnostics.filter fun d => !d.isLexical) = [⟨.expectedToken "\x60;\x60" "integer literal", ⟨path, 2⟩⟩]
    ∧ ((parseFile path b).diagnostics.filter fun d => !d.isLexical) = [] :=
  ⟨⟨0, "p.go"⟩, Utf8.encode "package p\nfunc f() { a 8 }\n".toList, Utf8.encode "package p\nfunc f() { a 08 }\n".toList,
    by decide +kernel, by decide +kernel, by decide +kernel⟩

end GoSyntax
