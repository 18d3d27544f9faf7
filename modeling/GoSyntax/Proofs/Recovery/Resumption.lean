import GoSyntax.Proofs.Recovery.Heads

/-!
# What stands behind a list that nothing closes

A body or a group that nothing closes does not swallow the next declaration. The list ends in front of the keyword, with one report; the
declaration around it has then reported something, so that its missing `;` is not reported as well; and nothing is skipped, since the
keyword is one at which declarations go on. So what follows is read as behind a package clause.
-/

namespace GoSyntax

open Parse Cursor Grammar Productions

/-! ## Package clauses -/

namespace Cursor

variable {c : Cursor} {kind : TokenKind} {kinds : List TokenKind}

/-- A token that is left is taken, and with it goes what it has to report. -/
theorem consume_of_kinds (h : c.kinds = kind :: kinds) :
    (Parse.consume c).2.feed = c.feed.drop 1 ∧ (Parse.consume c).2.dues = c.dues ∧ (Parse.consume c).2.kinds = kinds := by
  obtain ⟨t, ts, htokens, -, -⟩ := List.map_eq_cons_iff.1 h
  refine ⟨?_, dues_consume htokens, by rw [kinds_consume, h, List.tail_cons]⟩
  obtain ⟨n, ns, hitems, -, -⟩ := List.map_eq_cons_iff.1 htokens
  obtain ⟨⟨items, last⟩, log, hscanned⟩ := c
  obtain rfl : items = n :: ns := hitems
  rfl

end Cursor

namespace Grammar

variable {c : Cursor}

theorem name_found {text : String} (h : c.here.kind = .ident text) : Parse.name c = (⟨c.here.loc, text⟩, (Parse.consume c).2) := by
  have hcurrent : (Parse.current c).1.kind = .ident text := h
  rw [← consume_current, Parse.name, bind_apply, hcurrent]
  rfl

theorem packageClause_found {p : String} (hpackage : c.here.kind = .keyword .package) (hname : (Parse.consume c).2.here.kind = .ident p)
    (hend : (Parse.consume (Parse.consume c).2).2.here.kind = .punctuation .semicolon) :
    packageClause c = (⟨(Parse.consume c).2.here.loc, p⟩, (Parse.consume (Parse.consume (Parse.consume c).2).2).2) := by
  have haccept : accept Keyword.package (Parse.current c).2 = (true, (Parse.consume c).2) := by
    rw [accept_of_sameKind (by rw [here_current, hpackage]; rfl), consume_current]
  have hread : packageClause c = declared Parse.name (fun _ => false) id (Parse.consume c).2 := by
    change (if (accept Keyword.package (Parse.current c).2).1 = true then declared Parse.name (fun _ => false) id
      else reportExpected "`package`" >>= fun _ => pure ⟨c.here.loc, "_"⟩) (accept Keyword.package (Parse.current c).2).2 = _
    rw [haccept, if_pos rfl]
  rw [hread]
  change ((Parse.name (Parse.consume c).2).1, (declEnd false (Parse.name (Parse.consume c).2).2).2) = _
  rw [name_found hname, declEnd_apply, hend, if_pos (by rfl), consume_current]

/-- Behind a package clause three tokens have been taken. -/
theorem packageClause_taken {p : String} {kinds : List TokenKind}
    (h : c.kinds = .keyword .package :: .ident p :: .punctuation .semicolon :: kinds) :
    (packageClause c).2.feed = c.feed.drop 3 ∧ (packageClause c).2.dues = c.dues := by
  obtain ⟨hfeed, hdues, hkinds⟩ := consume_of_kinds h
  obtain ⟨hfeed₁, hdues₁, hkinds₁⟩ := consume_of_kinds hkinds
  obtain ⟨hfeed₂, hdues₂, -⟩ := consume_of_kinds hkinds₁
  rw [packageClause_found (here_kind_of_cons h) (here_kind_of_cons hkinds) (here_kind_of_cons hkinds₁)]
  refine ⟨?_, hdues₂.trans (hdues₁.trans hdues)⟩
  rw [hfeed₂, hfeed₁, hfeed, Feed.drop, Feed.drop, Feed.drop, Feed.drop, List.drop_drop, List.drop_drop]

theorem packageClause_current (c : Cursor) : (packageClause (Parse.current c).2).2 = (packageClause c).2 := by
  rw [packageClause, bind_apply, bind_apply, current_current]
  rfl

/-! ## A single declaration -/

theorem declFrom_group (keyword : Keyword) (h : keyword ∈ [Keyword.const, .import, .type, .var]) (loc : Location) (before : Nat) :
    declFrom full ⟨.keyword keyword, loc⟩ before = declared (declGroup full keyword) (before < ·) (.group loc) := by
  simp only [List.mem_cons, List.not_mem_nil, or_false] at h
  rcases h with rfl | rfl | rfl | rfl <;> rfl

theorem declared_apply {α β : Type} (f : Parse α) (quiet : Nat → Bool) (r : α → β) (c : Cursor) :
    declared f quiet r c = (r (f c).1, (declEnd (quiet (f c).2.log.size) (f c).2).2) := rfl

/-- A declaration of a group is read where its keyword comes next. -/
theorem decl_group {keyword : Keyword} (h : keyword ∈ [Keyword.const, .import, .type, .var]) (hhere : c.here.kind = .keyword keyword) :
    decl full c = declared (declGroup full keyword) ((Parse.current c).2.log.size < ·) (.group c.here.loc) (Parse.current c).2 := by
  have htoken : c.here = ⟨.keyword keyword, c.here.loc⟩ := congrArg (fun kind : TokenKind => (⟨kind, c.here.loc⟩ : Token)) hhere
  rw [decl_apply, ← declFrom_group keyword h, ← htoken]

/-- Where there is a token left, there is a declaration. -/
theorem kinds_nil_of_declarations (h : (Parse.loop #[] (declPass full) c).1 = #[]) : c.kinds = [] := by
  rw [declarations_apply] at h
  split at h
  · next hend => exact kinds_eq_nil ((TokenKind.Bare.sameKind_iff _).1 hend)
  · rw [declarations_append] at h
    simp at h

/-- Of a group that is the only declaration, without a diagnostic, the `;` behind it is left. -/
theorem kinds_of_single {keyword : Keyword} (h : keyword ∈ [Keyword.const, .import, .type, .var]) (hhere : c.here.kind = .keyword keyword)
    (hdues : c.dues = []) (hclean : (Parse.loop #[] (declPass full) c).2.log = #[])
    (hsingle : (Parse.loop #[] (declPass full) c).1.size = 1) :
    (declGroup full keyword c).2.log = #[] ∧ (declGroup full keyword c).2.kinds = [.punctuation .semicolon]
      ∧ (Parse.loop #[] (declPass full) c).1 = #[.group c.here.loc (declGroup full keyword c).1] := by
  have hcurrent : (Parse.current c).2 = c := congrArg Prod.snd (current_of_dues hdues)
  have hdecl := decl_group h hhere
  rw [hcurrent] at hdecl
  rw [declarations_apply, if_neg (by rw [hhere]; exact Bool.false_ne_true), hcurrent, declarations_append] at hclean hsingle ⊢
  have hrest : (Parse.loop #[] (declPass full) (decl full c).2).1 = #[] := by
    rw [Array.size_append] at hsingle
    exact Array.size_eq_zero_iff.1 (Nat.succ.inj ((Nat.add_comm _ _).trans hsingle))
  have hnil := kinds_nil_of_declarations hrest
  have hquiet : (decl full c).2.log = #[] := log_eq_of_declarations _ hclean
  rw [hdecl, (eq_nil_of_dues hdues).1] at hquiet hnil
  obtain ⟨hend, heq⟩ := declEnd_of_declared rfl hquiet
  have hsemicolon := here_of_declEnd hend
  rw [heq, declEnd_apply, hsemicolon, if_pos (by rfl), consume_current, kinds_consume] at hnil
  obtain ⟨ks, hks⟩ := kinds_eq_cons (show (declGroup full keyword c).2.here.kind ≠ .eof by rw [hsemicolon]; rintro ⟨⟩)
  refine ⟨log_eq_of_clean (declEnd_follows false) hend, ?_, ?_⟩
  · rw [hks, List.tail_cons] at hnil
    rw [hks, hnil, hsemicolon]
  · rw [hrest, hdecl]
    rfl

/-! ## Behind an unclosed declaration -/

/-- Who has looked at the next token meets nothing new there. -/
theorem current_of_looked {f : Feed Token} (h : c.feed = (f.look 1).2) : (Parse.current c).2 = c := by
  refine eq_of ?_ ?_
  · change (c.feed.look 1).2 = c.feed
    rw [h, Feed.look_look]
  · change c.log ++ (c.feed.look 1).1 = c.log
    rw [h, Feed.look_look]
    exact Array.append_empty

theorem here_of_looked {f : Feed Token} (h : c.feed = (f.look 1).2) : c.here = f.peek 0 := by
  rw [here, h]
  obtain ⟨items, last⟩ := f
  cases items <;> rfl

/-- A declaration that has reported something ends in front of a keyword that starts the next one. -/
theorem declEnd_quiet {f : Feed Token} (h : c.feed = (f.look 1).2) (hstart : Recovery.declarationStart.contains (f.peek 0).kind = true) :
    (declEnd true c).2 = c := by
  have hhere : Recovery.declarationStart.contains c.here.kind = true := by rwa [here_of_looked h]
  obtain ⟨k, -, hk⟩ := (TokenSet.contains_keywords _ _).1 hhere
  rw [declEnd_apply, if_neg (by rw [hk]; exact Bool.false_ne_true)]
  change (skipTo Recovery.declarationStart (Parse.current c).2).2 = _
  rw [current_of_looked h, skipTo_stop hhere, current_of_looked h]

variable {shift : Location → Location} {ours theirs : Feed Token} {due : List Diagnostic} {ts us : List Token} {c' : Cursor}

/-- The report of a closing token that is missing in front of these tokens. -/
def missingAt (closing : Punctuation) (t : Token) : Diagnostic :=
  ⟨.expectedToken (TokenKind.punctuation closing).display t.kind.display, t.loc⟩

/-- If the only declaration of the first run is left unclosed in the second one, that one gives the same declaration and goes on with its
own tokens. -/
theorem exists_behind_unclosed (e : Enclosure) (hopening : us.map Token.kind = e.opening)
    (hcut : Enclosure.Cut ours theirs due e.closing ts)
    (hparting : Parting shift ours theirs due (us ++ ts) c c') (hdues : c.dues = [])
    (hclean : (Parse.loop #[] (declPass full) c).2.log = #[]) (hsingle : (Parse.loop #[] (declPass full) c).1.size = 1) :
    ∃ rest : Cursor, rest.feed = (theirs.look 1).2 ∧ syntactic rest.log.toList = [missingAt e.closing (theirs.peek 0)]
      ∧ Parse.loop #[] (declPass full) c' = Parse.loop (moved shift (Parse.loop #[] (declPass full) c).1) (declPass full) rest := by
  obtain ⟨t, us, rfl, ht, -⟩ := List.map_eq_cons_iff.1 hopening
  have hhere : c.here.kind = .keyword e.keyword := by rw [hparting.here_eq, ht]
  have hhere' : c'.here = moved shift c.here := by rw [hparting.here_eq', hparting.here_eq]
  obtain ⟨hquiet, hend, hdecls⟩ := kinds_of_single e.declares hhere hdues hclean hsingle
  -- the first run has looked at nothing that it has to report
  have hcurrent : (Parse.current c).2 = c := congrArg Prod.snd (current_of_dues hdues)
  have hlooked := hparting.current (by rw [hcurrent]; exact hparting.clean)
  rw [hcurrent] at hlooked
  have hopen := e.leavesOpen hopening hcut c _ hlooked hdues hquiet hend
  have hstart' : (Parse.current c').2.here.kind = .keyword e.keyword := by rw [here_current, hhere', Token.kind_moved, hhere]
  have hlexical : Lexical c'.dues := by
    rw [hparting.due]
    exact hcut.lexical
  -- the closing token has been reported since the start of the declaration
  have hgrown : (Parse.current c').2.log.size < (declGroup full e.keyword (Parse.current c').2).2.log.size := by
    have hpending : Lexical (Parse.current c').2.feed.pending := by
      rw [← dues_peek 0] at hlexical
      exact hlexical.right
    obtain ⟨⟨made, hmade, -⟩, -⟩ := reports_since (declGroup full e.keyword) hpending
    have hreported := hopen.reported
    rw [hmade.log, syntactic_append, syntactic_current hlexical] at hreported
    rw [← Array.length_toList, ← Array.length_toList, hmade.log, List.length_append]
    refine Nat.lt_add_of_pos_right (List.length_pos_iff.2 ?_)
    rintro rfl
    nomatch hreported
  refine ⟨_, hopen.feed, hopen.reported, ?_⟩
  have hdecl : decl full (Parse.current c').2 = (moved shift (.group c.here.loc (declGroup full e.keyword c).1),
      (declGroup full e.keyword (Parse.current c').2).2) := by
    rw [decl_group e.declares hstart', current_current, here_current, declared_apply, decide_eq_true hgrown,
      declEnd_quiet hopen.feed hcut.start, hopen.result, hhere']
    rfl
  rw [declarations_apply, if_neg (by rw [hhere', Token.kind_moved, hhere]; exact Bool.false_ne_true), hdecl, hdecls]
  have hmoved : moved shift #[Decl.group c.here.loc (declGroup full e.keyword c).1]
      = #[].push (moved shift (.group c.here.loc (declGroup full e.keyword c).1)) := Array.map_singleton
  rw [hmoved]

end Grammar

/-! ## Files -/

/-- A file starts with a package clause. -/
def StartsPackage (path : SourcePath) (bytes : List UInt8) : Prop :=
  ∃ name, (Cursor.start path bytes).kinds.take 3 = [.keyword .package, .ident name, .punctuation .semicolon]

theorem StartsPackage.taken {path : SourcePath} {bytes : List UInt8} (h : StartsPackage path bytes) :
    (packageClause (Parse.current (.start path bytes)).2).2.feed = (Feed.tokens path bytes).drop 3
      ∧ (packageClause (Parse.current (.start path bytes)).2).2.dues = (Feed.tokens path bytes).pending := by
  obtain ⟨name, hname⟩ := h
  have hkinds := List.take_append_drop 3 (Cursor.start path bytes).kinds
  rw [hname] at hkinds
  rw [packageClause_current]
  exact packageClause_taken hkinds.symm

/-- Three files with package clauses. Behind it the first one is a declaration around members, each with a `;` behind it, and it is parsed
without a diagnostic. The second one is the same up to the token that closes the list of members, `shift` says where. There it goes on with
what stands behind the clause of the third one, moved `down`; its first token is a keyword that starts a declaration. -/
structure Unclosed (e : Enclosure) (members : List TokenKind) (shift down : Location → Location) (path : SourcePath)
    (closed opened tail : List UInt8) : Prop where
  clauses : StartsPackage path closed ∧ StartsPackage path opened ∧ StartsPackage path tail
  kinds : (Cursor.start path closed).kinds.drop 3
    = e.opening ++ members ++ [.punctuation e.closing, .punctuation .semicolon]
  ended : ∀ kind, members.getLast? = some kind → kind = Punctuation.semicolon
  clean : (parseFile path closed).diagnostics = []
  single : (parseFile path closed).tree.decls.length = 1
  alike : ((Cursor.start path opened).tokens.drop 3).take (e.reach members)
    = (((Cursor.start path closed).tokens.drop 3).take (e.reach members)).map (Token.move shift)
  behind : (((Feed.tokens path opened).drop (3 + (e.reach members))).look 1).2
    = (((Feed.tokens path tail).drop 3).look 1).2.move down
  start : Recovery.declarationStart.contains (((Feed.tokens path opened).drop (3 + (e.reach members))).peek 0).kind = true

/-- A feed behind some items is the items up to a further place and the feed behind them. -/
theorem Feed.drop_eq_behind {α : Type} (f : Feed α) (n k : Nat) :
    f.drop n = (f.drop (n + k)).behind ((f.items.drop n).take k) := by
  rw [Feed.drop, Feed.behind, Feed.drop, ← List.drop_drop, List.take_append_drop]

namespace Unclosed

variable {e : Enclosure} {members : List TokenKind} {shift down : Location → Location} {path : SourcePath} {closed opened tail : List UInt8}
  (h : Unclosed e members shift down path closed opened tail)

include h

/-- The tokens in front of the closing token. -/
theorem kinds_common : (((Cursor.start path closed).tokens.drop 3).take (e.reach members)).map Token.kind = e.opening ++ members := by
  have hkinds := h.kinds
  rw [Cursor.kinds, ← List.map_drop] at hkinds
  rw [List.map_take, hkinds]
  exact List.take_left' List.length_append

theorem kinds_behind : (((Feed.tokens path closed).drop (3 + e.reach members)).items.map fun n => n.value.kind)
    = [.punctuation e.closing, .punctuation .semicolon] := by
  have hkinds := congrArg (List.drop (e.reach members)) h.kinds
  have hlength : (e.opening ++ members).length = e.reach members := List.length_append
  rw [List.drop_left' hlength, List.drop_drop, Cursor.kinds, Cursor.tokens, List.map_map, ← List.map_drop] at hkinds
  exact hkinds

theorem pending : (Feed.tokens path closed).pending = [] := pending_of_clean h.clean

/-- The run over the first file parts with that over the second one behind the members. -/
theorem parting : Parting shift ((Feed.tokens path closed).drop (3 + e.reach members))
    ((Feed.tokens path opened).drop (3 + e.reach members))
    (Feed.tokens path opened).pending (((Cursor.start path closed).tokens.drop 3).take (e.reach members))
    (packageClause (Parse.current (.start path closed)).2).2 (packageClause (Parse.current (.start path opened)).2).2 := by
  obtain ⟨hfeed, hdues⟩ := h.clauses.1.taken
  obtain ⟨hfeed', hdues'⟩ := h.clauses.2.1.taken
  have hvalues : ∀ bytes, (((Feed.tokens path bytes).items.drop 3).take (e.reach members)).map Noted.value
      = ((Cursor.start path bytes).tokens.drop 3).take (e.reach members) := fun bytes => by
    rw [List.map_take, List.map_drop]
    rfl
  refine ⟨(eq_nil_of_dues (hdues.trans h.pending)).1, ⟨_, hfeed.trans (Feed.drop_eq_behind _ 3 _), hvalues closed⟩,
    ⟨_, hfeed'.trans (Feed.drop_eq_behind _ 3 _), (hvalues opened).trans h.alike⟩, hdues', fun t ht => ?_⟩
  refine e.announces_of_getLast? h.ended ?_
  rw [← h.kinds_common, List.getLast?_map, ht]
  rfl

end Unclosed

/-- A body or a group that nothing closes gives the declaration that it gives with its closing token, and reports that this token is
missing. From there on there are the declarations and the reports about the order of the tokens that there are behind a package clause. -/
theorem parseFile_unclosed {e : Enclosure} {members : List TokenKind} {shift down : Location → Location} {path : SourcePath}
    {closed opened tail : List UInt8} (h : Unclosed e members shift down path closed opened tail) :
    let first := ((Feed.tokens path opened).drop (3 + e.reach members)).peek 0
    (parseFile path opened).tree.decls
        = (parseFile path closed).tree.decls.map (Decl.move shift) ++ (parseFile path tail).tree.decls.map (Decl.move down)
      ∧ (parseFile path opened).diagnostics.filter (fun d => !d.isLexical)
        = ⟨.expectedToken (TokenKind.punctuation e.closing).display first.kind.display, first.loc⟩
          :: ((parseFile path tail).diagnostics.filter fun d => !d.isLexical).map (Diagnostic.move down) := by
  intro first
  obtain ⟨hfeed, hdues⟩ := h.clauses.1.taken
  obtain ⟨-, hdues'⟩ := h.clauses.2.1.taken
  obtain ⟨hfeed'', hdues''⟩ := h.clauses.2.2.taken
  obtain ⟨us, ts, hcommon, hus, hts⟩ := List.map_eq_append_iff.1 h.kinds_common
  have hparting := h.parting
  rw [hcommon] at hparting
  have hclean := h.clean
  have hsingle := h.single
  rw [diagnostics_parseFile, sourceFile_apply, Array.toList_eq_nil_iff] at hclean
  rw [tree_parseFile, sourceFile_apply] at hsingle
  have hcut : Enclosure.Cut ((Feed.tokens path closed).drop (3 + e.reach members)) ((Feed.tokens path opened).drop (3 + e.reach members))
      (Feed.tokens path opened).pending e.closing ts :=
    ⟨Feed.lexical_tokens path opened, h.start, h.kinds_behind, fun kind hkind => h.ended kind (by rwa [hts] at hkind)⟩
  obtain ⟨rest, hrest, hreported, hloop⟩ := exists_behind_unclosed e hus hcut hparting (hdues.trans h.pending) hclean
    ((Array.length_toList).symm.trans hsingle)
  have hlook : (rest.feed.look 1).2 = ((packageClause (Parse.current (.start path tail)).2).2.feed.look 1).2.move down := by
    rw [hrest, Feed.look_look, hfeed'', h.behind]
  obtain ⟨hdecls, made, hmade, hmade'⟩ := declarations_alike hlook
  rw [current_of_looked hrest] at hmade'
  have hlexical : Lexical (packageClause (Parse.current (.start path tail)).2).2.dues := by
    rw [hdues'']
    exact Feed.lexical_tokens path tail
  constructor
  · rw [tree_parseFile, tree_parseFile, tree_parseFile, sourceFile_apply, sourceFile_apply, sourceFile_apply]
    dsimp only
    rw [hloop, declarations_append, Array.toList_append, toList_moved, hdecls, toList_moved]
    rfl
  · rw [diagnostics_parseFile, diagnostics_parseFile, sourceFile_apply, sourceFile_apply]
    dsimp only
    rw [hloop, declarations_append]
    change syntactic (Parse.loop #[] (declPass full) rest).2.log.toList = _ :: (syntactic _).map _
    rw [hmade', hmade, syntactic_append, syntactic_append, hreported, syntactic_current hlexical]
    exact congrArg (_ :: ·) List.filter_map

/-- A struct of one field in front of a variable without a name. The field stays, and the missing brace and the missing name are reported in
the fourth line. -/
theorem parseFile_unclosed_struct :
    Unclosed (.struct "T") [.ident "a", .ident "int", .punctuation .semicolon] id (Location.down 2) ⟨0, "p.go"⟩
        (Utf8.encode "package p\ntype T struct \x7b\na int\n\x7d\n".toList) (Utf8.encode "package p\ntype T struct \x7b\na int\nvar = 1\n".toList)
        (Utf8.encode "package p\nvar = 1\n".toList)
      ∧ (parseFile ⟨0, "p.go"⟩ (Utf8.encode "package p\ntype T struct \x7b\na int\nvar = 1\n".toList)).tree.decls.length = 2
      ∧ (parseFile ⟨0, "p.go"⟩ (Utf8.encode "package p\ntype T struct \x7b\na int\nvar = 1\n".toList)).diagnostics.filter (fun d => !d.isLexical)
        = [⟨.expectedToken "`\x7d`" "`var`", ⟨⟨0, "p.go"⟩, 4⟩⟩, ⟨.expectedIdentifier "`=`", ⟨⟨0, "p.go"⟩, 4⟩⟩] := by
  have h : Unclosed (.struct "T") [.ident "a", .ident "int", .punctuation .semicolon] id (Location.down 2) ⟨0, "p.go"⟩
      (Utf8.encode "package p\ntype T struct \x7b\na int\n\x7d\n".toList) (Utf8.encode "package p\ntype T struct \x7b\na int\nvar = 1\n".toList)
      (Utf8.encode "package p\nvar = 1\n".toList) := {
    clauses := ⟨⟨"p", by decide +kernel⟩, ⟨"p", by decide +kernel⟩, "p", by decide +kernel⟩
    kinds := by decide +kernel
    ended := by simp
    clean := by decide +kernel
    single := by decide +kernel
    alike := by decide +kernel
    behind := by decide +kernel
    start := by decide +kernel }
  obtain ⟨hdecls, hdiagnostics⟩ := parseFile_unclosed h
  refine ⟨h, ?_, hdiagnostics.trans (by decide +kernel)⟩
  rw [hdecls]
  decide +kernel

end GoSyntax
