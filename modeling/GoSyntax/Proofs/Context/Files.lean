import GoSyntax.Proofs.Context.Declarations
import GoSyntax.Proofs.Context.Endings
import GoSyntax.Proofs.Context.Scanning
import GoSyntax.Proofs.TwoRuns.Reports

/-!
# Files put together

Behind a file that is parsed without a diagnostic more may stand: it is parsed as if the file were not there. Nothing is carried over a
finished declaration, neither by the scan nor by the parser, so what comes behind it is parsed as behind a package clause, whatever it is.
-/

namespace GoSyntax

namespace Grammar

open Cursor FollowsAt Productions

variable {shift : Location → Location} {behind : Feed Token} {due : List Diagnostic} {c c' : Cursor}

/-- A file, by its parts. -/
theorem sourceFile_apply (c : Cursor) :
    let afterClause := packageClause (Parse.current c).2
    let decls := Parse.loop #[] (declPass full) afterClause.2
    sourceFile full c = (⟨c.here.loc, afterClause.1, decls.1.toList⟩, decls.2) := rfl

/-- Without a diagnostic the last token of a file is a `;`. -/
theorem getLast?_kinds_of_sourceFile (hclean : (sourceFile full c).2.log = #[]) : c.kinds.getLast? = some (.punctuation .semicolon) := by
  have hend := sourceFile_reached c
  rw [run_sourceFile] at hend
  obtain ⟨w, hw, hkinds⟩ := hend.words hclean
  rw [kinds_eq_nil hend.face, List.append_nil] at hkinds
  obtain ⟨kind, hlast, rfl⟩ := SourceFile.endsIn_layout _ w hw
  rw [← hkinds, hlast]

theorem log_eq_of_declarations (decls : Array Decl) (hclean : (Parse.loop decls (declPass full) c).2.log = #[]) : c.log = #[] := by
  have hself : Follows .untilReport (decl full) (decl full) := decl_follows (pursued_of_reports fun _ => id)
    fun n n' m m' hn hm => by rw [show n = n' from hn, show m = m' from hm]
  exact not_not.1 fun hne => FollowsAt.passes_lost (declPass_follows hself) _ decls c hne hclean

/-- Where more stands behind a file, its package and its declarations are read, and then what stands there. -/
theorem sourceFile_ahead (h : Ahead shift behind due c c') (hclean : (sourceFile full c).2.log = #[]) :
    ∃ rest : Cursor, rest.feed = behind ∧ rest.dues = due ∧ sourceFile full c' =
      (⟨shift (sourceFile full c).1.loc, (sourceFile full c).1.package.move shift,
        (sourceFile full c).1.decls.map (Decl.move shift) ++ (Parse.loop #[] (declPass full) rest).1.toList⟩,
        (Parse.loop #[] (declPass full) rest).2) := by
  have hkinds : c.kinds ≠ [] := fun hnil => by
    have hlast := getLast?_kinds_of_sourceFile hclean
    rw [hnil] at hlast
    nomatch hlast
  have hhere : c'.here = moved shift c.here := h.here_eq hkinds
  rw [sourceFile_apply] at hclean ⊢
  rw [sourceFile_apply]
  have hclause : (packageClause (Parse.current c).2).2.log = #[] := log_eq_of_declarations _ hclean
  have hstart : (Parse.current c).2.log = #[] := log_eq_of_clean packageClause_follows hclause
  have hpeek : Ahead shift behind due (Parse.current c).2 (Parse.current c').2 := h.current hkinds hstart
  obtain ⟨hpackage, hahead⟩ := packageClause_ahead hpeek hclause
  obtain ⟨new, rest, hnew, hfeed, hdue, hrest⟩ := declarations_ahead hahead #[] hclean
  refine ⟨rest, hfeed, hdue, ?_⟩
  dsimp only at hnew ⊢
  rw [hrest, declarations_append, hpackage, hhere, hnew, Array.empty_append, Array.empty_append, Array.toList_append, toList_moved]
  rfl

/-- Declarations are read alike by who has looked at the first token of them. -/
theorem declarations_current (decls : Array Decl) (c : Cursor) :
    Parse.loop decls (declPass full) (Parse.current c).2 = Parse.loop decls (declPass full) c := by
  have hhere : (Parse.current c).2.here = c.here := here_peek 0 c
  rw [declarations_apply, declarations_apply decls c, hhere, current_current]

end Grammar

theorem tree_parseFile (path : SourcePath) (bytes : List UInt8) :
    (parseFile path bytes).tree = (Grammar.sourceFile .full (.start path bytes)).1 := (parsed_of_run Grammar.run_sourceFile path bytes).1

theorem diagnostics_parseFile (path : SourcePath) (bytes : List UInt8) :
    (parseFile path bytes).diagnostics = (Grammar.sourceFile .full (.start path bytes)).2.log.toList :=
  (parsed_of_run Grammar.run_sourceFile path bytes).2

/-! ## The same file under another path -/

/-- A parse carries the path along and does not look at it. -/
theorem parseFile_path (path path' : SourcePath) (bytes : List UInt8) :
    (parseFile path' bytes).tree = (parseFile path bytes).tree.move (fun l => ⟨path', l.line⟩)
      ∧ (parseFile path' bytes).diagnostics = (parseFile path bytes).diagnostics.map (Diagnostic.move fun l => ⟨path', l.line⟩) := by
  have htokens : (Cursor.start path' bytes).feed = (Cursor.start path bytes).feed.move (fun l => ⟨path', l.line⟩) :=
    Undecoded.tokens_move (n := 0) (.ofBytes path bytes) fun _ => rfl
  obtain ⟨htree, made, hmade, hmade'⟩ := Grammar.sourceFile_beside htokens
  rw [tree_parseFile, tree_parseFile, diagnostics_parseFile, diagnostics_parseFile, hmade, hmade']
  exact ⟨htree, rfl⟩

/-! ## More behind a file -/

variable {path : SourcePath} {a : List UInt8}

/-- A file without a diagnostic goes ahead of the same file with more behind it. -/
theorem Cursor.exists_ahead_start (h : (parseFile path a).diagnostics = []) (b : List UInt8) : ∃ behind : Feed Token,
    Cursor.Ahead id behind (Feed.tokens path (a ++ 10 :: b)).pending (.start path a) (.start path (a ++ 10 :: b))
      ∧ (behind.look 1).2 = ((Undecoded.tokens ⟨path, b, 2 + a.count 10, false⟩).look 1).2 := by
  have htext := pending_of_clean h
  obtain ⟨ns, behind, htokens, hvalues, hlook⟩ := Undecoded.exists_tokens_append htext b
  rw [Nat.add_right_comm] at hlook
  refine ⟨behind, ⟨rfl, ⟨ns, htokens, ?_⟩, List.nil_append _, fun kind hkind => ?_⟩, hlook⟩
  · rw [hvalues]
    exact (List.map_id'' (fun _ => rfl) _).symm
  · rw [diagnostics_parseFile] at h
    rw [Grammar.getLast?_kinds_of_sourceFile (Array.toList_eq_nil_iff.1 h)] at hkind
    obtain rfl := Option.some.inj hkind
    rfl

/-- What is behind a file without a diagnostic is read behind its declarations. -/
theorem exists_parseFile_append (h : (parseFile path a).diagnostics = []) (b : List UInt8) : ∃ rest : Cursor,
    (rest.feed.look 1).2 = ((Undecoded.tokens ⟨path, b, 2 + a.count 10, false⟩).look 1).2
      ∧ rest.dues = (Feed.tokens path (a ++ 10 :: b)).pending
      ∧ (parseFile path (a ++ 10 :: b)).tree = { (parseFile path a).tree with
        decls := (parseFile path a).tree.decls ++ (Parse.loop #[] (Grammar.declPass .full) rest).1.toList }
      ∧ (parseFile path (a ++ 10 :: b)).diagnostics = (Parse.loop #[] (Grammar.declPass .full) rest).2.log.toList := by
  obtain ⟨behind, hahead, hlook⟩ := Cursor.exists_ahead_start h b
  rw [diagnostics_parseFile] at h
  obtain ⟨rest, hfeed, hdue, hfile⟩ := Grammar.sourceFile_ahead hahead (Array.toList_eq_nil_iff.1 h)
  have hid : (Grammar.sourceFile .full (.start path a)).1.move id = (Grammar.sourceFile .full (.start path a)).1 :=
    Grammar.moved_id_sourceFile _
  refine ⟨rest, hfeed ▸ hlook, hdue, ?_⟩
  rw [tree_parseFile, tree_parseFile, diagnostics_parseFile, hfile]
  refine ⟨?_, rfl⟩
  generalize (Grammar.sourceFile .full (.start path a)).1 = f at hid ⊢
  obtain ⟨-, hpackage, hdecls⟩ := SourceFile.mk.inj hid
  dsimp only
  rw [hpackage, hdecls]
  rfl

/-- The same tokens elsewhere, from behind what has been found in front of them on, are read alike. -/
theorem declarations_alike {rest rest' : Cursor} {shift : Location → Location}
    (hlook : (rest'.feed.look 1).2 = (rest.feed.look 1).2.move shift) :
    (Parse.loop #[] (Grammar.declPass .full) rest').1 = moved shift (Parse.loop #[] (Grammar.declPass .full) rest).1
      ∧ ∃ made, (Parse.loop #[] (Grammar.declPass .full) rest).2.log.toList = (Parse.current rest).2.log.toList ++ made
        ∧ (Parse.loop #[] (Grammar.declPass .full) rest').2.log.toList = (Parse.current rest').2.log.toList ++ moved shift made := by
  have hbeside : Cursor.Beside shift (Parse.current rest).2.log.toList (Parse.current rest').2.log.toList (Parse.current rest).2
      (Parse.current rest').2 := ⟨hlook, [], (List.append_nil _).symm, (List.append_nil _).symm⟩
  obtain ⟨hdecls, -, hmade⟩ := Grammar.declarations_beside hbeside #[]
  rw [moved_empty, Grammar.declarations_current, Grammar.declarations_current] at *
  exact ⟨hdecls, hmade⟩

/-- Where nothing but what the text reports by itself is due, looking at the next token reports nothing about the order of the tokens. -/
theorem Cursor.syntactic_current {c : Cursor} (h : Lexical c.dues) : syntactic (Parse.current c).2.log.toList = [] := by
  rw [← Cursor.dues_peek 0] at h
  exact h.left.syntactic_eq_nil

/-- What stands behind two files without a diagnostic, further down behind the first one, is read alike. -/
theorem declarations_behind {rest rest' : Cursor} {shift : Location → Location}
    (hlook : (rest'.feed.look 1).2 = (rest.feed.look 1).2.move shift)
    (hdues : Lexical rest.dues) (hdues' : Lexical rest'.dues) :
    (Parse.loop #[] (Grammar.declPass .full) rest').1 = moved shift (Parse.loop #[] (Grammar.declPass .full) rest).1
      ∧ syntactic (Parse.loop #[] (Grammar.declPass .full) rest').2.log.toList
        = (syntactic (Parse.loop #[] (Grammar.declPass .full) rest).2.log.toList).map (Diagnostic.move shift) := by
  obtain ⟨hdecls, made, hmade, hmade'⟩ := declarations_alike hlook
  refine ⟨hdecls, ?_⟩
  rw [hmade, hmade', syntactic_append, syntactic_append, Cursor.syntactic_current hdues, Cursor.syntactic_current hdues']
  exact List.filter_map

theorem packageClause_append (b : List UInt8) :
    Utf8.encode "package p\n".toList ++ b = Utf8.encode "package p".toList ++ 10 :: b := by
  rw [show Utf8.encode "package p\n".toList = Utf8.encode "package p".toList ++ [10] by decide +kernel, List.append_assoc]
  rfl

/-- What is behind a package clause is read from its first token on. -/
theorem exists_parseFile_package (path : SourcePath) (b : List UInt8) : ∃ rest : Cursor,
    (rest.feed.look 1).2 = ((Undecoded.tokens ⟨path, b, 2, false⟩).look 1).2
      ∧ rest.dues = (Feed.tokens path (Utf8.encode "package p\n".toList ++ b)).pending
      ∧ (parseFile path (Utf8.encode "package p\n".toList ++ b)).tree.decls = (Parse.loop #[] (Grammar.declPass .full) rest).1.toList
      ∧ (parseFile path (Utf8.encode "package p\n".toList ++ b)).diagnostics
        = (Parse.loop #[] (Grammar.declPass .full) rest).2.log.toList := by
  obtain ⟨htree, hdiagnostics⟩ := parseFile_path ⟨0, ""⟩ path (Utf8.encode "package p".toList)
  have hclause : (parseFile path (Utf8.encode "package p".toList)).diagnostics = [] := by
    rw [hdiagnostics, show (parseFile ⟨0, ""⟩ (Utf8.encode "package p".toList)).diagnostics = [] by decide +kernel]
    rfl
  have hdecls : (parseFile path (Utf8.encode "package p".toList)).tree.decls = [] := by
    rw [htree]
    exact congrArg (List.map _) (show (parseFile ⟨0, ""⟩ (Utf8.encode "package p".toList)).tree.decls = [] by decide +kernel)
  obtain ⟨rest, hlook, hdues, hfile, hlog⟩ := exists_parseFile_append hclause b
  rw [packageClause_append]
  refine ⟨rest, hlook, hdues, ?_, hlog⟩
  rw [hfile, hdecls, List.nil_append]

/-- The declarations behind a file without a diagnostic and what the parser reports of them are as behind a package clause, further down. -/
theorem declarations_parseFile_append (h : (parseFile path a).diagnostics = []) (b : List UInt8) :
    (parseFile path (a ++ 10 :: b)).tree.decls = (parseFile path a).tree.decls
        ++ (parseFile path (Utf8.encode "package p\n".toList ++ b)).tree.decls.map (Decl.move (Location.down (a.count 10)))
      ∧ syntactic (parseFile path (a ++ 10 :: b)).diagnostics
        = (syntactic (parseFile path (Utf8.encode "package p\n".toList ++ b)).diagnostics).map
          (Diagnostic.move (Location.down (a.count 10))) := by
  obtain ⟨rest', hlook', hdues', htree', hdiagnostics'⟩ := exists_parseFile_append h b
  obtain ⟨rest, hlook, hdues, hdecls, hdiagnostics⟩ := exists_parseFile_package path b
  have hlooks : (rest'.feed.look 1).2 = (rest.feed.look 1).2.move (Location.down (a.count 10)) := by
    have hmove : Undecoded.tokens ⟨path, b, 2 + a.count 10, false⟩
      = (Undecoded.tokens ⟨path, b, 2, false⟩).move (Location.down (a.count 10)) := Undecoded.tokens_move ⟨path, b, 2, false⟩ fun _ => rfl
    rw [hlook', hmove, hlook, Feed.move, Feed.look_relabel]
  obtain ⟨hloop, hsyntactic⟩ := declarations_behind hlooks (hdues ▸ Feed.lexical_tokens path _) (hdues' ▸ Feed.lexical_tokens path _)
  rw [htree', hdiagnostics', hdiagnostics, hdecls, hloop]
  exact ⟨by rw [toList_moved]; rfl, hsyntactic⟩

/-- Behind a file without a diagnostic more is parsed as behind a package clause: its declarations come behind those of the file, and
there are the same syntactic diagnostics, on lines further down by those of the file. -/
theorem parseFile_append (path : SourcePath) (a b : List UInt8) (h : (parseFile path a).diagnostics = []) :
    (parseFile path (a ++ 10 :: b)).tree = { (parseFile path a).tree with
        decls := (parseFile path a).tree.decls
          ++ (parseFile path (Utf8.encode "package p\n".toList ++ b)).tree.decls.map (Decl.move (Location.down (a.count 10))) }
      ∧ (parseFile path (a ++ 10 :: b)).diagnostics.filter (fun d => !d.isLexical)
        = ((parseFile path (Utf8.encode "package p\n".toList ++ b)).diagnostics.filter fun d => !d.isLexical).map
          (Diagnostic.move (Location.down (a.count 10))) := by
  obtain ⟨rest, -, -, htree, -⟩ := exists_parseFile_append h b
  obtain ⟨hdecls, hsyntactic⟩ := declarations_parseFile_append h b
  refine ⟨?_, hsyntactic⟩
  rw [← hdecls, htree]

/-- A name is missing in the third line, behind a file of two. -/
theorem parseFile_append_var :
    (parseFile ⟨0, "p.go"⟩ (Utf8.encode "package q\nvar x int".toList)).diagnostics = []
      ∧ (parseFile ⟨0, "p.go"⟩ (Utf8.encode "package q\nvar x int".toList ++ 10 :: Utf8.encode "var = 1".toList)).tree.decls.length = 2
      ∧ (parseFile ⟨0, "p.go"⟩ (Utf8.encode "package q\nvar x int".toList ++ 10 :: Utf8.encode "var = 1".toList)).diagnostics.filter
          (fun d => !d.isLexical) = [⟨.expectedIdentifier "\x60=\x60", ⟨⟨0, "p.go"⟩, 3⟩⟩] := by
  have h : (parseFile ⟨0, "p.go"⟩ (Utf8.encode "package q\nvar x int".toList)).diagnostics = [] := by decide +kernel
  obtain ⟨htree, hdiagnostics⟩ := parseFile_append _ _ (Utf8.encode "var = 1".toList) h
  refine ⟨h, ?_, hdiagnostics.trans (by decide +kernel)⟩
  rw [htree]
  decide +kernel

end GoSyntax
