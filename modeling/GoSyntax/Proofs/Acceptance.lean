import GoSyntax.Proofs.Reading.File

/-!
# What the diagnostics say of the tree

A source that is parsed without a diagnostic is a spelling of its tree, and however a source is parsed, each placeholder in the tree
has a syntactic diagnostic of its own on its line.
-/

namespace GoSyntax

open Parse

/-- Where a parser ends that is run at the depth of its source. -/
theorem Grammar.run_reached {α : Type} (parser : Productions → Parse α) (w : α → Tally) (ψ : Token → Prop)
    (h : ∀ n p q, Agrees n p q → ∀ start, Same (Reached start n 1 ⊤) (parser p) (parser q) fun a => Reached start n (1 * w a) ψ)
    (c : Cursor) : Reached c (c.feed.items.length + 1) (w (run parser c).1) ψ (run parser c).2 := by
  have hlen : c.kinds.length = c.feed.items.length := by simp [Cursor.kinds, Cursor.tokens]
  have hend := (h _ _ _ (.deepenBy .exhausted .exhausted (c.feed.items.length + 1)) c c (.refl (Nat.lt_succ_of_le hlen.le) trivial)).2
  exact hend.mono le_rfl (one_mul _).le id

theorem Grammar.sourceFile_reached (c : Cursor) :
    Reached c (c.feed.items.length + 1) (run sourceFile c).1.tally (·.kind = .eof) (run sourceFile c).2 :=
  run_reached sourceFile SourceFile.tally _ (fun _ _ _ h _ => sourceFile_same h le_rfl) c

theorem Grammar.exprFragment_reached (c : Cursor) :
    Reached c (c.feed.items.length + 1) ((run exprFragment c).1.tally * ⊤) ⊤ (run exprFragment c).2 :=
  run_reached exprFragment (fun e => e.tally * ⊤) ⊤ (fun n _ _ h start => exprFragment_reads h n le_rfl start 1) c

theorem Grammar.stmtFragment_reached (c : Cursor) :
    Reached c (c.feed.items.length + 1) ((run stmtFragment c).1.tally * ⊤) ⊤ (run stmtFragment c).2 :=
  run_reached stmtFragment (fun s => s.tally * ⊤) ⊤ (fun n _ _ h start => stmtFragment_reads h n le_rfl start 1) c

/-- A cursor at the end of its input has no tokens left. -/
theorem Cursor.kinds_eq_nil {c : Cursor} (h : c.here.kind = .eof) : c.kinds = [] := by
  obtain ⟨_, hkinds⟩ | ⟨_, hscanned, _⟩ := c.kinds_cases
  · exact hkinds
  · rw [h] at hscanned
    exact hscanned.elim

/-- The kinds of the tokens of a source are those a cursor starts with, and the end of the input. -/
theorem kinds_tokenize (path : SourcePath) (bytes : List UInt8) :
    (tokenize path bytes).1.map Token.kind = (Cursor.start path bytes).kinds ++ [.eof] := by
  have hlast : (Feed.tokens path bytes).last.value.kind = .eof := (Feed.scanned_tokens path bytes).1
  simp [tokenize, Feed.values, Cursor.start, Cursor.kinds, Cursor.tokens, hlast]

/-- A source file that is parsed without a diagnostic is a spelling of its tree: what the layout of the tree lists, from left to
right, are all tokens of the source before the end of the input. -/
theorem parseFile_spelling (path : SourcePath) (bytes : List UInt8) (h : (parseFile path bytes).diagnostics = []) :
    ∃ spelling ∈ (parseFile path bytes).tree.layout.words,
      (tokenize path bytes).1.map Token.kind = spelling ++ [.eof] := by
  have hend := Grammar.sourceFile_reached (.start path bytes)
  obtain ⟨spelling, hspelling, heq⟩ := hend.words (Array.toList_eq_nil_iff.1 h)
  refine ⟨spelling, hspelling, ?_⟩
  rw [Cursor.kinds_eq_nil hend.face, List.append_nil] at heq
  rw [kinds_tokenize, ← heq]

/-- `package p;` -/
theorem parseFile_spelling_package :
    (parseFile ⟨0, "p.go"⟩ [112, 97, 99, 107, 97, 103, 101, 32, 112, 59]).diagnostics = [] ∧
      ∃ spelling ∈ (parseFile ⟨0, "p.go"⟩ [112, 97, 99, 107, 97, 103, 101, 32, 112, 59]).tree.layout.words,
        (tokenize ⟨0, "p.go"⟩ [112, 97, 99, 107, 97, 103, 101, 32, 112, 59]).1.map Token.kind = spelling ++ [.eof] :=
  have h : (parseFile ⟨0, "p.go"⟩ [112, 97, 99, 107, 97, 103, 101, 32, 112, 59]).diagnostics = [] := by decide +kernel
  ⟨h, parseFile_spelling _ _ h⟩

/-! ## Placeholders -/

/-- On every line there are no more placeholders in the tree than syntactic diagnostics, and none at all without a diagnostic. -/
structure Parsed.Covers {α : Type} (nodes : α → List Node) (r : Parsed α) : Prop where
  onLine : ∀ line, (placeholders (nodes r.tree)).countP (·.line = line)
    ≤ r.diagnostics.countP fun d => !d.isLexical && d.loc.line = line
  clean : r.diagnostics = [] → placeholders (nodes r.tree) = []

theorem Parsed.covers_ofBytes {α : Type} (parser : Productions → Parse α) {nodes : α → List Node} (path : SourcePath)
    (bytes : List UInt8) (h : (placeholders (nodes (Grammar.run parser (.start path bytes)).1) : Multiset Location)
      ≤ (Grammar.run parser (.start path bytes)).2.faults) : (ofBytes parser path bytes).Covers nodes := by
  have hle : (placeholders (nodes (ofBytes parser path bytes).tree) : Multiset Location)
      ≤ (((ofBytes parser path bytes).diagnostics.filter fun d => !d.isLexical).map Diagnostic.loc : List Location) := h
  generalize ofBytes parser path bytes = r at hle
  refine ⟨fun line => ?_, fun hnone => ?_⟩
  · have hcount := Multiset.countP_le_of_le (·.line = line) hle
    rw [Multiset.coe_countP, Multiset.coe_countP, List.countP_map, List.countP_filter] at hcount
    simpa [Bool.and_comm, Function.comp_def] using hcount
  · rw [hnone] at hle
    exact Multiset.coe_eq_zero _ |>.1 (Multiset.le_zero.1 hle)

/-- Whatever the source, each placeholder in the tree of a file, an expression or a statement has been reported where it stands. -/
theorem placeholders_covered (path : SourcePath) (bytes : List UInt8) :
    (parseFile path bytes).Covers SourceFile.nodes ∧ (parseExpr path bytes).Covers Expr.nodes
      ∧ (parseStmt path bytes).Covers Stmt.nodes := by
  refine ⟨Parsed.covers_ofBytes _ path bytes ?_, Parsed.covers_ofBytes _ path bytes ?_, Parsed.covers_ofBytes _ path bytes ?_⟩
  · exact (Grammar.sourceFile_reached (.start path bytes)).placeholders
  · exact (Multiset.le_add_right _ _).trans (Grammar.exprFragment_reached (.start path bytes)).placeholders
  · exact (Multiset.le_add_right _ _).trans (Grammar.stmtFragment_reached (.start path bytes)).placeholders

end GoSyntax
