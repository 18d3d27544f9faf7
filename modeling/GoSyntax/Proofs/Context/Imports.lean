import GoSyntax.Proofs.Context.Files

/-!
# Imports among declarations

The imports of a file should stand in front of its other declarations. But any declaration is read where the others are, an import too, so
it makes no difference whether a parser looks for imports first. An import behind another declaration is taken like one in front of it:
what is reported of the text behind a file does not depend on what the file declares.
-/

namespace GoSyntax

/-- The declaration is one of imports. -/
def Decl.isImport : Decl → Bool
  | .group _ g => g.keyword == .import
  | _ => false

@[simp] theorem Decl.isImport_move (shift : Location → Location) (d : Decl) : (d.move shift).isImport = d.isImport := by
  cases d with
  | bad _ | func _ _ => rfl
  | group _ g =>
    obtain ⟨keyword, specs, grouped⟩ := g
    rw [Decl.move, DeclGroup.move, isImport, isImport]

/-- No import stands behind a declaration that is none. -/
def ImportsFirst (decls : List Decl) : Prop := decls.Pairwise fun d d' => d'.isImport = true → d.isImport = true

instance (decls : List Decl) : Decidable (ImportsFirst decls) := inferInstanceAs (Decidable (decls.Pairwise _))

@[simp] theorem importsFirst_move (shift : Location → Location) (decls : List Decl) :
    ImportsFirst (decls.map (Decl.move shift)) ↔ ImportsFirst decls := by
  simp [ImportsFirst, List.pairwise_map]

/-- Imports come first in two lists put together if they do in each of them, and the first has nothing but imports or the second has none. -/
theorem importsFirst_append (decls more : List Decl) : ImportsFirst (decls ++ more)
    ↔ ImportsFirst decls ∧ ImportsFirst more ∧ ((∀ d ∈ decls, d.isImport = true) ∨ ∀ d ∈ more, d.isImport = false) := by
  have hacross : (∀ d ∈ decls, ∀ d' ∈ more, d'.isImport = true → d.isImport = true)
      ↔ (∀ d ∈ decls, d.isImport = true) ∨ ∀ d ∈ more, d.isImport = false := by
    constructor
    · intro h
      by_cases hmore : ∃ d' ∈ more, d'.isImport = true
      · obtain ⟨d', hd', himport⟩ := hmore
        exact .inl fun d hd => h d hd d' hd' himport
      · exact .inr fun d' hd' => Bool.eq_false_iff.2 fun himport => hmore ⟨d', hd', himport⟩
    · rintro (h | h) d hd d' hd' himport
      · exact h d hd
      · rw [h d' hd'] at himport
        nomatch himport
  rw [ImportsFirst, List.pairwise_append, hacross]
  exact Iff.rfl

namespace Grammar

open Parse Productions

variable {c : Cursor}

/-- One more import, unless another token comes next. -/
def importPass (p : Productions) (decls : Array Decl) : Parse (ForInStep (Array Decl)) := do
  if ← isAt Keyword.import then return .yield (decls.push (← decl p)) else return .done decls

/-- A package clause, then imports as long as they come, and then declarations up to the end of the input. -/
def sourceFileImportsFirst (p : Productions) : Parse SourceFile := do
  let here ← current
  let package ← packageClause
  let imports ← loop #[] (importPass p)
  let decls ← loop imports (declPass p)
  return ⟨here.loc, package, decls.toList⟩

theorem importPass_apply (decls : Array Decl) (c : Cursor) :
    importPass full decls c = if c.here.kind.sameKind Keyword.import = true
      then (.yield (decls.push (decl full (Parse.current c).2).1), (decl full (Parse.current c).2).2)
      else (.done decls, (Parse.current c).2) := by
  change (if c.here.kind.sameKind Keyword.import = true then decl full >>= fun d => Pure.pure (ForInStep.yield (decls.push d))
    else Pure.pure (ForInStep.done decls) : Parse _) (Parse.current c).2 = _
  split <;> rfl

theorem not_isAtEnd_of_import (h : c.here.kind.sameKind Keyword.import = true) : ¬c.here.kind.sameKind .eof = true := by
  rw [(TokenKind.Bare.sameKind_iff _).1 h]
  decide

theorem ends_importPass : Ends (importPass full) := by
  refine Advances.ends fun decls c decls' hyield => ?_
  rw [importPass_apply] at hyield ⊢
  by_cases himport : c.here.kind.sameKind Keyword.import = true
  · rw [if_pos himport]
    exact length_kinds_decl (not_isAtEnd_of_import himport)
  · rw [if_neg himport] at hyield
    nomatch hyield

/-- The imports in front are read as the declarations that they are. -/
theorem declarations_imports (decls : Array Decl) (c : Cursor) :
    Parse.loop (Parse.loop decls (importPass full) c).1 (declPass full) (Parse.loop decls (importPass full) c).2
      = Parse.loop decls (declPass full) c := by
  induction hn : c.kinds.length using Nat.strong_induction_on generalizing c decls with
  | _ n ih =>
    subst hn
    have hpass := importPass_apply decls c
    by_cases himport : c.here.kind.sameKind Keyword.import = true
    · rw [if_pos himport] at hpass
      have hend := not_isAtEnd_of_import himport
      rw [ends_importPass.loop_eq_of_yield (congrArg Prod.fst hpass), hpass, declarations_apply decls c, if_neg hend]
      exact ih _ (length_kinds_decl hend) _ _ rfl
    · rw [if_neg himport] at hpass
      rw [ends_importPass.loop_eq_of_done (congrArg Prod.fst hpass), hpass]
      exact declarations_current decls c

/-- To look for imports first makes no difference. -/
theorem sourceFileImportsFirst_eq : sourceFileImportsFirst full = sourceFile full := by
  funext c
  rw [sourceFile_apply]
  simp only [← declarations_imports #[]]
  rfl

end Grammar

/-- A parse is that of the grammar in which imports come first. -/
theorem parseFile_eq_importsFirst (path : SourcePath) (bytes : List UInt8) :
    parseFile path bytes = .ofParse (Grammar.sourceFileImportsFirst .full) path bytes := by
  rw [Grammar.sourceFileImportsFirst_eq]
  exact parseFile_eq path bytes

/-! ## Imports behind a file -/

variable {path : SourcePath} {a : List UInt8}

/-- Nothing is reported if nothing is wrong with the text and the parser has nothing to report. -/
theorem diagnostics_eq_nil_iff (path : SourcePath) (bytes : List UInt8) : (parseFile path bytes).diagnostics = []
    ↔ (Feed.tokens path bytes).pending = [] ∧ syntactic (parseFile path bytes).diagnostics = [] := by
  have htext : lexical (parseFile path bytes).diagnostics = (Feed.tokens path bytes).pending := lexical_parseFile path bytes
  rw [← htext]
  constructor
  · intro h
    rw [h]
    exact ⟨rfl, rfl⟩
  · rintro ⟨hlexical, hsyntactic⟩
    exact (eq_lexical_of_syntactic_eq_nil hsyntactic).trans hlexical

/-- Behind a text in which nothing is wrong, something is wrong with another just if something is behind a package clause. -/
theorem pending_tokens_behind (h : (Feed.tokens path a).pending = []) (b : List UInt8) :
    (Feed.tokens path (a ++ 10 :: b)).pending = [] ↔ (Feed.tokens path (Utf8.encode "package p\n".toList ++ b)).pending = [] := by
  have hclause : (Feed.tokens path (Utf8.encode "package p".toList)).pending = [] := by
    obtain ⟨-, hdiagnostics⟩ := parseFile_path ⟨0, ""⟩ path (Utf8.encode "package p".toList)
    refine ((diagnostics_eq_nil_iff path _).1 ?_).1
    rw [hdiagnostics, show (parseFile ⟨0, ""⟩ (Utf8.encode "package p".toList)).diagnostics = [] by decide +kernel]
    rfl
  have hmove : Undecoded.tokens ⟨path, b, 2 + a.count 10, false⟩
    = (Undecoded.tokens ⟨path, b, 2, false⟩).move (Location.down (a.count 10)) := Undecoded.tokens_move ⟨path, b, 2, false⟩ fun _ => rfl
  have hbehind := Undecoded.pending_tokens_append h b
  have halone := Undecoded.pending_tokens_append hclause b
  rw [Nat.add_right_comm, hmove, Feed.move, Feed.pending_relabel, List.map_eq_nil_iff] at hbehind
  rw [packageClause_append]
  exact hbehind.trans halone.symm

/-- Behind a file without a diagnostic any declarations may stand, imports too: there is no diagnostic if there is none behind a package
clause. So imports come first in both together only if they do in each of them, and only imports are in the first or none in the second. -/
theorem parseFile_append_imports (path : SourcePath) (a b : List UInt8) (h : (parseFile path a).diagnostics = []) :
    let file := (parseFile path a).tree
    let alone := parseFile path (Utf8.encode "package p\n".toList ++ b)
    let together := parseFile path (a ++ 10 :: b)
    (together.diagnostics = [] ↔ alone.diagnostics = [])
      ∧ together.tree.decls = file.decls ++ alone.tree.decls.map (Decl.move (Location.down (a.count 10)))
      ∧ (ImportsFirst together.tree.decls ↔ ImportsFirst file.decls ∧ ImportsFirst alone.tree.decls
        ∧ ((∀ d ∈ file.decls, d.isImport = true) ∨ ∀ d ∈ alone.tree.decls, d.isImport = false)) := by
  intro file alone together
  obtain ⟨hdecls, hsyntactic⟩ := declarations_parseFile_append h b
  refine ⟨?_, hdecls, ?_⟩
  · rw [diagnostics_eq_nil_iff, diagnostics_eq_nil_iff, hsyntactic, List.map_eq_nil_iff,
      pending_tokens_behind ((diagnostics_eq_nil_iff path a).1 h).1]
  · have himport : (∀ d ∈ alone.tree.decls.map (Decl.move (Location.down (a.count 10))), d.isImport = false)
        ↔ ∀ d ∈ alone.tree.decls, d.isImport = false := by simp
    rw [hdecls, importsFirst_append, importsFirst_move, himport]

/-- Imports behind imports, with a variable behind them all. -/
theorem parseFile_append_imports_variable :
    (parseFile ⟨0, "p.go"⟩ (Utf8.encode "package q\nimport \"a\"".toList)).diagnostics = []
      ∧ (parseFile ⟨0, "p.go"⟩
        (Utf8.encode "package q\nimport \"a\"".toList ++ 10 :: Utf8.encode "import \"b\"\nvar x int".toList)).diagnostics = []
      ∧ ImportsFirst (parseFile ⟨0, "p.go"⟩
        (Utf8.encode "package q\nimport \"a\"".toList ++ 10 :: Utf8.encode "import \"b\"\nvar x int".toList)).tree.decls := by
  have h : (parseFile ⟨0, "p.go"⟩ (Utf8.encode "package q\nimport \"a\"".toList)).diagnostics = [] := by decide +kernel
  obtain ⟨hclean, -, horder⟩ := parseFile_append_imports _ _ (Utf8.encode "import \"b\"\nvar x int".toList) h
  refine ⟨h, hclean.2 (by decide +kernel), horder.2 ⟨by decide +kernel, by decide +kernel, .inl (by decide +kernel)⟩⟩

/-- There is a file without a diagnostic in which an import stands behind a variable. -/
theorem exists_late_import : ∃ (path : SourcePath) (bytes : List UInt8),
    (parseFile path bytes).diagnostics = [] ∧ ¬ImportsFirst (parseFile path bytes).tree.decls :=
  ⟨⟨0, "<input>"⟩, Utf8.encode "package p\nvar x int\nimport \"a\"\n".toList, by decide +kernel, by decide +kernel⟩

end GoSyntax
