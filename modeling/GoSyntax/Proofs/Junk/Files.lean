import GoSyntax.Proofs.Junk.Declarations
import GoSyntax.Proofs.Recovery.Resumption

/-!
# Files with junk in them

The whole grammar repeats its clean runs with edited lists. At the top level junk is kept as a declaration that could not be read, up to the
next keyword that starts one.
-/

namespace GoSyntax

open Grammar Productions

variable {S : Site} {p : Productions}

/-! ## All depths -/

namespace Productions

theorem grafting_refusing : refusing.Grafting S where
  type? := .never fun _ => Array.push_ne_empty
  expr _ := .never fun _ => Array.push_ne_empty
  unary _ := .never fun _ => Array.push_ne_empty
  elementValue _ := .never fun _ => Array.push_ne_empty
  stmt := .never fun _ => Array.push_ne_empty
  clean := pursued_untilReport 0

theorem Grafting.deepen (h : p.Grafting S) (hclean : p.deepen.Pursued .untilReport full) : p.deepen.Grafting S where
  type? := by
    rw [← deepen_full]
    exact type?_grafts h false
  expr level := by
    rw [← deepen_full]
    exact expr_grafts h level
  unary level := by
    rw [← deepen_full]
    exact unary_grafts h level
  elementValue level := by
    rw [← deepen_full]
    exact elementValue_grafts h level
  stmt := by
    rw [← deepen_full]
    exact stmt_grafts h
  clean := hclean

theorem grafting_deepenBy (n : Nat) : (refusing.deepenBy n).Grafting S := by
  induction n with
  | zero => exact grafting_refusing
  | succ n ih => exact ih.deepen (pursued_untilReport (n + 1))

/-- The whole grammar is repeated: each of its runs is one of some depth. -/
theorem grafting_full : full.Grafting S where
  type? := .of_same fun c => ⟨_, (grafting_deepenBy (c.kinds.length + 1)).type?, (sameAt_full _ (Nat.lt_succ_self _)).type?⟩
  expr level := .of_same fun c =>
    ⟨_, (grafting_deepenBy (c.kinds.length + 1)).expr level, (sameAt_full _ (Nat.lt_succ_self _)).expr level⟩
  unary level := .of_same fun c =>
    ⟨_, (grafting_deepenBy (c.kinds.length + 1)).unary level, (sameAt_full _ (Nat.lt_succ_self _)).unary level⟩
  elementValue level := .of_same fun c =>
    ⟨_, (grafting_deepenBy (c.kinds.length + 1)).elementValue level, (sameAt_full _ (Nat.lt_succ_self _)).elementValue level⟩
  stmt := .of_same fun c => ⟨_, (grafting_deepenBy (c.kinds.length + 1)).stmt, (sameAt_full _ (Nat.lt_succ_self _)).stmt⟩
  clean := pursued_of_reports fun _ => id

end Productions

namespace Grammar

open Grafts

/-! ## Declarations -/

/-- A declaration that starts with a token, without the `;` behind it. -/
def declarationFrom (here : Token) : Parse Decl :=
  match here.kind with
  | .keyword .func => .func here.loc <$> funcDecl full
  | .keyword keyword => if Recovery.declarationStart.contains (.keyword keyword) then .group here.loc <$> declGroup full keyword else badDecl
  | _ => badDecl

/-- A declaration without the `;` behind it. -/
def declaration : Parse Decl := do declarationFrom (← Parse.current)

/-- How the declarations of a file are read. -/
def declForm : ListForm Decl (Array Decl) := arrayForm (·.sameKind .eof) Recovery.declarationStart.contains (fun _ => false) Decl.loc

theorem declFrom_eq (kind : TokenKind) (loc : Location) :
    Recovery.declarationStart.contains kind = true
        ∧ (∀ n, declFrom full ⟨kind, loc⟩ n = declared (declarationFrom ⟨kind, loc⟩) (n < ·) id)
        ∧ Gives (fun d => d.loc = loc) (declarationFrom ⟨kind, loc⟩)
      ∨ Recovery.declarationStart.contains kind = false ∧ ∀ n, declFrom full ⟨kind, loc⟩ n = badDecl := by
  have hgives : ∀ {α : Type} (f : Parse α) (r : α → Decl), (∀ a, (r a).loc = loc) → Gives (fun d => d.loc = loc) (r <$> f) := fun f r h =>
    fun c => h _
  have hstray : (∀ k, kind ≠ .keyword k) → Recovery.declarationStart.contains kind = false := fun h => Bool.eq_false_iff.2 fun hstarts => by
    obtain ⟨k, -, hk⟩ := (TokenSet.contains_keywords _ _).1 hstarts
    exact h k hk
  cases kind with
  | keyword word =>
    cases word with
    | func | const | var | type | «import» => exact .inl ⟨rfl, fun _ => rfl, hgives _ _ fun _ => rfl⟩
    | _ => exact .inr ⟨rfl, fun _ => rfl⟩
  | _ => exact .inr ⟨hstray fun k h => (nomatch h), fun _ => rfl⟩

theorem declaration_current (c : Cursor) : declaration (Parse.current c).2 = declarationFrom c.here (Parse.current c).2 := by
  rw [declaration, Parse.bind_apply, Cursor.current_current]

/-- A declaration starts with one of the keywords, and a `;` is asked for behind it. -/
theorem decl_start {c : Cursor} (h : Recovery.declarationStart.contains c.here.kind = true) :
    decl full (Parse.current c).2 = declared declaration ((Parse.current c).2.log.size < ·) id (Parse.current c).2 := by
  obtain ⟨-, hdecl, -⟩ | ⟨hstray, -⟩ := declFrom_eq c.here.kind c.here.loc
  · rw [decl_apply, Cursor.here_current, Cursor.current_current]
    refine (congrArg (· (Parse.current c).2) (hdecl _)).trans ?_
    rw [declared_apply, declared_apply, declaration_current]
  · rw [hstray] at h
    exact absurd h Bool.false_ne_true

/-- Anything else is kept as a bad declaration. -/
theorem decl_stray {c : Cursor} (h : Recovery.declarationStart.contains c.here.kind = false) :
    decl full (Parse.current c).2 = (.bad c.here.loc, (skipFrom .expectedDeclaration Recovery.declarationStart (Parse.current c).2).2) := by
  obtain ⟨hstarts, -⟩ | ⟨-, hdecl⟩ := declFrom_eq c.here.kind c.here.loc
  · rw [hstarts] at h
    exact absurd h.symm Bool.false_ne_true
  · rw [decl_apply, Cursor.here_current, Cursor.current_current]
    refine (congrArg (· (Parse.current c).2) (hdecl _)).trans ?_
    change (Decl.bad (Parse.current c).2.here.loc, (skipFrom _ _ (Parse.current (Parse.current c).2).2).2) = _
    rw [Cursor.here_current, Cursor.current_current]

/-- A `;` ends a declaration. -/
theorem atOrSemicolon_declaration (c : Cursor) : atOrSemicolon (fun _ => false) c = Parse.accept Punctuation.semicolon c := by
  rw [atOrSemicolon_apply, if_neg Bool.false_ne_true]

theorem declPass_reads : declForm.Reads (fun _ => declaration) (declPass full) := by
  have hgoesOn : ∀ {c : Cursor}, declForm.ends c.here.kind = false → ¬c.here.kind.sameKind .eof = true := fun hend heof =>
    Bool.false_ne_true (hend.symm.trans heof)
  refine ⟨fun decls c (hend : c.here.kind.sameKind .eof = true) => ?_, fun decls c hend hstarts hended => ?_,
    fun decls c _ hend hclean => ?_⟩
  · rw [declPass_apply, if_pos hend]
    rfl
  · change (atOrSemicolon (fun _ => false) (declaration (Parse.current c).2).2).1 = true at hended
    rw [declPass_apply, if_neg (hgoesOn hend), decl_start hstarts, declared_apply, declEnd_apply]
    change _ = (ForInStep.yield (decls.push (declaration (Parse.current c).2).1),
      (atOrSemicolon (fun _ => false) (declaration (Parse.current c).2).2).2)
    rw [atOrSemicolon_declaration, Parse.accept_apply] at hended ⊢
    split at hended
    · next hsemicolon => rw [if_pos hsemicolon, if_pos hsemicolon, Parse.consume_current, id]
    · exact absurd hended Bool.false_ne_true
  · change Recovery.declarationStart.contains c.here.kind = true
      ∧ (atOrSemicolon (fun _ => false) (declaration (Parse.current c).2).2).1 = true
    rw [declPass_apply, if_neg (hgoesOn hend)] at hclean
    change (decl full (Parse.current c).2).2.log = #[] at hclean
    cases hstarts : Recovery.declarationStart.contains c.here.kind with
    | true =>
      refine ⟨rfl, ?_⟩
      rw [decl_start hstarts] at hclean
      have hquiet : (fun n => decide ((Parse.current c).2.log.size < n)) 0 = false := decide_eq_false (Nat.not_lt_zero _)
      obtain ⟨hdeclEnd, -⟩ := declEnd_of_declared hquiet hclean
      rw [atOrSemicolon_declaration, Parse.accept_apply, if_pos (by rw [here_of_declEnd hdeclEnd]; rfl)]
    | false =>
      rw [decl_stray hstarts] at hclean
      exact absurd hclean (skipFrom_log_ne _ _ _)

/-- Junk between declarations is kept as a declaration that could not be read. -/
theorem declPass_crosses (hlisting : S.listing = .declarations) (decls : Array Decl) {c : Cursor}
    (hstarts : Recovery.declarationStart.contains S.next.kind = true) (hc : c.feed.values = S.junk ++ S.next :: S.behind)
    (hreports : S.origin.Reports [] c) : ∃ d, declPass full decls c = (.yield (decls.push (.bad S.reported.loc)), d)
      ∧ d.feed.values = S.next :: S.behind ∧ S.origin.Reports [S.reported] d := by
  have hhere : c.here = S.first := Cursor.here_of_values hc
  have hstray : S.listing.starts S.first.kind = false := S.stray
  have hnone := S.separates
  obtain ⟨-, heof⟩ := S.skipped S.first List.mem_cons_self
  rw [hlisting] at hstray hnone
  have hgoesOn : ¬c.here.kind.sameKind .eof = true := fun hkind => by
    rw [hhere] at hkind
    exact heof ((TokenKind.Bare.sameKind_iff _).1 hkind)
  have hother : Recovery.declarationStart.contains c.here.kind = false := by
    rw [hhere]
    exact hstray
  have hlooked : (Parse.current c).2.feed.values = S.junk ++ S.next :: S.behind := (Feed.values_look c.feed 1).trans hc
  obtain ⟨hvalues, hskip⟩ := skipFrom_junk hlooked (hreports.trans (Cursor.reports_current hreports.lexical))
    (by rw [List.map_eq_nil_iff.1 hnone]; rfl) (by rw [hlisting]; exact hstarts)
  rw [hlisting] at hvalues hskip
  refine ⟨_, ?_, hvalues, hskip⟩
  rw [declPass_apply, if_neg hgoesOn, decl_stray hother, hhere]
  rfl

theorem declaration_grafts : Grafted S declaration (fun _ => declaration) := by
  have hbad : ∀ c, (badDecl c).2.log ≠ #[] := fun c => skipFrom_log_ne _ _ (Parse.current c).2
  refine current.bind fun here => ?_
  dsimp only [edited_token]
  unfold declarationFrom
  split
  · exact (funcDecl_grafts grafting_full).map fun _ _ => rfl
  · exact .ite ((declGroup_grafts grafting_full _).map fun _ _ => rfl) (.never hbad)
  · exact .never hbad

/-- What is known of the declarations of two files, one of them with junk in it. -/
theorem declarations_laws : LoopLaws S (inList Editing.decls) (declPass full) (declPass full)
    (S.Safe declForm fun _ => S.listing ≠ .declarations) := by
  have hloc : ∀ c, Recovery.declarationStart.contains c.here.kind = true → (declaration c).2.log = #[] →
    (declaration c).1.loc = c.here.loc := by
    intro c hstarts _
    obtain ⟨-, -, hgives⟩ | ⟨hstray, -⟩ := declFrom_eq c.here.kind c.here.loc
    · exact hgives (Parse.current c).2
    · rw [hstarts] at hstray
      exact absurd hstray.symm Bool.false_ne_true
  exact (S.inserts_decls.listLaws (fun E d => by cases d <;> rfl) (fun _ h => absurd h Bool.false_ne_true) loopsEnd_full.declarations
    (FollowsAt.strides_of_ends loopsEnd_full.declarations) declPass_reads declPass_reads (declaration_grafts.weaken fun _ _ => trivial) hloc
    fun hlisting decls c _ hstarts hc hreports => declPass_crosses hlisting decls hstarts hc hreports).laws

/-! ## The whole file -/

variable {c c' : Cursor} {X : List Token} {name : String} {kinds : List TokenKind}

/-- A file without a diagnostic starts with a package clause. -/
theorem exists_package_of_clean (hclean : (sourceFile full c).2.log = #[]) :
    ∃ name kinds, c.kinds = .keyword .package :: .ident name :: .punctuation .semicolon :: kinds := by
  have hend := sourceFile_reached c
  rw [run_sourceFile] at hend
  obtain ⟨w, hw, hkinds⟩ := hend.words hclean
  obtain ⟨w₁, hw₁, rest, -, rfl⟩ := Language.mem_mul.1 (show w ∈ (_ * _ : Language TokenKind) from hw)
  obtain ⟨w₂, hw₂, ending, hending, rfl⟩ := Language.mem_mul.1 (show w₁ ∈ (_ * _ : Language TokenKind) from hw₁)
  obtain ⟨package, hpackage, name, hname, rfl⟩ := Language.mem_mul.1 (show w₂ ∈ (_ * _ : Language TokenKind) from hw₂)
  obtain rfl : package = [.keyword .package] := hpackage
  obtain rfl : name = [.ident (sourceFile full c).1.package.text] := hname
  obtain rfl : ending = [.punctuation .semicolon] := hending
  exact ⟨_, _, hkinds.symm⟩

/-- In front of the junk both runs read the package clause. -/
theorem packageClause_before {t₁ t₂ t₃ : Token} (hc : S.Before (t₁ :: t₂ :: t₃ :: X) c c')
    (hkinds : c.kinds = .keyword .package :: .ident name :: .punctuation .semicolon :: kinds) :
    (packageClause c').1 = (packageClause c).1 ∧ S.Before X (packageClause c).2 (packageClause c').2 := by
  obtain ⟨-, -, hkinds₂⟩ := Cursor.consume_of_kinds hkinds
  obtain ⟨-, -, hkinds₃⟩ := Cursor.consume_of_kinds hkinds₂
  obtain ⟨hhere₁, hhere₁'⟩ := hc.here_eq
  obtain ⟨hhere₂, hhere₂'⟩ := hc.consume.here_eq
  obtain ⟨hhere₃, hhere₃'⟩ := hc.consume.consume.here_eq
  have hpackage := Cursor.here_kind_of_cons hkinds
  have hname := Cursor.here_kind_of_cons hkinds₂
  have hend := Cursor.here_kind_of_cons hkinds₃
  have hfound' := packageClause_found (c := c') (by rwa [hhere₁', ← hhere₁]) (by rwa [hhere₂', ← hhere₂]) (by rwa [hhere₃', ← hhere₃])
  rw [packageClause_found hpackage hname hend, hfound', hhere₂, hhere₂']
  exact ⟨rfl, hc.consume.consume.consume⟩

/-- If fewer tokens than the package clause has stand in front of the junk, it takes the token behind the junk. -/
theorem packageClause_behind (hc : S.Before X c c') (hX : X.length < 3)
    (hkinds : c.kinds = .keyword .package :: .ident name :: .punctuation .semicolon :: kinds) : S.Behind true (packageClause c).2 := by
  obtain ⟨-, -, hkinds₂⟩ := Cursor.consume_of_kinds hkinds
  obtain ⟨-, -, hkinds₃⟩ := Cursor.consume_of_kinds hkinds₂
  rw [packageClause_found (Cursor.here_kind_of_cons hkinds) (Cursor.here_kind_of_cons hkinds₂) (Cursor.here_kind_of_cons hkinds₃)]
  match X with
  | [] => exact hc.behind.consume.consume.consume
  | [_] => exact hc.consume.behind.consume.consume
  | [_, _] => exact hc.consume.consume.behind.consume
  | _ :: _ :: _ :: Y => exact absurd hX (Nat.not_lt.2 (Nat.le_add_left 3 Y.length))

/-- A clean run over a file has come to the end of its tokens. -/
theorem kinds_of_sourceFile (c : Cursor) : (sourceFile full c).2.kinds = [] := by
  have hend := sourceFile_reached c
  rw [run_sourceFile] at hend
  exact Cursor.kinds_eq_nil hend.face

theorem edited_sourceFile (E : Editing) (c : Cursor) : edited E (sourceFile full c).1
    = ⟨c.here.loc, (packageClause (Parse.current c).2).1,
      (inList Editing.decls E (Parse.loop #[] (declPass full) (packageClause (Parse.current c).2).2).1).toList⟩ := rfl

/-- If the declarations can be read again with marks, there is nothing to mark in them. -/
theorem edited_sourceFile_of_repeats (h : S.Repeats (inList Editing.decls) (Parse.loop #[] (declPass full))
    (fun E => Parse.loop (inList Editing.decls E #[]) (declPass full)) (packageClause (Parse.current c).2).2) :
    edited S.marking (sourceFile full c).1 = (sourceFile full c).1 := by
  have heq := congrArg Prod.fst (h S.marking Site.edits_marking).1
  dsimp only at heq
  rw [S.inserts_decls.nil Site.edits_marking] at heq
  rw [edited_sourceFile, ← heq]
  rfl

/-- The junk is reported once and changes the tree as it should, or no list that it could stand in has a member there. -/
theorem sourceFile_junk (hc : S.Before X c c') (hclean : (sourceFile full c).2.log = #[]) :
    (sourceFile full c').1 = edited S.change (sourceFile full c).1 ∧ S.origin.Reports [S.reported] (sourceFile full c').2
      ∨ edited S.marking (sourceFile full c).1 = (sourceFile full c).1 := by
  obtain ⟨name, kinds, hkinds⟩ := exists_package_of_clean hclean
  have hlooked : S.Before X (Parse.current c).2 (Parse.current c').2 := hc.peek 0
  rw [← Cursor.kinds_peek 0 c] at hkinds
  match X with
  | [] | [_] | [_, _] =>
    have hbehind := packageClause_behind hlooked (by simp) hkinds
    exact .inr (edited_sourceFile_of_repeats ((declarations_laws.enters #[]).behind _ hbehind hclean).2)
  | _ :: _ :: _ :: X =>
    obtain ⟨hclause, hbefore⟩ := packageClause_before hlooked hkinds
    have hhere : c'.here = c.here := hc.here_eq.2.trans hc.here_eq.1.symm
    have hnil : (Parse.loop #[] (declPass full) (packageClause (Parse.current c).2).2).2.kinds = [] := kinds_of_sourceFile c
    cases declarations_laws.outcome_loop #[] hbefore hclean with
    | across hvalue hafter =>
      rw [S.inserts_decls.nil Site.edits_change] at hvalue hafter
      refine .inl ⟨?_, hafter.reports⟩
      rw [edited_sourceFile, ← hvalue, sourceFile_apply c']
      dsimp only
      rw [hclause, hhere]
    | ahead Y _ _ hbefore' =>
      have hlength := congrArg List.length hbefore'.values
      have hpos := List.length_pos_iff.2 S.rest
      rw [Cursor.length_values, hnil, List.length_append, List.length_cons, List.length_nil] at hlength
      omega
    | astray hrepeats _ => exact .inr (edited_sourceFile_of_repeats hrepeats)

end Grammar

end GoSyntax
