import GoSyntax.Proofs.Junk.Statements

/-!
# Declarations with junk in them

In a group a specification that can not be read is skipped with the `;` behind it, so that the group goes on with the next one. Whether that
is the first one depends on the specifications before it, and these are as many in both runs.
-/

namespace GoSyntax.Grammar

open Grafts Productions

variable {S : Site} {p : Productions}

/-! ## Specifications -/

theorem importName?_grafts : Grafted S importName? (fun _ => importName?) :=
  current.bind fun _ => .ite (consume.bind fun _ => .pure fun _ => rfl) (.ite (name.map fun _ _ => rfl) (.pure fun _ => rfl))

theorem importSpec_grafts : Grafted S importSpec (fun _ => importSpec) := by
  have hpath : Grafted S importPath (fun _ => importPath) := by
    refine stringLiteral?.bind fun path => ?_
    cases path with
    | some path => exact .pure fun _ => rfl
    | none => exact current.bind fun _ => (reportExpected _).bind fun _ => .pure fun _ => rfl
  exact importName?_grafts.bind fun _ => hpath.bind fun _ => .pure fun _ => by rw [edited_name?]; rfl

theorem valueSpec_grafts (h : p.Grafting S) (keyword : Keyword) (isFirst : Bool) (loc : Location) :
    Grafted S (valueSpec p keyword isFirst loc) (fun _ => valueSpec full keyword isFirst loc) := by
  have hvalues : ∀ required, Grafted S (specValues p required) (fun _ => specValues full required) := fun required =>
    (accept _).bind fun _ => .ite ((exprList_grafts h 0).bind fun (_, _) => .pure fun _ => rfl)
      (bind (.ite (reportExpected _) (.pure fun _ => rfl)) fun _ => .pure fun _ => rfl)
  refine names.bind fun _ => h.type?.bind fun t => ?_
  simp only [isSome_edited]
  exact (hvalues _).bind fun _ => .pure fun _ => by simp

theorem spec_grafts (h : p.Grafting S) (keyword : Keyword) (isFirst : Bool) :
    Grafted S (spec p keyword isFirst) (fun _ => spec full keyword isFirst) := by
  refine current.bind fun here => ?_
  split
  · exact importSpec_grafts.bind fun _ => .pure fun _ => rfl
  · exact name.bind fun _ => (type_grafts h).bind fun _ => .pure fun _ => rfl
  · exact valueSpec_grafts h _ _ _

/-! ## Groups -/

/-- How the specifications of a group are read. The flag says that the closing parenthesis is to follow. -/
def specForm (keyword : Keyword) : ListForm Spec (Array Spec × Bool) :=
  ⟨fun kind => kind.sameKind Punctuation.rParen || kind.sameKind .eof, startsSpec keyword, fun group => (group.1, true),
    fun group s => (group.1.push s, true), atOrSemicolon (·.sameKind Punctuation.rParen), Spec.loc⟩

theorem specPass_reads (p : Productions) (keyword : Keyword) :
    (specForm keyword).Reads (fun group => spec p keyword group.1.isEmpty) (specPass p keyword) :=
  .of_apply (atOrSemicolon_quiet _) fun group c => ⟨_, _, specPass_apply p keyword group c,
    fun s d h => resumeGroup_log_ne (fun hlog => by rw [h hlog]; rfl) _, fun _ => resumeGroup_log_ne (fun hlog => by rw [hlog]; rfl) _⟩

/-- Nothing has been reported since the next token was looked at, so that what is missing is reported there. -/
theorem resumeGroup_current (keyword : Keyword) (specs : Array Spec) (c : Cursor) :
    resumeGroup (Parse.current c).2.log.size specs (Parse.current c).2
      = nextMember specs (skipFrom (Listing.fault (.specs keyword)) Recovery.group (Parse.current c).2).2 := by
  change nextMember specs (Parse.skipTo Recovery.group ((if (Parse.current c).2.log.size == (Parse.current c).2.log.size then
    Parse.reportExpected (TokenKind.punctuation .rParen).display else Pure.pure () : Parse Unit) (Parse.current c).2).2).2 = _
  rw [if_pos (beq_self_eq_true _)]
  rfl

/-- Junk in a group is skipped with the `;` behind it. -/
theorem specPass_crosses {keyword : Keyword} (hlisting : S.listing = .specs keyword) (group : Array Spec × Bool) {c : Cursor}
    (hc : c.feed.values = S.junk ++ S.next :: S.behind) (hreports : S.origin.Reports [] c) :
    ∃ d, specPass full keyword group c = (.yield (group.1, true), d) ∧ d.feed.values = S.next :: S.behind
      ∧ S.origin.Reports [S.reported] d := by
  have hhere : c.here = S.first := Cursor.here_of_values hc
  have hstray : S.listing.starts S.first.kind = false := S.stray
  have hstops : S.listing.stops = Recovery.group := congrArg Listing.stops hlisting
  obtain ⟨hskipped, heof⟩ := S.skipped S.first List.mem_cons_self
  rw [hlisting] at hstray
  rw [hstops] at hskipped
  have hgoesOn : (c.here.kind.sameKind Punctuation.rParen || c.here.kind.sameKind .eof) = false := by
    rw [hhere, Bool.eq_false_iff, Ne, Bool.or_eq_true]
    rintro (hkind | hkind)
    · rw [(TokenKind.Bare.sameKind_iff _).1 hkind] at hskipped
      exact absurd hskipped (by decide)
    · exact heof ((TokenKind.Bare.sameKind_iff _).1 hkind)
  have hother : startsSpec keyword c.here.kind = false := by
    rw [hhere]
    exact hstray
  have hlooked : (Parse.current c).2.feed.values = S.junk ++ S.next :: S.behind := (Feed.values_look c.feed 1).trans hc
  obtain ⟨t, ht, hvalues, hskip⟩ := exists_separator hlooked (hreports.trans (Cursor.reports_current hreports.lexical))
    (by rw [hlisting]; rfl)
    (by rw [hstops]; rfl)
  obtain ⟨haccept, hvalues', hreports'⟩ := accept_separator hvalues ht hskip
  rw [hstops, hlisting] at haccept hvalues' hreports'
  have hnext : nextMember group.1 (skipFrom (Listing.specs keyword).fault Recovery.group (Parse.current c).2).2
      = (.yield (group.1, true), (Parse.accept Punctuation.semicolon (skipFrom (Listing.specs keyword).fault Recovery.group (Parse.current c).2).2).2) := by
    rw [nextMember, Parse.bind_apply, Cursor.orM_apply, if_pos haccept, if_pos rfl]
    rfl
  refine ⟨_, ?_, hvalues', hreports'⟩
  rw [specPass_apply, hgoesOn, if_neg Bool.false_ne_true, hother, if_neg Bool.false_ne_true, resumeGroup_current keyword]
  exact hnext

/-- A group of specifications, behind its opening parenthesis. -/
theorem specGroup_enters (h : p.Grafting S) (keyword : Keyword) :
    Enters S (fun E specs => E.specs keyword true (edited E specs)) (specGroup p keyword) (fun _ => specGroup full keyword) := by
  have hinserts := S.inserts_specs keyword
  have hclosing : ∀ kind : TokenKind, kind.sameKind Punctuation.rParen = true →
      (kind.sameKind Punctuation.rParen || kind.sameKind .eof) = true := fun kind h => by rw [h, Bool.true_or]
  have hloc : ∀ (E : Editing) (s : Spec), (edited E s).loc = s.loc := fun E s => by cases s <;> rfl
  have hmember : ∀ group : Array Spec × Bool, Grafts S (fun t => startsSpec keyword t.kind = true) edited (spec p keyword group.1.isEmpty)
      (fun E => spec full keyword (inList (fun E => E.specs keyword true) E group.1).isEmpty) := fun group =>
    .congr (fun E hE => by rw [hinserts.isEmpty hE]) ((spec_grafts h keyword _).weaken fun _ _ => trivial)
  have hlaws : ListLaws S (specForm keyword) (fun E group => (inList (fun E => E.specs keyword true) E group.1, group.2))
      (fun _ => S.listing ≠ .specs keyword) (fun group => spec p keyword group.1.isEmpty) (fun group => spec full keyword group.1.isEmpty)
      (specPass p keyword) (specPass full keyword) (fun d => S.Behind true d ∨ d.here.kind.sameKind Punctuation.rParen = true) := by
    refine ⟨loopsEnd_full.specs keyword, strides_of_follows (loopsEnd_full.specs keyword) (specPass_follows h.clean keyword),
      specPass_reads p keyword, specPass_reads full keyword, hmember, S.leadsTo_atOrSemicolon (·.sameKind Punctuation.rParen),
      fun group s d hleads => ?_,
      fun group c _ _ => spec_startsHere p keyword _ c, fun _ _ _ => rfl, fun E hE group s hplain => ?_,
      fun group c hlisting _ _ hc hreports => ?_⟩
    · exact hleads.imp_right fun h => .inl (hclosing _ h)
    · exact congrArg (·, true) (hinserts.push_of_ne hE group.1 s (hplain.imp_right fun hne => by rwa [hloc]))
    · obtain ⟨d, hpass, hvalues, hskip⟩ := specPass_crosses (not_not.1 hlisting)
        (inList (fun E => E.specs keyword true) S.change group.1, group.2)
        hc hreports
      refine ⟨_, congrArg Prod.fst hpass, by rw [hpass]; exact hvalues, by rw [hpass]; exact hskip, rfl, fun s _ => ?_⟩
      exact congrArg (·, true) (hinserts.push_of_dropped rfl group.1 s).symm
  have hloop : Enters S (fun E (group : Array Spec × Bool) => (inList (fun E => E.specs keyword true) E group.1, group.2))
      (Parse.loop (#[], true) (specPass p keyword)) (fun _ => Parse.loop (#[], true) (specPass full keyword)) :=
    (hlaws.laws.enters (#[], true)).congr fun E hE => by rw [hinserts.nil hE]
  refine hloop.bind fun (specs, closes) => ?_
  have hclose : Grafted S (closeGroup closes) (fun _ => closeGroup closes) :=
    .ite ((expect _).bind fun _ => .pure fun _ => rfl) (.pure fun _ => rfl)
  exact hclose.bind fun _ => .pure fun _ => rfl

theorem declGroup_grafts (h : p.Grafting S) (keyword : Keyword) : Grafted S (declGroup p keyword) (fun _ => declGroup full keyword) := by
  have halone : ∀ E, S.Edits E → E.specs keyword false = id := by
    rintro E (rfl | rfl)
    · exact if_neg fun h => Bool.false_ne_true h.2
    · unfold Site.change
      split
      · exact if_neg fun h => Bool.false_ne_true h.2
      · rfl
  refine consume.bind fun _ => acceptOpening _ ((specGroup_enters h keyword).bind fun _ => .pure fun _ => by simp) ?_
  refine (spec_grafts h keyword true).bind fun s => .pure_of_edits fun E hE => ?_
  rw [DeclGroup.edited_mk, halone E hE]
  rfl

/-! ## Functions -/

theorem receiver?_grafts (h : p.Grafting S) : Grafted S (receiver? p) (fun _ => receiver? full) :=
  (isAt _).bind fun _ => .ite ((parameters_grafts h false).map fun _ _ => rfl) (.pure fun _ => rfl)

theorem funcDecl_grafts (h : p.Grafting S) : Grafted S (funcDecl p) (fun _ => funcDecl full) := by
  have hbody : Grafted S (body? p) (fun _ => body? full) :=
    (isAt _).bind fun _ => .ite ((block_grafts h).map fun _ _ => rfl) (.pure fun _ => rfl)
  exact consume.bind fun _ => (receiver?_grafts h).bind fun _ => name.bind fun _ => (signature_grafts h).bind fun _ =>
    hbody.bind fun _ => .pure fun _ => by simp

/-! ## All statements -/

theorem badStmt_grafts : Grafted S badStmt (fun _ => badStmt) :=
  current.bind fun _ => (reportExpected _).bind fun _ => (skipTo _).bind fun _ => .pure fun _ => rfl

theorem branchStmt_grafts (keyword : Keyword) : Grafted S (branchStmt keyword) (fun _ => branchStmt keyword) :=
  consume.bind fun _ => current.bind fun _ => .ite (name.bind fun _ => .pure fun _ => rfl) (.pure fun _ => rfl)

theorem keywordStmt_grafts (h : p.Grafting S) (keyword : Keyword) :
    Grafted S (keywordStmt p keyword) (fun _ => keywordStmt full keyword) := by
  have hreturn : Grafted S (returnStmt p) (fun _ => returnStmt full) :=
    consume.bind fun _ => (orM (isAt _) (isAt _)).bind fun _ => .ite (.pure fun _ => by simp)
      ((exprs_grafts h).bind fun _ => .pure fun _ => by simp)
  have hdeclaration : ∀ k, Grafted S (do return Stmt.declaration (← Parse.current).loc (← declGroup p k))
      (fun _ => do return Stmt.declaration (← Parse.current).loc (← declGroup full k)) := fun k =>
    current.bind fun _ => (declGroup_grafts h k).bind fun _ => .pure fun _ => rfl
  unfold keywordStmt
  split
  · exact hdeclaration _
  · exact hdeclaration _
  · exact hdeclaration _
  · exact consume.bind fun _ => (expr_grafts h 0).bind fun _ => .pure fun _ => rfl
  · exact consume.bind fun _ => (expr_grafts h 0).bind fun _ => .pure fun _ => rfl
  · exact hreturn
  · exact branchStmt_grafts _
  · exact branchStmt_grafts _
  · exact branchStmt_grafts _
  · exact consume.bind fun _ => .pure fun _ => rfl
  · exact ifStmt_grafts h
  · exact switchStmt_grafts h
  · exact selectStmt_grafts h
  · exact forStmt_grafts h
  · exact simpleStmt_grafts h _ _
  · exact simpleStmt_grafts h _ _
  · exact simpleStmt_grafts h _ _
  · exact simpleStmt_grafts h _ _
  · exact simpleStmt_grafts h _ _
  · exact badStmt_grafts

theorem stmt_grafts (h : p.Grafting S) : Grafted S (stmt p) (fun _ => stmt full) := by
  refine current.bind fun here => ?_
  obtain ⟨kind, loc⟩ := here
  dsimp only [edited_token]
  split
  · exact keywordStmt_grafts h _
  · exact (block_grafts h).map fun _ _ => rfl
  · exact .pure fun _ => rfl
  · exact .pure fun _ => rfl
  · exact .ite (simpleStmt_grafts h _ _) badStmt_grafts



end GoSyntax.Grammar
