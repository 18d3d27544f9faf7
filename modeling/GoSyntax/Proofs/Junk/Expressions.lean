import GoSyntax.Proofs.Junk.Types

/-!
# Blocks and expressions with junk in them

A statement that can not be read is kept in its block as a placeholder. What stands before a suffix has been read when the suffix is, so the
parsers of suffixes are given it in one run and the same edited in the other.
-/

namespace GoSyntax.Grammar

open Grafts Productions

variable {S : Site} {p : Productions}

/-! ## Blocks -/

/-- How statements are read. -/
def statementForm : ListForm Stmt (Array Stmt) := arrayForm endsStatements (fun _ => true) endsStatements Stmt.loc

theorem statementPass_apply (p : Productions) (stmts : Array Stmt) (c : Cursor) : statementPass p stmts c
    = (if endsStatements c.here.kind = true then return .done stmts
      else p.stmt >>= fun s => atOrSemicolon endsStatements >>= fun ended =>
        if ended = true then return .yield (stmts.push s)
        else resumeStatements (Parse.current c).2.log.size >>= fun _ => return .yield (stmts.push s)) (Parse.current c).2 := by
  change (if endsStatements c.here.kind = true then return .done stmts
    else Parse.reports >>= fun before => p.stmt >>= fun s => atOrSemicolon endsStatements >>= fun ended =>
      if ended = true then return .yield (stmts.push s)
      else resumeStatements before >>= fun _ => return .yield (stmts.push s) : Parse (ForInStep (Array Stmt))) (Parse.current c).2 = _
  split
  · rfl
  · rw [Parse.bind_apply]
    rfl

theorem resumeStatements_log_ne {before : Nat} {c : Cursor} (h : c.log = #[] → before = 0) : (resumeStatements before c).2.log ≠ #[] := by
  have hrest : Follows .untilReport (Parse.skipTo Recovery.statement >>= fun _ => Parse.accept Punctuation.semicolon >>= fun _ => return ())
      (Parse.skipTo Recovery.statement >>= fun _ => Parse.accept Punctuation.semicolon >>= fun _ => return ()) :=
    (FollowsAt.skipTo _).bind fun _ => (FollowsAt.accept _).bind fun _ => .pure rfl
  exact (Quiet.of_follows hrest).log_ne (reportMissing_log_ne h)

theorem statementPass_reads (p : Productions) : statementForm.Reads (fun _ => p.stmt) (statementPass p) := by
  refine .of_apply (atOrSemicolon_quiet _) fun stmts c => ⟨_, Pure.pure (.done stmts), statementPass_apply p stmts c, fun s d h => ?_,
    fun h => nomatch h⟩
  refine resumeStatements_log_ne fun hlog => ?_
  rw [h hlog]
  rfl

/-- A token that can not start a statement is reported and skipped. -/
theorem stmtFrom_of_stray {kind : TokenKind} (h : startsStatement kind = false) (p : Productions) (loc : Location) :
    stmtFrom p ⟨kind, loc⟩ = badStmt := by
  have hsimple : ∀ kind, stmtFrom p ⟨kind, loc⟩ = (if startsSimple kind then simpleStmt p .block 0 else badStmt) →
      startsSimple kind = false → stmtFrom p ⟨kind, loc⟩ = badStmt := fun kind heq hstray => by
    rw [heq, hstray, if_neg Bool.false_ne_true]
  cases kind with
  | keyword word => cases word <;> first | exact absurd h (by decide) | rfl
  | punctuation mark => cases mark <;> first | exact absurd h (by decide) | exact hsimple _ rfl rfl
  | _ => exact hsimple _ rfl h

theorem eof_or_stops_of_endsStatements {kind : TokenKind} (h : endsStatements kind = true) :
    kind = .eof ∨ Recovery.statement.contains kind = true := by
  rw [endsStatements, Bool.or_eq_true, Bool.or_eq_true, Bool.or_eq_true] at h
  rcases h with ((h | h) | h) | h
  · obtain rfl := (TokenKind.Bare.sameKind_iff _).1 h
    exact .inr rfl
  · exact .inl ((TokenKind.Bare.sameKind_iff _).1 h)
  · obtain rfl := (TokenKind.Bare.sameKind_iff _).1 h
    exact .inr rfl
  · obtain rfl := (TokenKind.Bare.sameKind_iff _).1 h
    exact .inr rfl

/-- Junk between statements is kept as a statement that could not be read, and the `;` behind it is taken. -/
theorem statementPass_crosses (hlisting : S.listing = .statements) (stmts : Array Stmt) {c : Cursor}
    (hc : c.feed.values = S.junk ++ S.next :: S.behind) (hreports : S.origin.Reports [] c) :
    ∃ d, statementPass full stmts c = (.yield (stmts.push (.bad S.reported.loc)), d) ∧ d.feed.values = S.next :: S.behind
      ∧ S.origin.Reports [S.reported] d := by
  have hhere : c.here = S.first := Cursor.here_of_values hc
  have hstray := S.stray
  obtain ⟨hskipped, heof⟩ := S.skipped S.first List.mem_cons_self
  rw [hlisting] at hstray hskipped
  have hgoesOn : endsStatements c.here.kind = false := by
    rw [hhere, Bool.eq_false_iff]
    intro hends
    rcases eof_or_stops_of_endsStatements hends with hkind | hkind
    · exact heof hkind
    · exact Bool.false_ne_true (hskipped.symm.trans hkind)
  have hlooked : (Parse.current c).2.feed.values = S.junk ++ S.next :: S.behind := (Feed.values_look c.feed 1).trans hc
  have hread : full.stmt (Parse.current c).2 = (.bad S.reported.loc, (skipFrom S.listing.fault S.listing.stops (Parse.current c).2).2) := by
    have hfull : full.stmt = stmt full := congrArg Productions.stmt deepen_full.symm
    have hbad := stmtFrom_of_stray hstray full S.first.loc
    rw [hfull, hlisting]
    change stmtFrom full (Parse.current c).2.here (Parse.current (Parse.current c).2).2 = _
    rw [Cursor.here_current, Cursor.current_current, hhere, hbad]
    change (Stmt.bad (Parse.current c).2.here.loc, (skipFrom _ _ (Parse.current (Parse.current c).2).2).2) = _
    rw [Cursor.here_current, Cursor.current_current, hhere]
    rfl
  obtain ⟨t, ht, hvalues, hskip⟩ := exists_separator hlooked (hreports.trans (Cursor.reports_current hreports.lexical))
    (by rw [hlisting]; rfl)
    (by rw [hlisting]; rfl)
  obtain ⟨haccept, hvalues', hreports'⟩ := accept_separator hvalues ht hskip
  have hended : endsStatements (skipFrom S.listing.fault S.listing.stops (Parse.current c).2).2.here.kind = false := by
    rw [Cursor.here_of_values hvalues, ht]
    rfl
  refine ⟨_, ?_, hvalues', hreports'⟩
  rw [statementPass_apply, hgoesOn, if_neg Bool.false_ne_true, Parse.bind_apply, hread, Parse.bind_apply, atOrSemicolon_apply, hended,
    if_neg Bool.false_ne_true, haccept, if_pos rfl]
  rfl

/-- The statements of a block or a clause, behind the token that opens them. -/
theorem statements_enters (h : p.Grafting S) :
    Enters S (fun E stmts => E.stmts (edited E stmts)) (statements p) (fun _ => statements full) := by
  have hstrides := strides_of_follows loopsEnd_full.statements (statementPass_follows h.clean)
  have hitemLoc : ∀ c, (fun _ : TokenKind => true) c.here.kind = true → (p.stmt c).2.log = #[] → (p.stmt c).1.loc = c.here.loc :=
    fun c _ hclean => by
    have hstart : c.log = #[] := h.stmt.quiet c trivial hclean
    obtain ⟨heq, -⟩ := (h.clean.stmt.found c c trivial ⟨rfl, hstart⟩).resolve_left (not_not.2 hclean)
    have hfull : full.stmt = stmt full := congrArg Productions.stmt deepen_full.symm
    have hloc := stmt_startsHere full c
    rw [← hfull, heq, Stmt.loc_moved] at hloc
    exact hloc
  have hcrosses : S.listing = .statements → ∀ (stmts : Array Stmt) (c : Cursor), endsStatements S.next.kind = false →
      (fun _ : TokenKind => true) S.next.kind = true → c.feed.values = S.junk ++ S.next :: S.behind → S.origin.Reports [] c →
      ∃ d, statementPass full stmts c = (.yield (if Listing.statements.keepsJunk then stmts.push (.bad S.reported.loc) else stmts), d)
        ∧ d.feed.values = S.next :: S.behind ∧ S.origin.Reports [S.reported] d := fun hlisting stmts c _ _ hc hreports =>
    statementPass_crosses hlisting stmts hc hreports
  have hlaws := S.inserts_stmts.listLaws (fun E s => Stmt.loc_edited E s) (fun _ => id) loopsEnd_full.statements hstrides
    (statementPass_reads p) (statementPass_reads full) (h.stmt.weaken fun _ _ => trivial) hitemLoc hcrosses
  have hloop : Enters S (inList Editing.stmts) (Parse.loop #[] (statementPass p)) (fun _ => Parse.loop #[] (statementPass full)) :=
    (hlaws.laws.enters #[]).congr fun E hE => by rw [S.inserts_stmts.nil hE]
  exact hloop.bind fun stmts => .pure fun _ => rfl

theorem block_grafts (h : p.Grafting S) : Grafted S (block p) (fun _ => block full) :=
  expectOpening _ fun _ => (statements_enters h).bind fun _ => (expect _).bind fun _ => .pure fun _ => by simp

/-! ## Suffixes -/

theorem sliceBound_grafts (h : p.Grafting S) (level : Int) : Grafted S (sliceBound p level) (fun _ => sliceBound full level) :=
  current.bind fun _ => .ite (.pure fun _ => rfl) ((h.expr level).map fun _ _ => rfl)

theorem requireBound_grafts (bound : Option Expr) (reason : String) (loc : Location) :
    Grafted S (requireBound bound reason loc) (fun E => requireBound (edited E bound) reason loc) := by
  simp only [requireBound, isSome_edited]
  exact reportUnless _ _ _

theorem sliceFrom_grafts (h : p.Grafting S) (level : Int) (operand : Expr) (low : Option Expr) :
    Grafted S (sliceFrom p level operand low) (fun E => sliceFrom full level (edited E operand) (edited E low)) := by
  simp only [sliceFrom, Expr.loc_edited]
  exact consume.bind fun _ => (sliceBound_grafts h level).bind fun high => (accept _).bind fun _ => .ite
    ((sliceBound_grafts h level).bind fun max => (expect _).bind fun _ => (requireBound_grafts high _ _).bind fun _ =>
      (requireBound_grafts max _ _).bind fun _ => .pure fun _ => by simp)
    ((expect _).bind fun _ => .pure fun _ => by simp)

theorem indexFrom_grafts (h : p.Grafting S) (level : Int) (operand low : Expr) :
    Grafted S (indexFrom p level operand low) (fun E => indexFrom full level (edited E operand) (edited E low)) := by
  simp only [indexFrom, Expr.loc_edited]
  exact (isAt _).bind fun _ => .ite (sliceFrom_grafts h level operand (some low)) ((accept _).bind fun _ => .ite (.pure fun _ => rfl)
    ((reportExpected _).bind fun _ => (skipTo _).bind fun _ => (accept _).bind fun _ => .pure fun _ => by simp))

theorem indexOrSlice_grafts (h : p.Grafting S) (level : Int) (operand : Expr) :
    Grafted S (indexOrSlice p level operand) (fun E => indexOrSlice full level (edited E operand)) :=
  consume.bind fun _ => (isAt _).bind fun _ => .ite (sliceFrom_grafts h (level + 1) operand none)
    ((h.expr (level + 1)).bind fun low => indexFrom_grafts h (level + 1) operand low)

theorem argument_grafts (h : p.Grafting S) (level : Int) : Grafted S (argument p level) (fun _ => argument full level) :=
  (h.expr level).bind fun _ => (accept _).bind fun _ => .pure fun _ => rfl

theorem call_grafts (h : p.Grafting S) (level : Int) (callee : Expr) :
    Grafted S (call p level callee) (fun E => call full level (edited E callee)) := by
  have hends := loopsEnd_full.arguments (level + 1)
  have hstrides := strides_of_follows hends (FollowsAt.memberPass _ (argument_follows h.clean (level + 1)))
  refine consume.bind fun _ => (members _ hends hstrides (argument_grafts h (level + 1))).bind fun args => (expect _).bind fun _ =>
    .pure fun E => ?_
  have hspread : (edited E args).any Prod.snd = args.any Prod.snd := List.any_map
  have hargs : (edited E args).map Prod.fst = edited E (args.map Prod.fst) := edited_map (r := Prod.fst) E (fun _ => rfl) args
  rw [Expr.loc_edited, Expr.edited_call, hspread, hargs]

theorem element_grafts (h : p.Grafting S) (level : Int) : Grafted S (element p level) (fun _ => element full level) :=
  (h.elementValue level).bind fun _ => (accept _).bind fun _ => .ite
    ((h.elementValue level).bind fun _ => .pure fun E => by rw [Expr.loc_edited]; rfl) (.pure fun _ => rfl)

theorem composite_grafts (h : p.Grafting S) (level : Int) (t : Option Expr) :
    Grafted S (composite p level t) (fun E => composite full level (edited E t)) := by
  have hends := loopsEnd_full.elements (level + 1)
  have hstrides := strides_of_follows hends (FollowsAt.memberPass _ (element_follows h.clean (level + 1)))
  refine current.bind fun here => (expect _).bind fun _ =>
    (members _ hends hstrides (element_grafts h (level + 1))).bind fun list => (expect _).bind fun _ => .pure fun E => ?_
  cases t <;> simp

theorem assertedType?_grafts (h : p.Grafting S) : Grafted S (assertedType? p) (fun _ => assertedType? full) :=
  (accept _).bind fun _ => .ite (.pure fun _ => rfl) ((type_grafts h).map fun _ _ => rfl)

theorem selectorOrAssertion_grafts (h : p.Grafting S) (operand : Expr) :
    Grafted S (selectorOrAssertion p operand) (fun E => selectorOrAssertion full (edited E operand)) := by
  simp only [selectorOrAssertion, Expr.loc_edited]
  exact consume.bind fun _ => (accept _).bind fun _ => .ite
    ((assertedType?_grafts h).bind fun _ => (expect _).bind fun _ => .pure fun _ => by simp)
    (name.bind fun _ => .pure fun _ => rfl)

theorem suffix_grafts (h : p.Grafting S) (level : Int) (operand : Expr) :
    Grafted S (suffix p level operand) (fun E => suffix full level (edited E operand)) := by
  refine current.bind fun here => ?_
  obtain ⟨kind, loc⟩ := here
  dsimp only [edited_token]
  split
  · exact (selectorOrAssertion_grafts h operand).map fun _ _ => rfl
  · exact (indexOrSlice_grafts h level operand).map fun _ _ => rfl
  · exact (call_grafts h level operand).map fun _ _ => rfl
  · simp only [takesBody_edited]
    exact .ite ((composite_grafts h level (some operand)).map fun _ _ => rfl) (.pure fun _ => rfl)
  · exact .pure fun _ => rfl

theorem suffixes_grafts (h : p.Grafting S) (level : Int) (operand : Expr) :
    Grafted S (suffixes p level operand) (fun E => suffixes full level (edited E operand)) :=
  loop (loopsEnd_full.suffixes level) (strides_of_follows (loopsEnd_full.suffixes level) (suffix_follows h.clean level)) (fun _ => rfl)
    (suffix_grafts h level)

/-! ## Operands -/

theorem functionOrType_grafts (h : p.Grafting S) : Grafted S (functionOrType p) (fun _ => functionOrType full) :=
  consume.bind fun _ => (signature_grafts h).bind fun _ => (isAt _).bind fun _ => .ite
    ((block_grafts h).bind fun _ => .pure fun _ => rfl) (.pure fun _ => rfl)

theorem parenExpr_grafts (h : p.Grafting S) (level : Int) : Grafted S (parenExpr p level) (fun _ => parenExpr full level) :=
  consume.bind fun _ => (h.expr (level + 1)).bind fun _ => (expect _).bind fun _ => .pure fun _ => rfl

theorem typeOperand_grafts (h : p.Grafting S) : Grafted S (typeOperand p) (fun _ => typeOperand full) := by
  refine (type?_grafts h true).bind fun t => ?_
  cases t with
  | some t => exact .pure fun _ => rfl
  | none => exact current.bind fun _ => (reportHere _).bind fun _ => (skipTo _).bind fun _ => .pure fun _ => rfl

theorem operand_grafts (h : p.Grafting S) (level : Int) : Grafted S (operand p level) (fun _ => operand full level) := by
  refine current.bind fun here => ?_
  obtain ⟨kind, loc⟩ := here
  dsimp only [edited_token]
  split
  · exact consume.bind fun _ => .pure fun _ => rfl
  · exact consume.bind fun _ => .pure fun _ => rfl
  · exact parenExpr_grafts h level
  · exact functionOrType_grafts h
  · exact typeOperand_grafts h

/-! ## Operators -/

theorem primary_grafts (h : p.Grafting S) (level : Int) : Grafted S (primary p level) (fun _ => primary full level) :=
  (operand_grafts h level).bind fun operand => suffixes_grafts h level operand

theorem prefixed_grafts (h : p.Grafting S) (level : Int) (op : Operator) :
    Grafted S (prefixed p level op) (fun _ => prefixed full level op) :=
  consume.bind fun _ => (h.unary level).bind fun _ => .ite (.pure fun _ => rfl) (.pure fun _ => rfl)

theorem unary_grafts (h : p.Grafting S) (level : Int) : Grafted S (unary p level) (fun _ => unary full level) := by
  refine .currentAt fun here _ => ?_
  obtain ⟨kind, loc⟩ := here
  dsimp only [edited_token]
  split
  · exact (second (by rintro _ rfl; rfl)).bind fun _ => .ite
      ((channelType_grafts h).bind fun t => suffixes_grafts h level t) (prefixed_grafts h level _)
  · exact .ite ((prefixed_grafts h level _).weaken fun _ _ => trivial) ((primary_grafts h level).weaken fun _ _ => trivial)
  · exact (primary_grafts h level).weaken fun _ _ => trivial

theorem binaryPass_grafts (family : Operator.Family) {operand operand' : Parse Expr} (h : Grafted S operand (fun _ => operand'))
    (left : Expr) :
    Grafted S (binaryPass family operand left) (fun E => binaryPass family operand' (edited E left)) := by
  refine current.bind fun here => ?_
  obtain ⟨kind, loc⟩ := here
  dsimp only [edited_token]
  split
  · refine .ite (consume.bind fun _ => h.bind fun _ => .pure fun E => ?_) (.pure fun _ => rfl)
    rw [Expr.loc_edited]
    rfl
  · exact .pure fun _ => rfl

theorem binaryLevels_grafts (h : p.Grafting S) (level : Int) (families : List Operator.Family) :
    Grafted S (families.foldr binaryLevel (unary p level)) (fun _ => families.foldr binaryLevel (unary full level)) := by
  induction families with
  | nil => exact unary_grafts h level
  | cons family families ih =>
    have hends := loopsEnd_full.operands level families family
    have hstrides := strides_of_follows hends (binaryPass_follows family (binaryLevels_follows h.clean level families))
    exact ih.bind fun first => loop hends hstrides (fun _ => rfl) (binaryPass_grafts family ih)

theorem expr_grafts (h : p.Grafting S) (level : Int) : Grafted S (expr p level) (fun _ => expr full level) :=
  binaryLevels_grafts h level binaryFamilies

theorem exprList_grafts (h : p.Grafting S) (level : Int) : Grafted S (exprList p level) (fun _ => exprList full level) :=
  separated (loopsEnd_full.exprs level) (strides_of_follows (loopsEnd_full.exprs level)
    (FollowsAt.separatedPass (expr_follows h.clean level)))
    (expr_grafts h level)

theorem elementValue_grafts (h : p.Grafting S) (level : Int) : Grafted S (elementValue p level) (fun _ => elementValue full level) :=
  (isAt _).bind fun _ => .ite (composite_grafts h level none) (expr_grafts h level)

end GoSyntax.Grammar
