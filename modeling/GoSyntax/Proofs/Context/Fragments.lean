import GoSyntax.Proofs.Canonical.Types
import GoSyntax.Proofs.Context.Closings
import GoSyntax.Proofs.Context.Declarations
import GoSyntax.Proofs.TwoRuns.Reports

/-!
# The ends of fragments

A fragment without a diagnostic leaves nothing but a `;`. Behind a token at which a line break ends a statement there is one, so only a
statement that ends with a `goto`, which may have labels in front of it, leaves nothing at all. In all other cases the parser comes to no
end before the `;`, and what it gives it gives too if more tokens stand behind. A `goto` looks at the token behind it, but only to see
that it is not a label.
-/

namespace GoSyntax

open Parse Grammar Productions Cursor

variable {shift : Location → Location} {behind : Feed Token} {due : List Diagnostic} {c c' : Cursor}

/-- What a parser has read where it starts. -/
theorem Reads.reached {α : Type} {w : α → Tally} {f : Parse α} (h : ∀ n, Reads n w f f) (c : Cursor) :
    Reached c (c.kinds.length + 1) (w (f c).1) ⊤ (f c).2 := by
  have hread : Reached c (c.kinds.length + 1) (1 * w (f c).1) ⊤ (f c).2 := (h _ _ le_rfl c 1 c (.refl (Nat.lt_succ_self _) trivial)).2
  rwa [one_mul] at hread

namespace Grammar

/-- The second run gives what the first one gives, and then it has the tokens of the first one in front of those `behind`. -/
structure Finished (shift : Location → Location) (behind : Feed Token) (due : List Diagnostic) {α : Type} [Movable α]
    (r r' : α × Cursor) : Prop where
  result : r'.1 = moved shift r.1
  tokens : r'.2.tokens = moved shift r.2.tokens ++ behind.items.map Noted.value
  dues : r'.2.dues = due

theorem Finished.of_ahead {α : Type} [Movable α] {r r' : α × Cursor} (hresult : r'.1 = moved shift r.1)
    (h : Ahead shift behind due r.2 r'.2) : Finished shift behind due r r' := ⟨hresult, h.tokens, h.due⟩

/-- A run that reports nothing and has not come to its end is finished in front of more tokens. -/
theorem finished_of_follows {α : Type} [Movable α] {f g : Parse α} (hf : GoSyntax.Follows (.ahead shift behind due) f g)
    (h : Ahead shift behind due c c') (hclean : (f c).2.log = #[]) (hleft : (f c).2.kinds ≠ []) :
    (g c').1 = moved shift (f c).1 ∧ Ahead shift behind due (f c).2 (g c').2 := by
  have hescaped : ¬(Pursuit.ahead shift behind due).escaped (f c).2 := fun h => h.elim hleft (absurd hclean)
  have hkinds : c.kinds ≠ [] := fun hnil => hescaped (hf.lost c trivial (.inl hnil))
  obtain ⟨hresult, hahead, -⟩ := (hf.found c c' trivial ⟨h, hkinds⟩).resolve_left hescaped
  exact ⟨hresult, hahead⟩

/-! ## The end of a fragment -/

theorem fragmentEnd_follows {B : Pursuit} : GoSyntax.Follows B fragmentEnd fragmentEnd :=
  (FollowsAt.accept _).bind fun _ => FollowsAt.isAtEnd.bind fun _ => .ite (.pure rfl) (FollowsAt.reportExpected _)

/-- Nothing is left where the end of the input is not missing, and what was due has been met. -/
theorem isAtEnd_of_clean (h : ((do unless ← Parse.isAtEnd do reportExpected "end of input") c).2.log = #[]) :
    c.kinds = [] ∧ ((do unless ← Parse.isAtEnd do reportExpected "end of input") c).2.feed.pending = [] := by
  change ((if c.here.kind.sameKind .eof = true then Pure.pure () else reportExpected "end of input" : Parse Unit) (Parse.current c).2).2.log
    = #[] at h
  change _ ∧ ((if c.here.kind.sameKind .eof = true then Pure.pure () else reportExpected "end of input" : Parse Unit)
    (Parse.current c).2).2.feed.pending = []
  split at h
  · next heof =>
    have hkind : c.here.kind = .eof := (TokenKind.Bare.sameKind_iff _).1 heof
    rw [if_pos heof]
    exact ⟨kinds_eq_nil hkind, pending_look_eq_nil hkind⟩
  · exact absurd h Array.push_ne_empty

/-- At the end of a fragment there may be a `;` and nothing else. -/
theorem kinds_of_fragmentEnd (h : (fragmentEnd c).2.log = #[]) : c.kinds = [] ∨ c.kinds = [.punctuation .semicolon] := by
  change ((do unless ← Parse.isAtEnd do reportExpected "end of input") (Parse.accept Punctuation.semicolon c).2).2.log = #[] at h
  have hend := (isAtEnd_of_clean h).1
  change (((if c.here.kind.sameKind Punctuation.semicolon then Parse.consume >>= fun _ => Pure.pure true else Pure.pure false : Parse Bool)
    (Parse.current c).2)).2.kinds = [] at hend
  split at hend
  · next hsemi =>
    have hkind : c.here.kind = .punctuation .semicolon := (TokenKind.Bare.sameKind_iff _).1 hsemi
    obtain ⟨ks, hks⟩ := kinds_eq_cons (c := c) (by rw [hkind]; rintro ⟨⟩)
    change (Parse.consume (Parse.current c).2).2.kinds = [] at hend
    have hcurrent : (Parse.current c).2.kinds = c.kinds := kinds_peek 0 c
    rw [kinds_consume, hcurrent, hks, List.tail_cons] at hend
    rw [hks, hend, hkind]
    exact .inr rfl
  · have hcurrent : (Parse.current c).2.kinds = c.kinds := kinds_peek 0 c
    exact .inl (hcurrent.symm.trans hend)

/-- Nothing is due behind the end of a fragment. -/
theorem pending_of_fragmentEnd (h : (fragmentEnd c).2.log = #[]) : (fragmentEnd c).2.feed.pending = [] := (isAtEnd_of_clean h).2

/-- What reports nothing leaves due what was due. -/
theorem pending_of_bonded {α : Type} {f : Parse α} (h : Bonded .abreast 0 f f) (hlexical : Lexical c.feed.pending)
    (hclean : (f c).2.log = #[]) : (f c).2.feed.pending = c.feed.pending := by
  have habreast : c.Abreast c (f c).2 (f c).2 := (h.together (c, c) trivial c c (.refl ⟨.refl _, hlexical, hlexical⟩)).2
  obtain ⟨made, -, hmade, -⟩ := habreast.made
  have hlog := hmade.log
  rw [hclean] at hlog
  obtain rfl : made = [] := (List.append_eq_nil_iff.1 hlog.symm).2
  exact hmade.due

/-! ## Statements that leave nothing -/

/-- What is spelled by all tokens left and closes has its end where they end. -/
theorem arms_of_endsIn {l : Layout} (hl : l.EndsIn TokenKind.Arms) {w : List TokenKind} (hw : w ∈ l.words) (hkinds : w ++ [] = c.kinds) :
    ∃ kind, c.kinds.getLast? = some kind ∧ kind.Arms := by
  rw [← hkinds, List.append_nil]
  exact hl w hw

theorem stmt_reached (c : Cursor) : Reached c (c.kinds.length + 1) (stmt full c).1.tally ⊤ (stmt full c).2 :=
  Reads.reached (fun n => (stmt_reads (agrees_full n)).mono (Nat.le_succ n)) c

theorem expr_reached (c : Cursor) : Reached c (c.kinds.length + 1) (expr full 0 c).1.tally ⊤ (expr full 0 c).2 :=
  Reads.reached (fun n => (expr_reads (agrees_full n) 0).mono (Nat.le_succ n)) c

theorem arms_of_closes (hcloses : (stmt full c).1.Closes) (hclean : (stmt full c).2.log = #[]) (hend : (stmt full c).2.kinds = []) :
    ∃ kind, c.kinds.getLast? = some kind ∧ kind.Arms := by
  obtain ⟨w, hw, hkinds⟩ := (stmt_reached c).words hclean
  rw [hend] at hkinds
  exact arms_of_endsIn hcloses hw hkinds

theorem stmt_apply (p : Productions) (c : Cursor) : stmt p c = stmtFrom p c.here (Parse.current c).2 := rfl

theorem branchStmt_apply (keyword : Keyword) (c : Cursor) : branchStmt keyword c
    = (if (Parse.consume c).2.here.kind.isIdent = true then Parse.name >>= fun label =>
      Pure.pure (Stmt.branch c.here.loc keyword (some label))
      else Pure.pure (.branch c.here.loc keyword none) : Parse Stmt) (Parse.current (Parse.consume c).2).2 := rfl

/-- A statement that reports nothing has a token. -/
theorem kinds_ne_nil_of_stmt (hclean : (stmt full c).2.log = #[]) : c.kinds ≠ [] := fun hnil => by
  have heof : c.here.kind = .eof := by
    obtain ⟨heof, -⟩ | ⟨ks, -, hks⟩ := c.kinds_cases
    · exact heof
    · rw [hnil] at hks
      nomatch hks
  have hbad : stmtFrom full c.here = badStmt := by
    rw [stmtFrom, heof]
    rfl
  rw [stmt_apply, hbad] at hclean
  exact absurd (log_eq_of_clean (FollowsAt.skipTo _) hclean) Array.push_ne_empty

/-- The last token is one at which a line break ends a statement, or else the statement is the same in front of more tokens that do not
start with a name, so that a `goto` at its end finds no label there either. -/
def EndsWell (c : Cursor) : Prop := (∃ kind, c.kinds.getLast? = some kind ∧ kind.Arms)
  ∨ c.kinds.getLast? = some (.keyword .goto) ∧ ∀ {shift behind due c'}, Ahead shift behind due c c' → (behind.peek 0).kind.isIdent = false →
    Finished shift behind due (stmt full c) (stmt full c')

theorem endsWell_of_goto (hgoto : c.here.kind = .keyword .goto) (hclean : (stmt full c).2.log = #[]) (hend : (stmt full c).2.kinds = []) :
    EndsWell c := by
  have hbranch : ∀ {c : Cursor}, c.here.kind = .keyword .goto → stmt full c = branchStmt .goto (Parse.current c).2 := fun {c} h => by
    rw [stmt_apply, stmtFrom, h]
    rfl
  obtain ⟨ks, hks⟩ := kinds_eq_cons (c := c) (by rw [hgoto]; rintro ⟨⟩)
  rw [hgoto] at hks
  have hkinds : (Parse.current c).2.kinds = .keyword .goto :: ks := (kinds_peek 0 c).trans hks
  have htail : (Parse.consume (Parse.current c).2).2.kinds = ks := by rw [kinds_consume, hkinds, List.tail_cons]
  rw [hbranch hgoto, branchStmt_apply] at hclean hend
  split at hclean
  · next hident =>
    -- the label is the last token
    rw [if_pos hident] at hend
    obtain ⟨w, hw, hlast⟩ := (Reads.reached name_reads _).words hclean
    have hlabel : ks = w := by
      rw [← htail, ← kinds_peek 0 (Parse.consume (Parse.current c).2).2, ← List.append_nil w, ← hend]
      exact hlast.symm
    obtain rfl : w = [_] := hw
    exact .inl ⟨_, by rw [hks, hlabel]; rfl, rfl⟩
  · next hident =>
    rw [if_neg hident] at hend
    have hnil : ks = [] := by
      rw [← htail, ← kinds_peek 0 (Parse.consume (Parse.current c).2).2]
      exact hend
    subst hnil
    refine .inr ⟨by rw [hks]; rfl, fun {shift behind due c'} h hbehind => ?_⟩
    have hconsumed : (Parse.consume (Parse.current c).2).2.log = #[] := log_eq_empty_of_log (log_peek 0 _) hclean
    have hcurrent : (Parse.current c).2.log = #[] := log_eq_empty_of_log (log_consume _) hconsumed
    have hleft : c.kinds ≠ [] := by rw [hks]; exact List.cons_ne_nil _ _
    have hhere : c'.here = moved shift c.here := h.here_eq hleft
    have hahead : Ahead shift behind due (Parse.current c).2 (Parse.current c').2 := h.current hleft hcurrent
    obtain ⟨hhere', hrest⟩ := hahead.consume (by rw [hkinds]; exact List.cons_ne_nil _ _) hconsumed
    have hnext : (Parse.consume (Parse.current c').2).2.here.kind.isIdent = false := by
      rw [Cursor.here, hrest.feed_eq htail]
      exact hbehind
    rw [hbranch hgoto, hbranch (by rw [hhere]; exact hgoto), branchStmt_apply, branchStmt_apply, if_neg hident, hnext,
      if_neg Bool.false_ne_true]
    refine ⟨?_, ?_, ?_⟩
    · rw [hhere']
      rfl
    · exact (tokens_peek 0 _).trans (hrest.tokens.trans (congrArg (moved shift · ++ _) (tokens_peek 0 _).symm))
    · exact (dues_peek 0 _).trans hrest.due

/-- A statement starts with a name, and `d` stands in front of the colon behind it. -/
structure Labeled (c : Cursor) (loc : Location) (label : String) (d : Cursor) : Prop where
  simple : ∀ loc, stmtFrom full ⟨c.here.kind, loc⟩ = simpleStmt full .block 0
  read : exprList full 0 (Parse.current c).2 = ((.ident loc label, []), d)
  colon : d.here.kind = .punctuation .colon

/-- In front of what is labelled. -/
def behindColon (d : Cursor) : Cursor := (Parse.current (Parse.consume (Parse.current d).2).2).2

namespace Labeled

variable {loc : Location} {label : String} {d : Cursor}

theorem of_isLabel (hsimple : ∀ loc, stmtFrom full ⟨c.here.kind, loc⟩ = simpleStmt full .block 0)
    (h : IsLabel (afterFirst full (Parse.current c).2).1.1 (afterFirst full (Parse.current c).2).1.2 (afterFirst full (Parse.current c).2).2) :
    ∃ loc label d, Labeled c loc label d := by
  have hafter : afterFirst full (Parse.current c).2 = exprList full 0 (Parse.current c).2 := by rw [afterFirst, current_current]
  rw [hafter] at h
  obtain ⟨⟨⟨first, others⟩, d⟩, hread⟩ : ∃ r, exprList full 0 (Parse.current c).2 = r := ⟨_, rfl⟩
  rw [hread] at h
  obtain ⟨⟨loc, label, rfl⟩, rfl, hcolon⟩ := h
  exact ⟨loc, label, d, hsimple, hread, hcolon⟩

theorem kinds_eq (h : Labeled c loc label d) : d.kinds = .punctuation .colon :: (behindColon d).kinds := by
  obtain ⟨ks, hks⟩ := kinds_eq_cons (c := d) (by rw [h.colon]; rintro ⟨⟩)
  rw [behindColon, Parse.current, kinds_peek, kinds_consume, kinds_peek, hks, h.colon, List.tail_cons]

theorem exists_kinds_eq (h : Labeled c loc label d) : ∃ w, c.kinds = w ++ .punctuation .colon :: (behindColon d).kinds := by
  obtain ⟨w, hw⟩ := (Reads.reached (fun n => (exprList_reads (agrees_full n) 0).mono n.le_succ) (Parse.current c).2).suffix
  rw [h.read, h.kinds_eq, Parse.current, kinds_peek] at hw
  exact ⟨w, hw.symm⟩

theorem stmt_eq (h : Labeled c loc label d) : stmt full c = labeled full ⟨loc, label⟩ c.here.loc (Parse.current d).2 := by
  have hafter : afterFirst full (Parse.current c).2 = ((.ident loc label, []), d) := by rw [afterFirst, current_current, h.read]
  have hlabel : IsLabel (afterFirst full (Parse.current c).2).1.1 (afterFirst full (Parse.current c).2).1.2
      (afterFirst full (Parse.current c).2).2 := by
    rw [hafter]
    exact ⟨⟨loc, label, rfl⟩, rfl, h.colon⟩
  obtain ⟨loc', label', hfirst, heq⟩ := simpleStmt_label full (Parse.current c).2 hlabel
  rw [hafter] at hfirst heq
  obtain ⟨rfl, rfl⟩ := Expr.ident.inj (Prod.mk.inj hfirst).1
  have hhere : (Parse.current c).2.here = c.here := here_peek 0 c
  rw [stmt_apply, h.simple c.here.loc, heq, hhere]

/-- In front of a brace an empty statement is labelled, and in front of anything else the statement that starts there. -/
theorem stmt_eq_ite (h : Labeled c loc label d) : stmt full c = if (behindColon d).here.kind.sameKind Punctuation.rBrace
    then (.labeled c.here.loc ⟨loc, label⟩ (.empty (behindColon d).here.loc), behindColon d)
    else (.labeled c.here.loc ⟨loc, label⟩ (stmt full (behindColon d)).1, (stmt full (behindColon d)).2) := by
  have hlabeled : labeled full ⟨loc, label⟩ c.here.loc (Parse.current d).2
      = (if (Parse.consume (Parse.current d).2).2.here.kind.sameKind Punctuation.rBrace = true
        then Parse.current >>= fun here => Pure.pure (Stmt.labeled c.here.loc ⟨loc, label⟩ (.empty here.loc))
        else full.stmt >>= fun s => Pure.pure (.labeled c.here.loc ⟨loc, label⟩ s) : Parse Stmt) (behindColon d) := rfl
  have hhere : (behindColon d).here = (Parse.consume (Parse.current d).2).2.here := here_peek 0 _
  have hcurrent : (Parse.current (behindColon d)).2 = behindColon d := congrArg Prod.snd (current_current _)
  rw [h.stmt_eq, hlabeled, ← hhere]
  split
  · rw [bind_apply, hcurrent]
    rfl
  · rw [stmt_full]
    rfl

theorem log_eq (h : Labeled c loc label d) (hclean : (stmt full c).2.log = #[]) : (behindColon d).log = #[] := by
  rw [h.stmt_eq_ite] at hclean
  split at hclean
  · exact hclean
  · exact log_eq_of_clean (stmt_follows (pursued_of_reports fun _ => id)) hclean

/-- With more tokens behind, the same label is read and the colon behind it. -/
theorem ahead (h : Labeled c loc label d) (hahead : Ahead shift behind due c c') (hlog : (behindColon d).log = #[])
    (hkinds : (behindColon d).kinds ≠ []) : ∃ d', Labeled c' (shift loc) label d'
      ∧ Ahead shift behind due (behindColon d) (behindColon d') := by
  have hconsumed : (Parse.consume (Parse.current d).2).2.log = #[] := log_eq_empty_of_log (log_peek 0 _) hlog
  have hcurrent : (Parse.current d).2.log = #[] := log_eq_empty_of_log (log_consume _) hconsumed
  have hdlog : (exprList full 0 (Parse.current c).2).2.log = #[] := by
    rw [h.read]
    exact log_eq_empty_of_log (log_peek 0 d) hcurrent
  have hstart : (Parse.current c).2.log = #[] := log_eq_of_clean (exprList_follows (pursued_of_reports fun _ => id) 0) hdlog
  have hdkinds : d.kinds ≠ [] := by
    rw [h.kinds_eq]
    exact List.cons_ne_nil _ _
  have hckinds : c.kinds ≠ [] := by
    obtain ⟨w, hw⟩ := h.exists_kinds_eq
    rw [hw]
    exact List.append_ne_nil_of_right_ne_nil _ (List.cons_ne_nil _ _)
  have hstarted := hahead.current hckinds hstart
  have hread := finished_of_follows (exprList_follows (pursued_ahead shift behind due) 0) hstarted hdlog (by rwa [h.read])
  rw [h.read] at hread
  generalize hread' : exprList full 0 (Parse.current c').2 = r at hread
  obtain ⟨first, d'⟩ := r
  obtain ⟨rfl, hmarked⟩ := hread
  obtain ⟨-, htaken⟩ := (hmarked.current hdkinds hcurrent).consume (by rwa [Parse.current, kinds_peek]) hconsumed
  have hrest : (Parse.consume (Parse.current d).2).2.kinds ≠ [] := by
    rwa [behindColon, Parse.current, kinds_peek] at hkinds
  refine ⟨d', ⟨?_, hread', ?_⟩, htaken.current hrest hlog⟩
  · rw [hahead.here_eq hckinds]
    exact h.simple
  · rw [hmarked.here_eq hdkinds]
    exact h.colon

end Labeled

/-- Behind a label a statement ends as it does on its own. -/
theorem endsWell_of_labeled {loc : Location} {label : String} {d : Cursor} (h : Labeled c loc label d) (hclean : (stmt full c).2.log = #[])
    (hend : (stmt full c).2.kinds = [])
    (ih : ∀ e : Cursor, e.kinds.length < c.kinds.length → (stmt full e).2.log = #[] → (stmt full e).2.kinds = [] → EndsWell e) :
    EndsWell c := by
  have hlog := h.log_eq hclean
  obtain ⟨w, hw⟩ := h.exists_kinds_eq
  rw [h.stmt_eq_ite] at hclean hend
  split at hclean
  · next hbrace =>
    rw [if_pos hbrace] at hend
    have hkind : (behindColon d).here.kind = .punctuation .rBrace := (TokenKind.Bare.sameKind_iff _).1 hbrace
    obtain ⟨ks, hks⟩ := kinds_eq_cons (c := behindColon d) (by rw [hkind]; rintro ⟨⟩)
    nomatch hks.symm.trans hend
  · next hbrace =>
    rw [if_neg hbrace] at hend
    have hkinds : (behindColon d).kinds ≠ [] := kinds_ne_nil_of_stmt hclean
    have hlast : c.kinds.getLast? = (behindColon d).kinds.getLast? := by
      obtain ⟨kind, ks, hks⟩ := List.exists_cons_of_ne_nil hkinds
      rw [hw, hks, List.getLast?_append_of_ne_nil _ (List.cons_ne_nil _ _), List.getLast?_cons_cons]
    have hlt : (behindColon d).kinds.length < c.kinds.length := by
      rw [hw, List.length_append, List.length_cons]
      omega
    rw [EndsWell, hlast]
    refine (ih _ hlt hclean hend).imp_right fun ⟨hgoto, hfinished⟩ => ⟨hgoto, fun {shift behind due c'} hahead hident => ?_⟩
    obtain ⟨d', h', hbehind⟩ := h.ahead hahead hlog hkinds
    obtain ⟨hresult, htokens, hdues⟩ := hfinished hbehind hident
    have hhere : c'.here = moved shift c.here := hahead.here_eq (by rw [hw]; exact List.append_ne_nil_of_right_ne_nil _ (List.cons_ne_nil _ _))
    rw [h.stmt_eq_ite, if_neg hbrace, h'.stmt_eq_ite, if_neg (by rwa [hbehind.here_eq hkinds]), hhere]
    refine ⟨?_, htokens, hdues⟩
    dsimp only
    rw [hresult]
    rfl

theorem endsWell_of_clean (hclean : (stmt full c).2.log = #[]) (hend : (stmt full c).2.kinds = []) : EndsWell c := by
  induction hn : c.kinds.length using Nat.strong_induction_on generalizing c with
  | _ n ih =>
    subst hn
    have hkinds := kinds_ne_nil_of_stmt hclean
    rcases stmtFrom_closes closesIf_full c.here.kind with hgoto | hempty | hsimple | hcloses
    · exact endsWell_of_goto hgoto hclean hend
    · have hleft : (stmt full c).2.kinds = c.kinds := by
        rw [stmt_apply, hempty c.here.loc]
        exact kinds_peek 0 c
      exact absurd (hleft.symm.trans hend) hkinds
    · rcases simpleStmt_closes full (Parse.current c).2 with hlabel | hcloses
      · obtain ⟨loc, label, d, h⟩ := Labeled.of_isLabel hsimple hlabel
        exact endsWell_of_labeled h hclean hend fun d hd hclean hend => ih _ hd hclean hend rfl
      · refine .inl (arms_of_closes ?_ hclean hend)
        rw [stmt_apply, hsimple c.here.loc]
        exact hcloses
    · exact .inl (arms_of_closes (hcloses c.here.loc _) hclean hend)

/-! ## Fragments in front of more tokens -/

/-- Nothing was due in front of a fragment without a diagnostic. -/
theorem pending_of_stmtFragment (hlexical : Lexical c.feed.pending) (hclean : (stmtFragment full c).2.log = #[]) : c.feed.pending = [] := by
  have hpending := pending_of_bonded Bonded.stmtFragment hlexical hclean
  rw [stmtFragment_apply] at hclean hpending
  exact hpending.symm.trans (pending_of_fragmentEnd hclean)

theorem pending_of_exprFragment (hlexical : Lexical c.feed.pending) (hclean : (exprFragment full c).2.log = #[]) : c.feed.pending = [] := by
  have hpending := pending_of_bonded Bonded.exprFragment hlexical hclean
  rw [exprFragment_apply] at hclean hpending
  dsimp only at hclean hpending
  exact hpending.symm.trans (pending_of_fragmentEnd hclean)

/-- A statement that is a fragment without a diagnostic leaves at most a `;`. -/
theorem kinds_of_stmtFragment (hclean : (stmtFragment full c).2.log = #[]) :
    (stmt full c).2.log = #[] ∧ ((stmt full c).2.kinds = [] ∨ (stmt full c).2.kinds = [.punctuation .semicolon]) := by
  rw [stmtFragment_apply] at hclean
  exact ⟨log_eq_of_clean fragmentEnd_follows hclean, kinds_of_fragmentEnd hclean⟩

/-- An expression leaves it, since at its end a line break would end a statement. -/
theorem kinds_of_exprFragment (hclean : (exprFragment full c).2.log = #[])
    (hlast : ∀ kind, c.kinds.getLast? = some kind → kind.endsStatement = false) :
    (expr full 0 c).2.log = #[] ∧ (expr full 0 c).2.kinds = [.punctuation .semicolon] := by
  rw [exprFragment_apply] at hclean
  dsimp only at hclean
  have hlog : (expr full 0 c).2.log = #[] := log_eq_of_clean fragmentEnd_follows hclean
  refine ⟨hlog, (kinds_of_fragmentEnd hclean).resolve_left fun hnil => ?_⟩
  obtain ⟨w, hw, hkinds⟩ := (expr_reached c).words hlog
  rw [hnil] at hkinds
  generalize (expr full 0 c).1 = e at hw
  obtain ⟨kind, hkind, harms⟩ := arms_of_endsIn e.endsIn_layout hw hkinds
  rw [TokenKind.Arms, hlast kind hkind] at harms
  nomatch harms

/-- A parser that leaves a `;` has the `;` for the last token. -/
theorem getLast?_of_left {m : Nat} {t : Tally} {d : Cursor} (h : Reached c m t ⊤ d) (hleft : d.kinds = [.punctuation .semicolon]) :
    c.kinds.getLast? = some (.punctuation .semicolon) := by
  obtain ⟨w, hw⟩ := h.suffix
  rw [← hw, hleft]
  exact List.getLast?_concat

/-- No parser looks beyond the end of a fragment without a diagnostic. -/
theorem announces_of_stmtFragment (hclean : (stmtFragment full c).2.log = #[])
    (hlast : ∀ kind, c.kinds.getLast? = some kind → kind.endsStatement = false) :
    ∀ kind, c.kinds.getLast? = some kind → kind.announces = false := by
  obtain ⟨hlog, hnil | hsemicolon⟩ := kinds_of_stmtFragment hclean
  · rcases endsWell_of_clean hlog hnil with ⟨kind, hkind, harms⟩ | ⟨hgoto, -⟩
    · rw [TokenKind.Arms, hlast kind hkind] at harms
      nomatch harms
    · rintro kind hkind
      obtain rfl := Option.some.inj (hgoto.symm.trans hkind)
      rfl
  · rintro kind hkind
    obtain rfl := Option.some.inj ((getLast?_of_left (stmt_reached c) hsemicolon).symm.trans hkind)
    rfl

theorem announces_of_exprFragment (hclean : (exprFragment full c).2.log = #[])
    (hlast : ∀ kind, c.kinds.getLast? = some kind → kind.endsStatement = false) :
    ∀ kind, c.kinds.getLast? = some kind → kind.announces = false := by
  obtain ⟨-, hsemicolon⟩ := kinds_of_exprFragment hclean hlast
  rintro kind hkind
  obtain rfl := Option.some.inj ((getLast?_of_left (expr_reached c) hsemicolon).symm.trans hkind)
  rfl

/-- The statement is the same in front of a brace. -/
theorem stmt_finished (h : Ahead shift behind due c c') (hclean : (stmtFragment full c).2.log = #[])
    (hlast : ∀ kind, c.kinds.getLast? = some kind → kind.endsStatement = false)
    (hbehind : (behind.peek 0).kind = .punctuation .rBrace) : Finished shift behind due (stmt full c) (stmt full c') := by
  obtain ⟨hlog, hnil | hsemicolon⟩ := kinds_of_stmtFragment hclean
  · rcases endsWell_of_clean hlog hnil with ⟨kind, hkind, harms⟩ | ⟨-, hfinished⟩
    · rw [TokenKind.Arms, hlast kind hkind] at harms
      nomatch harms
    · exact hfinished h (by rw [hbehind]; rfl)
  · obtain ⟨hresult, hahead⟩ := finished_of_follows (stmt_follows (pursued_ahead shift behind due)) h hlog
      (by rw [hsemicolon]; exact List.cons_ne_nil _ _)
    exact .of_ahead hresult hahead

/-- The expression is the same in front of any tokens. -/
theorem expr_finished (h : Ahead shift behind due c c') (hclean : (exprFragment full c).2.log = #[])
    (hlast : ∀ kind, c.kinds.getLast? = some kind → kind.endsStatement = false) :
    Finished shift behind due (expr full 0 c) (expr full 0 c') := by
  obtain ⟨hlog, hsemicolon⟩ := kinds_of_exprFragment hclean hlast
  obtain ⟨hresult, hahead⟩ := finished_of_follows (expr_follows (pursued_ahead shift behind due) 0) h hlog
    (by rw [hsemicolon]; exact List.cons_ne_nil _ _)
  exact .of_ahead hresult hahead

/-- No statement is missing in a fragment without a diagnostic. -/
theorem endsStatements_of_clean (hclean : (stmtFragment full c).2.log = #[]) : endsStatements c.here.kind = false := by
  obtain ⟨hlog, hleft⟩ := kinds_of_stmtFragment hclean
  have hbad : stmtFrom full c.here ≠ badStmt := fun hbad => by
    rw [stmt_apply, hbad] at hlog
    exact absurd (log_eq_of_clean (FollowsAt.skipTo _) hlog) Array.push_ne_empty
  refine Bool.eq_false_iff.2 fun hends => ?_
  rcases (endsStatements_iff _).1 hends with hkind | hkind | hkind | hkind
  · -- the brace is left
    have hempty : (stmt full c).2.kinds = c.kinds := by
      rw [stmt_apply, stmtFrom, hkind]
      exact kinds_peek 0 c
    obtain ⟨ks, hks⟩ := kinds_eq_cons (c := c) (by rw [hkind]; rintro ⟨⟩)
    rw [hkind] at hks
    rcases hleft with hleft | hleft <;> cases hks.symm.trans (hempty.symm.trans hleft)
  · exact kinds_ne_nil_of_stmt hlog (kinds_eq_nil hkind)
  · exact hbad (by rw [stmtFrom, hkind]; rfl)
  · exact hbad (by rw [stmtFrom, hkind]; rfl)

end Grammar

end GoSyntax
