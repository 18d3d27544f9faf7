import GoSyntax.Proofs.Context.Closings
import GoSyntax.Proofs.Context.Embedding
import GoSyntax.Proofs.Recovery.Blame
import GoSyntax.Proofs.Recovery.Parting

/-!
# Lists that nothing closes

A list of members is read in two runs. In the first one a closing token stands behind the members, in the second one a keyword that starts a
declaration. Up to there both read the same, since no member can do without the token that closes the list around it: a member that went
on behind the last `;` would take the closing token for itself, and then the list had none. At the keyword the second run reports once that
the closing token is missing, and leaves the list with the members that it has.
-/

namespace GoSyntax

open Parse Cursor Grammar Productions

/-! ## How members end -/

theorem Field.endsIn_layout (f : Field) : f.layout.EndsIn TokenKind.Arms := by
  obtain ⟨loc, names, type, tag⟩ := f
  refine Layout.endsIn_append_or (Layout.endsIn_append _ type.endsIn_layout) (Layout.endsIn_maybe fun l hl => ?_)
  obtain ⟨literal, -, rfl⟩ := Option.map_eq_some_iff.1 hl
  exact Layout.endsIn_token rfl

theorem InterfaceElem.endsIn_layout (e : InterfaceElem) : e.layout.EndsIn TokenKind.Arms := by
  cases e with
  | method loc name sig => exact Layout.endsIn_append _ sig.endsIn_layout
  | embedded loc type => exact type.endsIn_layout

/-- What a parser has read where a token comes next that it takes. -/
theorem Takes.reached {α : Type} {ψ : Token → Prop} {w : α → Tally} {f : Parse α} (h : ∀ n, Takes n ψ w f f) {c : Cursor} (hψ : ψ c.here) :
    Reached c c.kinds.length (w (f c).1) ⊤ (f c).2 := by
  have hread : Reached c c.kinds.length (1 * w (f c).1) ⊤ (f c).2 :=
    (h _ _ le_rfl c 1 c (.refl (Nat.lt_succ_self _) hψ)).2
  rwa [one_mul] at hread

/-- Where a token with `φ` comes next, the parser reads a word whose last token is one at which a line break ends a statement, if it reports
nothing. -/
def ReadsArmed {α : Type} (φ : Token → Prop) (f : Parse α) : Prop :=
  ∀ c : Cursor, φ c.here → (f c).2.log = #[] → ∃ w kind, w ++ (f c).2.kinds = c.kinds ∧ w.getLast? = some kind ∧ kind.Arms

theorem ReadsArmed.of_reached {α : Type} {φ : Token → Prop} {f : Parse α} {l : α → Layout} {w : α → Tally}
    (h : ∀ c : Cursor, φ c.here → Reached c c.kinds.length (w (f c).1) ⊤ (f c).2) (hw : ∀ a, (w a).words = (l a).words)
    (hends : ∀ c, (l (f c).1).EndsIn TokenKind.Arms) : ReadsArmed φ f := by
  intro c hφ hclean
  obtain ⟨word, hword, hkinds⟩ := (h c hφ).words hclean
  rw [hw] at hword
  obtain ⟨kind, hlast, harms⟩ := hends c word hword
  exact ⟨word, kind, hkinds, hlast, harms⟩

theorem field_readsArmed : ReadsArmed (fun t => startsField t.kind = true) (field full) :=
  .of_reached (fun _ h => Takes.reached (fun n => field_takes (agrees_full n)) h) (fun _ => rfl) fun _ => Field.endsIn_layout _

theorem interfaceElem_readsArmed : ReadsArmed (fun t => t.kind.isIdent = true) (interfaceElem full) :=
  .of_reached (fun _ h => Takes.reached (fun n => interfaceElem_takes (agrees_full n)) h)
    (fun _ => rfl) fun _ => InterfaceElem.endsIn_layout _

theorem spec_readsArmed (keyword : Keyword) (isFirst : Bool) :
    ReadsArmed (fun t => startsSpec keyword t.kind = true) (spec full keyword isFirst) :=
  .of_reached (fun _ h => Takes.reached (fun n => spec_takes (agrees_full n) keyword isFirst) h) (fun _ => rfl)
    (spec_gives full keyword isFirst)

/-! ## The end of a member -/

namespace Cursor

variable {mark : Punctuation} {c : Cursor}

/-- At the mark that closes a list nothing is taken. -/
theorem endOrAccept_close (hdues : c.dues = []) (hhere : c.here.kind = .punctuation mark) :
    (isAt mark <||> accept Punctuation.semicolon) c = (true, c) := by
  rw [orM_apply, isAt_of_dues hdues, if_pos ((TokenKind.Bare.sameKind_iff _).2 hhere)]

/-- A `;` is taken. -/
theorem endOrAccept_semicolon (hmark : mark ≠ .semicolon) (hhere : c.here.kind = .punctuation .semicolon) :
    (isAt mark <||> accept Punctuation.semicolon) c = (true, (Parse.consume c).2) := by
  have hisAt : isAt mark c = (c.here.kind.sameKind mark, (Parse.current c).2) := rfl
  have hsame : c.here.kind.sameKind mark = false := by
    rw [hhere]
    refine Bool.eq_false_iff.2 fun h => hmark ?_
    exact (TokenKind.punctuation.inj ((TokenKind.Bare.sameKind_iff _).1 h)).symm
  rw [orM_apply, hisAt, hsame, if_neg Bool.false_ne_true, accept_of_sameKind (by rw [here_current, hhere]; rfl), consume_current]

/-- A token that does not come next is reported as missing, and nothing is taken. -/
theorem expect_missing {kind : TokenKind} (h : c.here.kind.sameKind kind = false) : expect kind c
    = (c.here.loc, (Parse.report (.expectedToken kind.display c.here.kind.display) c.here.loc (Parse.current c).2).2) := by
  have haccept : accept kind (Parse.current c).2 = (false, (Parse.current c).2) := by
    rw [accept_apply, here_current, if_neg (by rw [h]; exact Bool.false_ne_true), current_current]
  change (if (accept kind (Parse.current c).2).1 = true then return c.here.loc else do
    reportExpected kind.display
    return c.here.loc : Parse Location) (accept kind (Parse.current c).2).2 = _
  rw [haccept]
  change (c.here.loc, (Parse.report (.expectedToken kind.display (Parse.current c).2.here.kind.display) (Parse.current c).2.here.loc
    (Parse.current (Parse.current c).2).2).2) = _
  rw [here_current, current_current]

/-- Where there is nothing left to report, what reports nothing leaves it so. -/
theorem dues_eq_nil_of_clean {α : Type} {f : Parse α} [hf : Bonded .abreast 0 f f] (hdues : c.dues = []) (hclean : (f c).2.log = #[]) :
    (f c).2.dues = [] := by
  obtain ⟨-, hpending⟩ := eq_nil_of_dues hdues
  have hlexical : Lexical c.feed.pending := by rw [hpending]; exact .nil
  rw [dues, hclean, pending_of_bonded hf hlexical hclean, hpending]
  rfl

end Cursor

/-! ## Two runs over one list -/

section Lists

variable {shift : Location → Location} {ours theirs : Feed Token} {due : List Diagnostic} {closing : Punctuation}

/-- The second run has left a list unclosed: it gives what the first run gives and has come to its own tokens, of which it has looked at the
first one, and all that it has reported about the order of tokens is that the closing token is missing there. -/
structure LeftOpen (shift : Location → Location) (theirs : Feed Token) (closing : Punctuation) {α : Type} [Movable α] (r r' : α × Cursor) :
    Prop where
  result : r'.1 = moved shift r.1
  feed : r'.2.feed = (theirs.look 1).2
  reported : syntactic r'.2.log.toList
    = [⟨.expectedToken (TokenKind.punctuation closing).display (theirs.peek 0).kind.display, (theirs.peek 0).loc⟩]

/-- Over these tokens and the closing token behind them the first parser reports nothing and leaves a `;`. Where the second run has its own
tokens, it leaves the list unclosed. -/
def LeavesOpen (shift : Location → Location) (ours theirs : Feed Token) (due : List Diagnostic) (closing : Punctuation) (ts : List Token)
    {α : Type} [Movable α] (f g : Parse α) : Prop :=
  ∀ c c', Parting shift ours theirs due ts c c' → c.dues = [] → (f c).2.log = #[] → (f c).2.kinds = [.punctuation .semicolon] →
    LeftOpen shift theirs closing (f c) (g c')

/-- How a list is read to its end: at a token that starts a member the member is read, and then the list ends or goes on behind a `;`; at
the closing token it is taken; anywhere else something is reported. -/
structure ReadsList {σ β τ : Type} (starts : TokenKind → Bool) (closing : Punctuation) (member : σ → Parse β) (add : σ → β → σ)
    (rest : σ → Parse τ) : Prop where
  quiet : ∀ a c, (rest a c).2.log = #[] → c.log = #[]
  go : ∀ a c, starts c.here.kind = true → ∃ resume : Parse τ, rest a c
      = ((isAt closing <||> accept Punctuation.semicolon) >>= fun ended =>
        if ended = true then rest (add a (member a (Parse.current c).2).1) else resume) (member a (Parse.current c).2).2
    ∧ ((Parse.current c).2.log = #[] → ∀ d, (resume d).2.log ≠ #[])
  stop : ∀ a c, starts c.here.kind = false → c.here.kind ≠ .punctuation closing → (rest a c).2.log ≠ #[]
  close : ∀ a c, c.here.kind = .punctuation closing → (rest a c).2.kinds = c.kinds.tail
  starts_eof : starts .eof = false
  closing_ne : closing ≠ .semicolon

/-- A word that does not end with the last `;` in front of the closing token leaves some token in front of it, or takes it. -/
theorem left_of_armed {w ks left : List TokenKind} {kind : TokenKind}
    (h : w ++ left = ks ++ [.punctuation closing, .punctuation .semicolon])
    (hlast : ∀ k, ks.getLast? = some k → k = Punctuation.semicolon) (hw : w.getLast? = some kind) (harms : kind.Arms) :
    (∃ us, us ≠ [] ∧ left = us ++ [.punctuation closing, .punctuation .semicolon] ∧ ks = w ++ us)
      ∨ left = [.punctuation .semicolon] ∨ left = [] := by
  have hne : ks ≠ w := by
    rintro rfl
    rw [hlast kind hw] at harms
    nomatch harms
  rcases List.append_eq_append_iff.1 h with ⟨us, hks, hleft⟩ | ⟨vs, hword, hleft⟩
  · refine .inl ⟨us, ?_, hleft, hks⟩
    rintro rfl
    exact hne (hks.trans (List.append_nil w))
  · cases vs with
    | nil => exact absurd (hword.trans (List.append_nil ks)).symm hne
    | cons v vs =>
      obtain ⟨-, hleft⟩ := List.cons.inj hleft
      cases vs with
      | nil => exact .inr (.inl hleft.symm)
      | cons v vs => exact .inr (.inr (List.append_eq_nil_iff.1 (List.cons.inj hleft).2.symm).2)

namespace ReadsList

variable {σ β τ : Type} [Movable σ] [Movable β] [Movable τ] {starts : TokenKind → Bool} {member : σ → Parse β} {add : σ → β → σ}
  {rest : σ → Parse τ} {ts : List Token} {c c' : Cursor}

omit [Movable σ] [Movable β] [Movable τ] in
/-- Behind a member that reports nothing the list ends or goes on; so nothing had been reported. -/
theorem of_clean (h : ReadsList starts closing member add rest) {a : σ} (hstarts : starts c.here.kind = true) (hdues : c.dues = [])
    (hclean : (rest a c).2.log = #[]) : (member a c).2.log = #[]
      ∧ ((isAt closing <||> accept Punctuation.semicolon) (member a c).2).1 = true
      ∧ rest a c = rest (add a (member a c).1) ((isAt closing <||> accept Punctuation.semicolon) (member a c).2).2 := by
  obtain ⟨resume, hgo, hresume⟩ := h.go a c hstarts
  rw [current_of_dues hdues] at hgo hresume
  rw [hgo, bind_apply] at hclean ⊢
  split at hclean
  · next hended =>
    have hself : Follows .untilReport (isAt closing <||> accept Punctuation.semicolon) (isAt closing <||> accept Punctuation.semicolon) :=
      .orM (.isAt _) (.accept _)
    refine ⟨log_eq_of_clean hself (h.quiet _ _ hclean), hended, ?_⟩
    rw [if_pos hended]
  · exact absurd hclean (hresume (eq_nil_of_dues hdues).1 _)

omit [Movable σ] [Movable β] [Movable τ] in
/-- At the end of the input nothing closes the list. -/
theorem log_ne_of_kinds_nil (h : ReadsList starts closing member add rest) (a : σ) (hkinds : c.kinds = []) : (rest a c).2.log ≠ #[] := by
  have heof := here_kind_of_nil hkinds
  exact h.stop a c (heof ▸ h.starts_eof) (by rw [heof]; rintro ⟨⟩)

variable [∀ a, Bonded .abreast 0 (member a) (member a)]

omit [Movable τ] in
/-- A member and the `;` behind it are read in both runs, and then both go on with the list. -/
theorem exists_step (h : ReadsList starts closing member add rest)
    (hfollows : ∀ a, FollowsAt (.parting shift ours theirs due) (fun t => starts t.kind = true) (member a) (member (moved shift a)))
    (hadd : ∀ a b, add (moved shift a) (moved shift b) = moved shift (add a b)) {t : Token} {ks : List TokenKind} {a : σ}
    (hparting : Parting shift ours theirs due (t :: ts) c c') (hdues : c.dues = []) (hstarts : starts c.here.kind = true)
    (hquiet : (member a c).2.log = #[])
    (hkinds : (member a c).2.kinds = .punctuation .semicolon :: ks ++ ours.items.map fun n => n.value.kind) :
    ∃ ts' d d', Parting shift ours theirs due ts' d d' ∧ ts'.map Token.kind = ks ∧ d.dues = []
      ∧ d = ((isAt closing <||> accept Punctuation.semicolon) (member a c).2).2
      ∧ rest (moved shift a) c' = rest (moved shift (add a (member a c).1)) d' := by
  have hcurrent : (Parse.current c).2 = c := congrArg Prod.snd (current_of_dues hdues)
  have hclean : c.log = #[] := (eq_nil_of_dues hdues).1
  have hlooked := hparting.current (by rw [hcurrent, hclean])
  rw [hcurrent] at hlooked
  -- the member is read alike in both runs
  have hlength : ours.items.length < (member a c).2.kinds.length := by
    rw [hkinds, List.length_append, List.length_map]
    simp
  have hescaped : ¬(Pursuit.parting shift ours theirs due).escaped (member a c).2 := fun h =>
    h.elim (fun hle => absurd hlength (Nat.not_lt.2 hle)) (absurd hquiet)
  obtain ⟨hmember, us', hbehind, -⟩ := ((hfollows a).found c _ hstarts ⟨_, hlooked, List.cons_ne_nil t ts⟩).resolve_left hescaped
  have hus : us'.map Token.kind = .punctuation .semicolon :: ks := List.append_cancel_right (hbehind.kinds.symm.trans hkinds)
  obtain ⟨v, vs, rfl, hv, hvs⟩ := List.map_eq_cons_iff.1 hus
  -- so is the `;`
  have hdues' : (member a c).2.dues = [] := dues_eq_nil_of_clean hdues hquiet
  have hhere : (member a c).2.here.kind = .punctuation .semicolon := by rw [hbehind.here_eq, hv]
  have htokens : (member a c).2.tokens = v :: (vs ++ ours.items.map Noted.value) := hbehind.tokens
  have htaken : (Parse.consume (member a c).2).2.dues = [] := (dues_consume htokens).trans hdues'
  have hend := endOrAccept_semicolon h.closing_ne hhere
  have hhere' : (member (moved shift a) (Parse.current c').2).2.here.kind = .punctuation .semicolon := by
    rw [hbehind.here_eq']
    exact hv
  have hend' := endOrAccept_semicolon h.closing_ne hhere'
  refine ⟨vs, _, _, hbehind.consume (eq_nil_of_dues htaken).1, hvs, htaken, by rw [hend], ?_⟩
  have hstarts' : starts c'.here.kind = true := by
    rw [hparting.here_eq] at hstarts
    rw [hparting.here_eq']
    exact hstarts
  obtain ⟨resume, hgo, -⟩ := h.go (moved shift a) c' hstarts'
  rw [hgo, bind_apply, hend', if_pos rfl, hmember]
  exact congrArg (fun a => rest a _) (hadd a _)

omit [Movable σ] [Movable β] [Movable τ] in
/-- Behind each member a `;` comes next. The closing token cannot come next, since it would stand in front of the last `;`, and a member
that goes on behind the last `;` takes the closing token with it. -/
theorem exists_semicolon (h : ReadsList starts closing member add rest) {a : σ}
    (hmember : ReadsArmed (fun t => starts t.kind = true) (member a))
    {ks : List TokenKind} (hlast : ∀ kind, ks.getLast? = some kind → kind = Punctuation.semicolon)
    (hkinds : c.kinds = ks ++ [.punctuation closing, .punctuation .semicolon]) (hstarts : starts c.here.kind = true) (hdues : c.dues = [])
    (hclean : (rest a c).2.log = #[]) (hend : (rest a c).2.kinds = [.punctuation .semicolon]) :
    ∃ w us, ks = w ++ .punctuation .semicolon :: us
      ∧ (member a c).2.kinds = .punctuation .semicolon :: us ++ [.punctuation closing, .punctuation .semicolon] := by
  obtain ⟨hquiet, hended, heq⟩ := h.of_clean hstarts hdues hclean
  obtain ⟨w, kind, hw, hwlast, harms⟩ := hmember c hstarts hquiet
  have hdues' : (member a c).2.dues = [] := dues_eq_nil_of_clean hdues hquiet
  have hends := (closed_or_accepted closing Punctuation.semicolon (member a c).2).1
  rw [hended] at hends
  rw [heq] at hclean hend
  rcases left_of_armed (hw.trans hkinds) hlast hwlast harms with ⟨us, hne, hleft, hrest⟩ | hleft | hleft
  · obtain ⟨k, us, rfl⟩ := List.exists_cons_of_ne_nil hne
    have hhere : (member a c).2.here.kind = k := here_kind_of_cons hleft
    rw [hhere] at hends
    rcases Bool.or_eq_true_iff.1 hends.symm with hclosing | hsemicolon
    · -- the closing token would stand in front of the last `;`
      exfalso
      have hclosing := hhere.trans ((TokenKind.Bare.sameKind_iff _).1 hclosing)
      rw [endOrAccept_close hdues' hclosing, h.close _ _ hclosing, hleft] at hend
      simpa using congrArg List.length hend
    · obtain rfl : k = .punctuation .semicolon := (TokenKind.Bare.sameKind_iff _).1 hsemicolon
      exact ⟨w, us, hrest, hleft⟩
  · -- the member would have taken the closing token
    exfalso
    have htaken := endOrAccept_semicolon h.closing_ne (here_kind_of_cons hleft)
    refine h.log_ne_of_kinds_nil (add a (member a c).1) ?_ hclean
    rw [htaken, kinds_consume, hleft, List.tail_cons]
  · -- the member would have taken all tokens
    exfalso
    have hhere : (member a c).2.here.kind = .eof := here_kind_of_nil hleft
    rw [hhere] at hends
    nomatch hends

/-- A list that the closing token closes is left unclosed where the second run has other tokens instead. -/
theorem leavesOpen (h : ReadsList starts closing member add rest)
    (hfollows : ∀ a, FollowsAt (.parting shift ours theirs due) (fun t => starts t.kind = true) (member a) (member (moved shift a)))
    (hadd : ∀ a b, add (moved shift a) (moved shift b) = moved shift (add a b))
    (hmember : ∀ a, ReadsArmed (fun t => starts t.kind = true) (member a))
    (hours : (ours.items.map fun n => n.value.kind) = [.punctuation closing, .punctuation .semicolon])
    (hcut : ∀ a, LeavesOpen shift ours theirs due closing [] (rest a) (rest (moved shift a))) (ts : List Token)
    (hlast : ∀ kind, (ts.map Token.kind).getLast? = some kind → kind = Punctuation.semicolon) (a : σ) :
    LeavesOpen shift ours theirs due closing ts (rest a) (rest (moved shift a)) := by
  induction hn : ts.length using Nat.strong_induction_on generalizing ts a with
  | _ n ih =>
    subst hn
    intro c c' hparting hdues hclean hend
    cases ts with
    | nil => exact hcut a c c' hparting hdues hclean hend
    | cons t ts =>
      have hkinds := hparting.kinds
      rw [hours] at hkinds
      by_cases hstarts : starts c.here.kind = true
      · obtain ⟨w, us, hrest, hleft⟩ := h.exists_semicolon (hmember a) hlast hkinds hstarts hdues hclean hend
        obtain ⟨hquiet, -, heq⟩ := h.of_clean hstarts hdues hclean
        obtain ⟨ts', d, d', hparting', rfl, hd, rfl, heq'⟩ := h.exists_step hfollows hadd hparting hdues hstarts hquiet
          (hleft.trans (by rw [hours]))
        have hlength : ts'.length < (t :: ts).length := by
          have hsum := congrArg List.length hrest
          simp only [List.length_append, List.length_cons, List.length_map] at hsum ⊢
          omega
        rw [heq] at hclean hend ⊢
        rw [heq']
        refine ih _ hlength ts' (fun kind hkind => hlast kind ?_) _ rfl _ d' hparting' hd hclean hend
        rw [hrest, List.getLast?_append, List.getLast?_cons, hkind]
        rfl
      · exfalso
        by_cases hclosing : c.here.kind = .punctuation closing
        · rw [h.close a c hclosing, hkinds] at hend
          simpa using congrArg List.length hend
        · exact h.stop a c (eq_false_of_ne_true hstarts) hclosing hclean

end ReadsList

end Lists

end GoSyntax
