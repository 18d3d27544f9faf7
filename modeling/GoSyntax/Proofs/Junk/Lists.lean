import GoSyntax.Proofs.Junk.Steps

/-!
# Lists with junk in them

The members of a list are read one in each pass of a loop, and behind each of them the list asks for what ends it. Where the next token ends
the list, or where the list is not one that the junk stands in, the passes do the same in both runs. In front of the member that the junk
stands in front of, the second run reads the junk in a pass of its own: it reports the first token of the junk and skips the others.
-/

namespace GoSyntax

open Parse Cursor

/-! ## Lists of the grammar -/

/-- How a list is read, whatever its members are: which tokens end it and which start a member, how a member is added to those before it,
what is done at the end of the list, and what is asked for behind a member. -/
structure ListForm (α σ : Type) where
  ends : TokenKind → Bool
  starts : TokenKind → Bool
  finish : σ → σ
  add : σ → α → σ
  ended : Parse Bool
  locOf : α → Location

section Forms

variable {α σ : Type}

/-- A member and whether the list goes on behind it as it should. -/
def reads (item : Parse α) (ended : Parse Bool) : Parse (α × Bool) := do
  let a ← item
  return (a, ← ended)

/-- The pass reads a list of this form. What does not start or end as it should is never part of a clean run. -/
structure ListForm.Reads (F : ListForm α σ) (item : σ → Parse α) (pass : σ → Parse (ForInStep σ)) : Prop where
  done : ∀ a c, F.ends c.here.kind = true → pass a c = (.done (F.finish a), (Parse.current c).2)
  next : ∀ a c, F.ends c.here.kind = false → F.starts c.here.kind = true → (reads (item a) F.ended (Parse.current c).2).1.2 = true →
    pass a c = (.yield (F.add a (reads (item a) F.ended (Parse.current c).2).1.1), (reads (item a) F.ended (Parse.current c).2).2)
  clean : ∀ a c, (∀ d, F.starts d.here.kind = true → (item a d).2.log = #[] → d.log = #[]) → F.ends c.here.kind = false →
    (pass a c).2.log = #[] → F.starts c.here.kind = true ∧ (reads (item a) F.ended (Parse.current c).2).1.2 = true

/-- A pass that branches on the next token reads a list, if what it does elsewhere is never clean. -/
theorem ListForm.Reads.of_apply {F : ListForm α σ} {item : σ → Parse α} {pass : σ → Parse (ForInStep σ)} (hended : Quiet F.ended)
    (h : ∀ a c, ∃ (resume : α → Parse (ForInStep σ)) (other : Parse (ForInStep σ)),
      pass a c = (if F.ends c.here.kind = true then return .done (F.finish a)
        else if F.starts c.here.kind = true then item a >>= fun b => F.ended >>= fun e =>
        if e = true then return .yield (F.add a b) else resume b
        else other) (Parse.current c).2
      ∧ (∀ b d, (d.log = #[] → (Parse.current c).2.log = #[]) → (resume b d).2.log ≠ #[])
      ∧ (F.starts c.here.kind = false → (other (Parse.current c).2).2.log ≠ #[])) :
    F.Reads item pass := by
  refine ⟨fun a c hends => ?_, fun a c hends hstarts hgoesOn => ?_, fun a c hitem hends hclean => ?_⟩
  · obtain ⟨resume, other, hpass, -, -⟩ := h a c
    rw [hpass, if_pos hends]
    rfl
  · obtain ⟨resume, other, hpass, -, -⟩ := h a c
    rw [hpass, if_neg (by rw [hends]; exact Bool.false_ne_true), if_pos hstarts]
    change (F.ended (item a (Parse.current c).2).2).1 = true at hgoesOn
    simp only [bind_apply]
    rw [if_pos hgoesOn]
    rfl
  · obtain ⟨resume, other, hpass, hresume, hother⟩ := h a c
    rw [hpass, if_neg (by rw [hends]; exact Bool.false_ne_true)] at hclean
    by_cases hstarts : F.starts c.here.kind = true
    · refine ⟨hstarts, ?_⟩
      rw [if_pos hstarts] at hclean
      simp only [bind_apply] at hclean
      by_contra hstays
      change ¬(F.ended (item a (Parse.current c).2).2).1 = true at hstays
      rw [if_neg hstays] at hclean
      refine hresume _ _ (fun hlog => ?_) hclean
      exact hitem _ (by rwa [here_current]) (hended _ hlog)
    · rw [if_neg hstarts] at hclean
      exact absurd hclean (hother (eq_false_of_ne_true hstarts))

end Forms

/-! ## What ends a member -/

/-- What ends a member: a token that ends the list, or a `;`. -/
def atOrSemicolon (test : TokenKind → Bool) : Parse Bool := (do return test (← Parse.current).kind) <||> Parse.accept Punctuation.semicolon

theorem atOrSemicolon_apply (test : TokenKind → Bool) (c : Cursor) : atOrSemicolon test c
    = if test c.here.kind = true then (true, (Parse.current c).2) else Parse.accept Punctuation.semicolon c := by
  have hasked : (do return test (← Parse.current).kind : Parse Bool) c = (test c.here.kind, (Parse.current c).2) := rfl
  have haccept : Parse.accept Punctuation.semicolon (Parse.current c).2 = Parse.accept Punctuation.semicolon c := by
    rw [accept_apply, accept_apply, here_current, consume_current, current_current]
  rw [atOrSemicolon, orM_apply, hasked, haccept]

theorem atOrSemicolon_quiet (test : TokenKind → Bool) : Quiet (atOrSemicolon test) := by
  intro c hclean
  rw [atOrSemicolon_apply, accept_apply] at hclean
  split at hclean
  · exact log_eq_empty_of_log (log_peek 0 c) hclean
  · split at hclean
    · exact log_eq_empty_of_log (log_consume c) hclean
    · exact log_eq_empty_of_log (log_peek 0 c) hclean

variable {S : Site}

/-- What is asked for behind a member leads to a place as `Leads` says. -/
structure Site.LeadsTo (S : Site) (Leads : Cursor → Prop) (ended : Parse Bool) : Prop where
  quiet : Quiet ended
  repeats : ∀ c, S.Repeats edited ended (fun _ => ended) c
  behind : ∀ j c, S.Behind j c → S.Behind j (ended c).2 ∧ ((ended c).1 = true → Leads (ended c).2)
  before : ∀ X c c', X ≠ [] → S.Before X c c' → (ended c').1 = (ended c).1 ∧ ∃ Y, S.Before Y (ended c).2 (ended c').2

theorem Site.leadsTo_atOrSemicolon (test : TokenKind → Bool) :
    S.LeadsTo (fun d => S.Behind true d ∨ test d.here.kind = true) (atOrSemicolon test) := by
  refine ⟨atOrSemicolon_quiet test, fun c => ?_, fun j c hc => ?_, fun X c c' hX hc => ?_⟩
  · refine fun E _ => ⟨rfl, fun c' hc' => ?_⟩
    simp only [atOrSemicolon_apply, accept_apply, here_of_quieter hc']
    split
    · exact ⟨rfl, hc'.peek 0, reports_current hc'.lexical'⟩
    · split
      · exact ⟨rfl, hc'.consume, reports_consume hc'.lexical'⟩
      · exact ⟨rfl, hc'.peek 0, reports_current hc'.lexical'⟩
  · have hat : (Parse.current c).2 = c := Onward.peek hc.1 0
    rw [atOrSemicolon_apply, accept_apply, hat]
    split
    · next htest => exact ⟨hc, fun _ => .inr htest⟩
    · split
      · refine ⟨?_, fun _ => .inl hc.consume⟩
        cases j with
        | true => exact hc.consume
        | false => exact hc.consume.weaken
      · exact ⟨hc, fun hfalse => absurd hfalse Bool.false_ne_true⟩
  · obtain ⟨t, Y, rfl⟩ := List.exists_cons_of_ne_nil hX
    have hsame : c'.here = c.here := hc.here_eq.2.trans hc.here_eq.1.symm
    simp only [atOrSemicolon_apply, accept_apply, hsame]
    split
    · exact ⟨rfl, _, hc.peek 0⟩
    · split
      · exact ⟨rfl, _, hc.consume⟩
      · exact ⟨rfl, _, hc.peek 0⟩

/-- Nothing is asked for. -/
theorem Site.leadsTo_pure : S.LeadsTo (fun _ => True) (Pure.pure true) :=
  ⟨fun _ hclean => hclean, fun _ _ _ => ⟨rfl, fun _ hc' => ⟨rfl, hc', .refl hc'.lexical'⟩⟩, fun _ _ hc => ⟨hc, fun _ => trivial⟩,
    fun X _ _ _ hc => ⟨rfl, X, hc⟩⟩

theorem Site.LeadsTo.grafted {Leads : Cursor → Prop} {ended : Parse Bool} (h : S.LeadsTo Leads ended) :
    Grafted S ended (fun _ => ended) := by
  refine ⟨fun c _ => h.quiet c, fun j c _ hc _ => ⟨(h.behind j c hc).1, h.repeats c⟩, fun X c c' hX _ hc _ => ?_⟩
  obtain ⟨hvalue, Y, hbefore⟩ := h.before X c c' hX hc
  exact .ahead Y (h.repeats c) hvalue hbefore

/-! ## Cursors around the member -/

namespace Cursor

variable {c c' : Cursor}

theorem length_values (c : Cursor) : c.feed.values.length = c.kinds.length + 1 := by simp [Feed.values, kinds, tokens]

/-- Where nothing is left to report any cursor in front of the same tokens is noisier. -/
theorem quieter_of_values (hc : c.feed.pending = []) (h : c.feed.values = c'.feed.values) (hlexical : Lexical c'.feed.pending) :
    c.Quieter c' := by
  have hnotes : ∀ n ∈ c.feed.items, n.notes = [] := List.flatMap_eq_nil_iff.1 (List.append_eq_nil_iff.1 hc).1
  obtain ⟨hitems, hlast⟩ := List.append_inj' h rfl
  have hquieter : ∀ ns ns' : List (Noted Token), (∀ n ∈ ns, n.notes = []) → ns.map Noted.value = ns'.map Noted.value →
      List.Forall₂ Noted.Quieter ns ns' := by
    intro ns
    induction ns with
    | nil =>
      intro ns' _ hvalues
      rw [List.map_eq_nil_iff.1 hvalues.symm]
      exact .nil
    | cons n ns ih =>
      intro ns' hsilent hvalues
      obtain ⟨n', ns'', rfl, hn, hns⟩ := List.map_eq_cons_iff.1 hvalues.symm
      obtain ⟨hsilent', hsilentAll⟩ := List.forall_mem_cons.1 hsilent
      exact .cons ⟨hn.symm, fun _ => hsilent'⟩ (ih ns'' hsilentAll hns.symm)
  refine ⟨⟨hquieter _ _ hnotes hitems, ⟨(List.cons.inj hlast).1, fun _ => (List.append_eq_nil_iff.1 hc).2⟩⟩, ?_, hlexical⟩
  rw [hc]
  exact .nil

end Cursor

namespace Site

variable {c c' : Cursor} {X : List Token}

theorem Behind.here_ne (h : S.Behind true c) : c.here.loc ≠ S.next.loc := by
  obtain ⟨ts, hts⟩ := exists_values c
  have hsuffix := h.2
  rw [if_pos rfl, hts] at hsuffix
  exact S.fresh _ (List.mem_append_right _ (hsuffix.subset List.mem_cons_self))

theorem Before.here_ne (h : S.Before X c c') (hX : X ≠ []) : c.here.loc ≠ S.next.loc := by
  obtain ⟨t, Y, rfl⟩ := List.exists_cons_of_ne_nil hX
  rw [h.here_eq.1]
  exact S.fresh _ (List.mem_append_left _ (h.front.subset List.mem_cons_self))

/-- Who has fewer tokens left than there are from the member on has taken the first token of the member. -/
theorem Behind.inside_of_length (h : S.Behind false c) (hlength : c.kinds.length < S.behind.length) : S.Behind true c := by
  refine ⟨h.1, ?_⟩
  rw [if_pos rfl]
  rcases List.suffix_cons_iff.1 h.2 with heq | hsuffix
  · have hlen := congrArg List.length heq
    rw [length_values, List.length_cons] at hlen
    omega
  · exact hsuffix

end Site

/-! ## The passes of a list -/

section Lists

variable {α σ : Type} [Editable α] {F : ListForm α σ} {u : Editing → σ → σ} {exempt : σ → Prop} {item item' : σ → Parse α}
  {pass pass' : σ → Parse (ForInStep σ)} {Leads : Cursor → Prop} {a : σ} {c c' : Cursor}

/-- No member of the list can be read here that the junk stands in front of: the member has been come to before, or the list ends, or none
of its members counts any more. -/
def Site.Safe (S : Site) (F : ListForm α σ) (exempt : σ → Prop) (a : σ) (c : Cursor) : Prop :=
  S.Behind true c ∨ F.ends c.here.kind = true ∨ exempt a

/-- What has to be known of a list and of its members in two runs: its members are repeated by the second run, and `u` says how the list is
edited. In front of the member a pass of the second run reads the junk. -/
structure ListLaws (S : Site) (F : ListForm α σ) (u : Editing → σ → σ) (exempt : σ → Prop) (item item' : σ → Parse α)
    (pass pass' : σ → Parse (ForInStep σ)) (Leads : Cursor → Prop) : Prop where
  ends : Ends pass'
  strides : FollowsAt.Strides .untilReport pass
  first : F.Reads item pass
  second : F.Reads item' pass'
  member : ∀ a, Grafts S (fun t => F.starts t.kind = true) edited (item a) (fun E => item' (u E a))
  ended : S.LeadsTo Leads F.ended
  leads : ∀ a m d, Leads d → S.Safe F exempt (F.add a m) d
  loc : ∀ a c, F.starts c.here.kind = true → (item a c).2.log = #[] → F.locOf (item a c).1 = c.here.loc
  finish : ∀ E, S.Edits E → ∀ a, u E (F.finish a) = F.finish (u E a)
  plain : ∀ E, S.Edits E → ∀ a m, exempt a ∨ F.locOf m ≠ S.next.loc → u E (F.add a m) = F.add (u E a) (edited E m)
  crosses : ∀ a c', ¬exempt a → F.ends S.next.kind = false → F.starts S.next.kind = true → c'.feed.values = S.junk ++ S.next :: S.behind →
    S.origin.Reports [] c' → ∃ b, (pass' (u S.change a) c').1 = .yield b ∧ (pass' (u S.change a) c').2.feed.values = S.next :: S.behind
      ∧ S.origin.Reports [S.reported] (pass' (u S.change a) c').2 ∧ item' b = item' (u S.change a)
      ∧ ∀ m, F.locOf m = S.next.loc → F.add b (edited S.change m) = u S.change (F.add a m)

namespace ListLaws

theorem reads_grafts (h : ListLaws S F u exempt item item' pass pass' Leads) (a : σ) : Grafts S (fun t => F.starts t.kind = true) edited
    (reads (item a) F.ended) (fun E => reads (item' (u E a)) F.ended) :=
  (h.member a).bind fun _ => h.ended.grafted.bind fun _ => .pure fun _ => rfl

theorem quiet_item (h : ListLaws S F u exempt item item' pass pass' Leads) (a : σ) (d : Cursor) (hstarts : F.starts d.here.kind = true)
    (hclean : (item a d).2.log = #[]) : d.log = #[] := (h.member a).quiet d hstarts hclean

/-- A clean pass reads a member, if the list does not end. -/
theorem pass_eq (h : ListLaws S F u exempt item item' pass pass' Leads) (hends : F.ends c.here.kind = false)
    (hclean : (pass a c).2.log = #[]) :
    F.starts (Parse.current c).2.here.kind = true ∧ (reads (item a) F.ended (Parse.current c).2).1.2 = true
      ∧ (reads (item a) F.ended (Parse.current c).2).2.log = #[]
      ∧ pass a c = (.yield (F.add a (reads (item a) F.ended (Parse.current c).2).1.1), (reads (item a) F.ended (Parse.current c).2).2) := by
  obtain ⟨hstarts, hgoesOn⟩ := h.first.clean a c (h.quiet_item a) hends hclean
  have hpass := h.first.next a c hends hstarts hgoesOn
  rw [hpass] at hclean
  exact ⟨by rwa [here_current], hgoesOn, hclean, hpass⟩

theorem quiet (h : ListLaws S F u exempt item item' pass pass' Leads) (a : σ) (c : Cursor) (hclean : (pass a c).2.log = #[]) :
    c.log = #[] := by
  refine log_eq_empty_of_log (log_peek 0 c) ?_
  cases hends : F.ends c.here.kind with
  | true =>
    rw [h.first.done a c hends] at hclean
    exact hclean
  | false =>
    obtain ⟨hstarts, -, hread, -⟩ := h.pass_eq hends hclean
    exact (h.reads_grafts a).quiet _ hstarts hread

/-- The member that a clean pass reads starts with the next token. -/
theorem loc_eq (h : ListLaws S F u exempt item item' pass pass' Leads) (hends : F.ends c.here.kind = false)
    (hclean : (pass a c).2.log = #[]) :
    F.locOf (reads (item a) F.ended (Parse.current c).2).1.1 = c.here.loc := by
  obtain ⟨hstarts, -, hread, -⟩ := h.pass_eq hends hclean
  have hloc := h.loc a _ hstarts (h.ended.quiet _ hread)
  rw [here_current] at hloc
  exact hloc

/-- The second run reads what the first one reads, if it reads the same member. -/
theorem second_eq (h : ListLaws S F u exempt item item' pass pass' Leads) (hends : F.ends c.here.kind = false)
    (hclean : (pass a c).2.log = #[])
    (hhere : c'.here = c.here) {b : σ} {E : Editing} (hread : (reads (item' b) F.ended (Parse.current c').2).1
      = edited E (reads (item a) F.ended (Parse.current c).2).1)
    (hadd : F.add b (edited E (reads (item a) F.ended (Parse.current c).2).1.1)
      = u E (F.add a (reads (item a) F.ended (Parse.current c).2).1.1)) :
    pass' b c' = (stepMap (u E) (pass a c).1, (reads (item' b) F.ended (Parse.current c').2).2) := by
  obtain ⟨hstarts, hgoesOn, -, hpass⟩ := h.pass_eq hends hclean
  rw [here_current] at hstarts
  have hgoesOn' : (reads (item' b) F.ended (Parse.current c').2).1.2 = true := by
    rw [hread]
    exact hgoesOn
  have hpass' := h.second.next b c' (by rwa [hhere]) (by rwa [hhere]) hgoesOn'
  rw [hpass', hread, hpass]
  exact Prod.ext (congrArg ForInStep.yield hadd) rfl

/-- At the end of a list both runs end it. -/
theorem repeats_done (h : ListLaws S F u exempt item item' pass pass' Leads) (hends : F.ends c.here.kind = true) :
    S.Repeats (fun E => stepMap (u E)) (pass a) (fun E => pass' (u E a)) c := by
  intro E hE
  dsimp only
  rw [h.first.done a c hends, h.second.done _ c hends]
  refine ⟨by rw [← h.finish E hE a]; rfl, fun c' hc' => ?_⟩
  rw [h.second.done _ c' (by rw [here_of_quieter hc']; exact hends)]
  exact ⟨by rw [← h.finish E hE a]; rfl, hc'.peek 0, reports_current hc'.lexical'⟩

/-- A member that is not marked is added to the list in both runs. -/
theorem plain_eq (h : ListLaws S F u exempt item item' pass pass' Leads) (hends : F.ends c.here.kind = false)
    (hclean : (pass a c).2.log = #[])
    (hplain : exempt a ∨ c.here.loc ≠ S.next.loc) {E : Editing} (hE : S.Edits E) :
    F.add (u E a) (edited E (reads (item a) F.ended (Parse.current c).2).1.1)
    = u E (F.add a (reads (item a) F.ended (Parse.current c).2).1.1) := by
  refine (h.plain E hE a _ (hplain.imp_right fun hne => ?_)).symm
  rwa [h.loc_eq hends hclean]

/-- Where the member is not marked, the second run reads what the first one reads. -/
theorem repeats_next (h : ListLaws S F u exempt item item' pass pass' Leads) (hends : F.ends c.here.kind = false)
    (hclean : (pass a c).2.log = #[])
    (hplain : exempt a ∨ c.here.loc ≠ S.next.loc)
    (hreads : S.Repeats edited (reads (item a) F.ended) (fun E => reads (item' (u E a)) F.ended) (Parse.current c).2) :
    S.Repeats (fun E => stepMap (u E)) (pass a) (fun E => pass' (u E a)) c := by
  obtain ⟨-, -, -, hpass⟩ := h.pass_eq hends hclean
  intro E hE
  obtain ⟨heq, hecho⟩ := hreads E hE
  have hadd := h.plain_eq hends hclean hplain hE
  dsimp only at heq hecho ⊢
  refine ⟨?_, fun c' hc' => ?_⟩
  · rw [h.second_eq hends hclean rfl (congrArg Prod.fst heq) hadd, heq, hpass]
  · have hlooked : (Parse.current c).2.Quieter (Parse.current c').2 := hc'.peek 0
    obtain ⟨hvalue, hquieter, hreports⟩ := hecho _ hlooked
    rw [h.second_eq hends hclean (here_of_quieter hc') hvalue hadd, hpass]
    exact ⟨rfl, hquieter, (reports_current hc'.lexical').trans hreports⟩

/-- A member is repeated from where no member is marked any more. -/
theorem behind (h : ListLaws S F u exempt item item' pass pass' Leads) (j : Bool) (a : σ) (c : Cursor) (hc : S.Behind j c)
    (hsafe : S.Safe F exempt a c) (hclean : (pass a c).2.log = #[]) : S.Behind j (pass a c).2
      ∧ S.Repeats (fun E => stepMap (u E)) (pass a) (fun E => pass' (u E a)) c ∧ ∀ a', (pass a c).1 = .yield a' →
      S.Safe F exempt a' (pass a c).2 := by
  have hat : (Parse.current c).2 = c := Onward.peek hc.1 0
  cases hends : F.ends c.here.kind with
  | true =>
    refine ⟨?_, h.repeats_done hends, fun a' hyield => ?_⟩
    · rw [h.first.done a c hends, hat]
      exact hc
    · rw [h.first.done a c hends] at hyield
      cases hyield
  | false =>
    obtain ⟨hstarts, hgoesOn, hread, hpass⟩ := h.pass_eq hends hclean
    have hplain : exempt a ∨ c.here.loc ≠ S.next.loc := by
      rcases hsafe with hinside | hend | hexempt
      · exact .inr hinside.here_ne
      · rw [hends] at hend
        exact absurd hend Bool.false_ne_true
      · exact .inl hexempt
    obtain ⟨hbehind, hrepeats⟩ := (h.reads_grafts a).behind j _ hstarts (hat.symm ▸ hc) hread
    refine ⟨by rw [hpass]; exact hbehind, h.repeats_next hends hclean hplain hrepeats, fun a' hyield => ?_⟩
    rw [hpass] at hyield ⊢
    obtain rfl := ForInStep.yield.inj hyield
    obtain ⟨hitem, -⟩ := (h.member a).behind j _ hstarts (hat.symm ▸ hc) (h.ended.quiet _ hread)
    exact h.leads _ _ _ ((h.ended.behind j _ hitem).2 hgoesOn)

/-- What ends a member leads on, wherever the member ends. -/
theorem outcome_reads (h : ListLaws S F u exempt item item' pass pass' Leads) (hstarts : F.starts c.here.kind = true)
    {X : List Token} (hX : X ≠ []) (hc : S.Before X c c') (hclean : (reads (item a) F.ended c).2.log = #[]) :
    S.Outcome (fun r d => S.Behind false d ∧ (r.2 = true → Leads d)) edited (reads (item a) F.ended)
    (fun E => reads (item' (u E a)) F.ended)
      c c' := by
  have hpair : ∀ (m : α) (b : Bool) (d : Cursor), S.Repeats edited (Pure.pure (m, b)) (fun E => Pure.pure (edited E m, b)) d :=
    fun _ _ _ _ _ =>
    ⟨rfl, fun _ hd' => ⟨rfl, hd', .refl hd'.lexical'⟩⟩
  have hrepeats : ∀ m d, S.Repeats edited (F.ended >>= fun b => Pure.pure (m, b))
    (fun E => F.ended >>= fun b => Pure.pure (edited E m, b)) d :=
    fun m d => (h.ended.repeats d).bind (hpair m _ _)
  refine ((h.member a).before X _ _ hX hstarts hc (h.ended.quiet _ hclean)).bind (fun j hj => ?_) fun Y d' hd => ?_
  · obtain ⟨hbehind, hleads⟩ := h.ended.behind j _ hj
    exact ⟨hbehind, hrepeats _ _, hbehind.weaken, hleads⟩
  · by_cases hnil : Y = []
    · subst hnil
      obtain ⟨hbehind, hleads⟩ := h.ended.behind false _ hd.behind
      exact .astray (hrepeats _ _) ⟨hbehind, hleads⟩
    · obtain ⟨hvalue, Z, hbefore⟩ := h.ended.before Y _ d' hnil hd
      exact .ahead Z (hrepeats _ _) (Prod.ext rfl hvalue) hbefore

/-- A member is read in front of the junk, or the junk is in one of its own lists. -/
theorem before (h : ListLaws S F u exempt item item' pass pass' Leads) (X : List Token) (a : σ) (c c' : Cursor) (hX : X ≠ [])
    (hc : S.Before X c c') (hclean : (pass a c).2.log = #[]) : S.Outcome
      (fun r d => S.Behind false d ∧ ∀ a', r = .yield a' → S.Safe F exempt a' d) (fun E => stepMap (u E)) (pass a)
      (fun E => pass' (u E a)) c c' := by
  have hhere : c'.here = c.here := hc.peek_eq (List.length_pos_iff.2 hX)
  cases hends : F.ends c.here.kind with
  | true =>
    have hdone := h.first.done a c hends
    have hdone' := h.second.done (u S.change a) c' (by rwa [hhere])
    refine .ahead X (h.repeats_done hends) ?_ ?_
    · rw [hdone, hdone', ← h.finish _ Site.edits_change]
      rfl
    · rw [hdone, hdone']
      exact hc.peek 0
  | false =>
    obtain ⟨hstarts, hgoesOn, hread, hpass⟩ := h.pass_eq hends hclean
    have hplain : exempt a ∨ c.here.loc ≠ S.next.loc := .inr (hc.here_ne hX)
    have hadd := h.plain_eq hends hclean hplain Site.edits_change
    cases h.outcome_reads hstarts hX (hc.peek 0) hread with
    | across hvalue hafter =>
      have hpass' := h.second_eq hends hclean hhere hvalue hadd
      refine .across ?_ ?_
      · rw [hpass']
      · rw [hpass', hpass]
        exact hafter
    | ahead Y hrepeats hvalue hahead =>
      have hpass' := h.second_eq hends hclean hhere hvalue hadd
      refine .ahead Y (h.repeats_next hends hclean hplain hrepeats) ?_ ?_
      · rw [hpass']
      · rw [hpass', hpass]
        exact hahead
    | astray hrepeats hknown =>
      refine .astray (h.repeats_next hends hclean hplain hrepeats) ?_
      rw [hpass]
      refine ⟨hknown.1, fun a' hyield => ?_⟩
      obtain rfl := ForInStep.yield.inj hyield
      exact h.leads _ _ _ (hknown.2 hgoesOn)

/-- In front of the member the second run reads the junk in one pass and the member in the next one. -/
theorem cut (h : ListLaws S F u exempt item item' pass pass' Leads) (a : σ) (c c' : Cursor) (hc : S.Before [] c c')
    (hclean : (pass a c).2.log = #[]) :
    S.Safe F exempt a c ∨ S.Crosses u pass pass' a c c' := by
  have hat : (Parse.current c).2 = c := Onward.peek hc.silent 0
  have hhere : c.here = S.next := here_of_values hc.values
  cases hends : F.ends c.here.kind with
  | true => exact .inl (.inr (.inl hends))
  | false =>
    by_cases hexempt : exempt a
    · exact .inl (.inr (.inr hexempt))
    · obtain ⟨hstarts, -, hread, hpass⟩ := h.pass_eq hends hclean
      have hkind := hends
      rw [here_current, hhere] at hstarts
      rw [hhere] at hkind
      obtain ⟨b, hyield, hvalues, hreports, hitem, hadd⟩ := h.crosses a c' hexempt hkind hstarts hc.values' hc.reports
      have hquieter : c.Quieter (pass' (u S.change a) c').2 := quieter_of_values hc.silent (hc.values.trans hvalues.symm) hreports.lexical
      obtain ⟨hbehind, hrepeats⟩ := (h.reads_grafts a).behind false _ (by rwa [here_current, hhere]) (hat.symm ▸ hc.behind) hread
      obtain ⟨hvalue, hquieter', hreports'⟩ := (hrepeats S.change Site.edits_change).2 _ (hquieter.peek 0)
      dsimp only at hvalue hquieter' hreports'
      rw [← hitem] at hvalue hquieter' hreports'
      have hloc := h.loc_eq hends hclean
      have hpass' := h.second_eq hends hclean (here_of_quieter hquieter) hvalue (hadd _ (by rw [hloc, hhere]))
      refine .inr ⟨?_, b, hyield, ?_, ?_, ?_⟩
      · have hbehind' : S.Behind false (pass a c).2 := by
          rw [hpass]
          exact hbehind
        refine hbehind'.inside_of_length ?_
        have hlen := congrArg List.length hc.values
        rw [length_values, List.nil_append, List.length_cons, Nat.succ_inj] at hlen
        rw [← hlen]
        exact h.strides a c _ (congrArg Prod.fst hpass) (not_not.2 hclean)
      · rw [hpass']
      · rw [hpass', hpass]
        exact hquieter'
      · rw [hpass']
        exact hreports.then_quiet ((reports_current hreports.lexical).then_quiet hreports')

theorem laws (h : ListLaws S F u exempt item item' pass pass' Leads) : LoopLaws S u pass pass' (S.Safe F exempt) :=
  ⟨h.ends, h.strides, h.quiet, fun _ _ hc => .inl hc, h.behind, h.before, h.cut⟩

end ListLaws

end Lists

end GoSyntax
