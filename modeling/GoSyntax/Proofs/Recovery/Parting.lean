import GoSyntax.Proofs.Context.Ahead

/-!
# Two runs part

Two runs have the same tokens before them, at other locations, up to a point where each goes on with its own. As long as the first run has
reported nothing and has not come to this point, neither can tell, because the last of the tokens is none behind which a parser looks
further ahead. So what the first run gives the second one gives too.
-/

namespace GoSyntax

open Parse

namespace Cursor

/-- The first of the kinds left is that of the next token. -/
theorem here_kind_of_cons {c : Cursor} {kind : TokenKind} {kinds : List TokenKind} (h : c.kinds = kind :: kinds) : c.here.kind = kind := by
  rcases c.kinds_cases with ⟨-, hnil⟩ | ⟨_, -, hcons⟩
  · rw [hnil] at h
    nomatch h
  · rw [hcons] at h
    exact (List.cons.inj h).1

/-- Where no token is left the end of the input comes next. -/
theorem here_kind_of_nil {c : Cursor} (h : c.kinds = []) : c.here.kind = .eof := by
  rcases c.kinds_cases with ⟨heof, -⟩ | ⟨_, -, hcons⟩
  · exact heof
  · rw [hcons] at h
    nomatch h

/-- Both cursors have these tokens before them, moved for the second one. Behind them the first one has `ours`, and it has nothing to
report; the second one has `theirs`, and of it it is known what has been reported and is still due, all in all. -/
structure Parting (shift : Location → Location) (ours theirs : Feed Token) (due : List Diagnostic) (ts : List Token) (c c' : Cursor) :
    Prop where
  clean : c.log = #[]
  feed : ∃ ns, c.feed = ours.behind ns ∧ ns.map Noted.value = ts
  feed' : ∃ ns, c'.feed = theirs.behind ns ∧ ns.map Noted.value = moved shift ts
  due : c'.dues = due
  last : ∀ t, ts.getLast? = some t → t.kind.announces = false

namespace Parting

variable {shift : Location → Location} {ours theirs : Feed Token} {due : List Diagnostic} {t : Token} {ts : List Token} {c c' : Cursor}

theorem tokens (h : Parting shift ours theirs due ts c c') : c.tokens = ts ++ ours.items.map Noted.value := by
  obtain ⟨ns, hfeed, rfl⟩ := h.feed
  rw [Cursor.tokens, hfeed]
  exact List.map_append

theorem tokens' (h : Parting shift ours theirs due ts c c') : c'.tokens = moved shift ts ++ theirs.items.map Noted.value := by
  obtain ⟨ns, hfeed, hns⟩ := h.feed'
  rw [Cursor.tokens, hfeed, ← hns]
  exact List.map_append

theorem kinds (h : Parting shift ours theirs due ts c c') : c.kinds = ts.map Token.kind ++ ours.items.map fun n => n.value.kind := by
  rw [Cursor.kinds, h.tokens, List.map_append, List.map_map]
  rfl

theorem length_kinds (h : Parting shift ours theirs due ts c c') : c.kinds.length = ts.length + ours.items.length := by
  rw [h.kinds, List.length_append, List.length_map, List.length_map]

theorem here_eq (h : Parting shift ours theirs due (t :: ts) c c') : c.here = t := here_of_tokens (by rw [h.tokens]; rfl)

theorem here_eq' (h : Parting shift ours theirs due (t :: ts) c c') : c'.here = moved shift t := here_of_tokens (by rw [h.tokens']; rfl)

/-- A parser looks no farther than to the last of the tokens that both have. -/
theorem lt_of_mayLook (h : Parting shift ours theirs due ts c c') (hne : ts ≠ []) {k : Nat} (hk : c.MayLook k) : k < ts.length := by
  obtain ⟨t, ts, rfl⟩ := List.exists_cons_of_ne_nil hne
  rcases hk with rfl | ⟨rfl, hannounces⟩
  · exact Nat.succ_pos _
  · rw [h.here_eq] at hannounces
    cases ts with
    | nil =>
      rw [h.last t rfl] at hannounces
      cases hannounces
    | cons u us => exact Nat.succ_lt_succ (Nat.succ_pos _)

/-- A look at the items in front leaves those behind them as they are. -/
theorem exists_look {f behind : Feed Token} {us : List Token} (hf : ∃ ns, f = behind.behind ns ∧ ns.map Noted.value = us) {k : Nat}
    (hk : k < us.length) : ∃ ns, (f.look (k + 1)).2 = behind.behind ns ∧ ns.map Noted.value = us := by
  obtain ⟨ns, rfl, rfl⟩ := hf
  rw [List.length_map] at hk
  exact behind.look_behind hk

theorem peek (h : Parting shift ours theirs due ts c c') {k : Nat} (hk : k < ts.length) (hlog : (Parse.peek k c).2.log = #[]) :
    c'.feed.peek k = moved shift (c.feed.peek k)
      ∧ Parting shift ours theirs due ts (Parse.peek k c).2 (Parse.peek k c').2 := by
  refine ⟨?_, hlog, exists_look h.feed hk, exists_look h.feed' (by rwa [length_moved]), (dues_peek k c').trans h.due, h.last⟩
  have htoken : c.tokens[k]? = some ts[k] := by rw [h.tokens, List.getElem?_append_left hk, List.getElem?_eq_getElem hk]
  have htoken' : c'.tokens[k]? = some (moved shift ts[k]) := by
    rw [h.tokens', List.getElem?_append_left (by rwa [length_moved]), getElem?_moved, List.getElem?_eq_getElem hk]
    rfl
  rw [peek_eq_of_tokens htoken, peek_eq_of_tokens htoken']

theorem consume (h : Parting shift ours theirs due (t :: ts) c c') (hlog : (Parse.consume c).2.log = #[]) :
    Parting shift ours theirs due ts (Parse.consume c).2 (Parse.consume c').2 := by
  have htail : ∀ {f behind : Feed Token} {u : Token} {us : List Token}, (∃ ns, f = behind.behind ns ∧ ns.map Noted.value = u :: us) →
      ∃ ns, (f.look 1).2.tail = behind.behind ns ∧ ns.map Noted.value = us := by
    rintro f behind u us ⟨ns, rfl, hns⟩
    obtain ⟨n, ns, rfl, -, rfl⟩ := List.map_eq_cons_iff.1 hns
    exact ⟨ns, rfl, rfl⟩
  refine ⟨hlog, htail h.feed, htail h.feed', (dues_consume (by rw [h.tokens']; rfl)).trans h.due, fun u hu => h.last u ?_⟩
  rw [List.getLast?_cons, hu]
  rfl

theorem current (h : Parting shift ours theirs due (t :: ts) c c') (hlog : (Parse.current c).2.log = #[]) :
    Parting shift ours theirs due (t :: ts) (Parse.current c).2 (Parse.current c').2 := (h.peek (Nat.succ_pos _) hlog).2

/-- The second run is at most so many tokens shorter as the first one has behind the parting. -/
theorem room (h : Parting shift ours theirs due ts c c') : c.feed.items.length ≤ c'.feed.items.length + ours.items.length := by
  have hlength := congrArg List.length h.tokens
  have hlength' := congrArg List.length h.tokens'
  rw [Cursor.tokens, List.length_map, List.length_append, List.length_map] at hlength hlength'
  rw [length_moved] at hlength'
  omega

end Parting

end Cursor

open Cursor

/-- Two runs over the same tokens, until the first one comes to the last of them or reports something. -/
def Pursuit.parting (shift : Location → Location) (ours theirs : Feed Token) (due : List Diagnostic) : Pursuit where
  shift := shift
  spare := ours.items.length
  escaped c := c.kinds.length ≤ ours.items.length ∨ c.log ≠ #[]
  holds c c' := ∃ ts, Parting shift ours theirs due ts c c' ∧ ts ≠ []
  counts n n' := n = 0 ∨ due.length < n'
  peek := by
    rintro c c' k ⟨ts, h, hne⟩ hk
    by_cases hlog : (Parse.peek k c).2.log = #[]
    · obtain ⟨heq, hpeek⟩ := h.peek (h.lt_of_mayLook hne hk) hlog
      exact .inr ⟨heq, ts, hpeek, hne⟩
    · exact .inl (.inr hlog)
  consume := by
    rintro c c' ⟨ts, h, hne⟩
    obtain ⟨t, ts, rfl⟩ := List.exists_cons_of_ne_nil hne
    by_cases hlog : (Parse.consume c).2.log = #[]
    · have hconsume := h.consume hlog
      by_cases hrest : ts = []
      · subst hrest
        exact .inl (.inl (by rw [hconsume.length_kinds]; exact (Nat.zero_add _).le))
      · exact .inr ⟨by rw [h.here_eq, h.here_eq']; rfl, ts, hconsume, hrest⟩
    · exact .inl (.inr hlog)
  report _ _ _ := .inl (.inr Array.push_ne_empty)
  reports := by
    rintro c c' ⟨ts, h, -⟩
    exact .inl (congrArg Array.size h.clean)
  countable _ _ := ⟨due.length + 1, .inr (Nat.lt_succ_self _)⟩
  missing := by
    rintro c c' n n' ⟨ts, h, hne⟩ hcounts kind
    rcases reportMissing_of_dues h.clean h.due hcounts kind with hlog | ⟨hleft, hright⟩
    · exact .inl (.inr hlog)
    · rw [hleft, hright]
      exact .inr ⟨ts, h, hne⟩
  room := by
    rintro c c' ⟨ts, h, -⟩
    exact h.room
  spared := .inr .inl
  peek_escaped hc k := hc.imp (fun hle => by rwa [kinds_peek]) fun hne hlog => hne (log_eq_empty_of_log (log_peek k _) hlog)
  consume_escaped {c} hc := hc.imp (fun hle => by rw [kinds_consume, List.length_tail]; exact (Nat.sub_le _ _).trans hle)
    fun hne hlog => hne (log_eq_empty_of_log (log_consume c) hlog)
  report_escaped _ _ _ := .inr Array.push_ne_empty

/-- What the grammar gives over some tokens it gives as well where other tokens stand behind them. -/
theorem pursued_parting (shift : Location → Location) (ours theirs : Feed Token) (due : List Diagnostic) :
    Productions.full.Pursued (.parting shift ours theirs due) .full := pursued_of_reports fun _ => .inr

end GoSyntax
