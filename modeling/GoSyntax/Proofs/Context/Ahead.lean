import GoSyntax.Proofs.Context.Depth
import GoSyntax.Proofs.Context.Feeds

/-!
# More tokens behind

One run ends where the other one goes on: the tokens of the first are those of the second up to a point, at other locations. As long as the
first run has reported nothing and has not come to its end, it cannot tell, because the last of its tokens is none behind which a parser
looks further ahead. So what it gives the other one gives too.
-/

namespace GoSyntax

open Parse

namespace Cursor

variable {c c' : Cursor} {t : Token} {ts : List Token}

/-- A token that is left is what a look ahead shows. -/
theorem peek_eq_of_tokens {k : Nat} (h : c.tokens[k]? = some t) : c.feed.peek k = t := by
  rw [tokens, List.getElem?_map, Option.map_eq_some_iff] at h
  obtain ⟨n, hn, rfl⟩ := h
  rw [Feed.peek, hn]

theorem here_of_tokens (h : c.tokens = t :: ts) : c.here = t := peek_eq_of_tokens (by rw [h]; rfl)

/-- What is in the log and what is still due. -/
def dues (c : Cursor) : List Diagnostic := c.log.toList ++ c.feed.pending

theorem dues_peek (k : Nat) (c : Cursor) : (Parse.peek k c).2.dues = c.dues := by
  rw [dues, log_peek, List.append_assoc]
  exact congrArg (c.log.toList ++ ·) (Feed.look_append_pending c.feed (k + 1))

/-- A token that is left can be taken without losing what is due. -/
theorem dues_consume (h : c.tokens = t :: ts) : (Parse.consume c).2.dues = c.dues := by
  have hitems : c.feed.items ≠ [] := fun hnil => by
    rw [tokens, hnil] at h
    cases h
  obtain ⟨⟨items, last⟩, log, hscanned⟩ := c
  obtain ⟨n, ns, rfl⟩ := List.exists_cons_of_ne_nil hitems
  rw [dues, log_consume, List.append_assoc]
  change log.toList ++ (n.notes ++ [] ++ _) = log.toList ++ (n.notes ++ ns.flatMap Noted.notes ++ last.notes)
  rw [List.append_nil, List.append_assoc]
  rfl

/-- What is missing is reported unless there were reports before. In the first run there were none; in the second one it is asked for a
number of reports that there have not been. -/
theorem reportMissing_of_dues {due : List Diagnostic} {n n' : Nat} (hclean : c.log = #[]) (hdue : c'.dues = due)
    (hcounts : n = 0 ∨ due.length < n') (kind : TokenKind) : (Grammar.reportMissing n kind c).2.log ≠ #[]
      ∨ (Grammar.reportMissing n kind c).2 = c ∧ (Grammar.reportMissing n' kind c').2 = c' := by
  have hsize : c.log.size = 0 := by rw [hclean]; rfl
  by_cases hzero : n = 0
  · subst hzero
    left
    have hreport : (Grammar.reportMissing 0 kind c).2 = (Parse.reportExpected kind.display c).2 := by
      change ((if c.log.size == 0 then Parse.reportExpected kind.display else Pure.pure ()) c).2 = _
      rw [hsize]
      rfl
    rw [hreport]
    exact Array.push_ne_empty
  · have hlt : c'.log.size < n' := by
      have hlength := congrArg List.length hdue
      rw [dues, List.length_append, Array.length_toList] at hlength
      have := hcounts.resolve_left hzero
      omega
    refine .inr ⟨?_, ?_⟩
    · change ((if c.log.size == n then Parse.reportExpected kind.display else Pure.pure ()) c).2 = _
      rw [hsize, if_neg (by simpa using Ne.symm hzero)]
      rfl
    · change ((if c'.log.size == n' then Parse.reportExpected kind.display else Pure.pure ()) c').2 = _
      rw [if_neg (by simpa using hlt.ne)]
      rfl

/-- The first cursor has the tokens of the second one up to those `behind`, which nobody has looked at, and has nothing to report. Of
the second cursor it is known what has been reported and is still due, all in all. -/
structure Ahead (shift : Location → Location) (behind : Feed Token) (due : List Diagnostic) (c c' : Cursor) : Prop where
  clean : c.log = #[]
  feed : ∃ ns, c'.feed = behind.behind ns ∧ ns.map Noted.value = moved shift c.tokens
  due : c'.dues = due
  last : ∀ kind, c.kinds.getLast? = some kind → kind.announces = false

namespace Ahead

variable {shift : Location → Location} {behind : Feed Token} {due : List Diagnostic}

theorem tokens (h : Ahead shift behind due c c') : c'.tokens = moved shift c.tokens ++ behind.items.map Noted.value := by
  obtain ⟨ns, hfeed, hns⟩ := h.feed
  rw [Cursor.tokens, hfeed, ← hns]
  exact List.map_append

theorem feed_eq (h : Ahead shift behind due c c') (hkinds : c.kinds = []) : c'.feed = behind := by
  obtain ⟨ns, hfeed, hns⟩ := h.feed
  rw [List.map_eq_nil_iff.1 hkinds] at hns
  rw [hfeed, List.map_eq_nil_iff.1 hns]
  rfl

theorem peek_eq (h : Ahead shift behind due c c') {k : Nat} (ht : c.tokens[k]? = some t) :
    c'.feed.peek k = moved shift (c.feed.peek k) := by
  rw [peek_eq_of_tokens ht]
  refine peek_eq_of_tokens ?_
  rw [h.tokens, List.getElem?_append_left (by rw [length_moved]; exact (List.getElem?_eq_some_iff.1 ht).1), getElem?_moved, ht]
  rfl

/-- A parser looks no farther than to the last token. -/
theorem exists_token (h : Ahead shift behind due c c') (hkinds : c.kinds ≠ []) {k : Nat} (hk : c.MayLook k) :
    ∃ t, c.tokens[k]? = some t := by
  have hlast := h.last
  obtain ⟨t, ts, hts⟩ : ∃ t ts, c.tokens = t :: ts := List.exists_cons_of_ne_nil fun hnil => hkinds (by rw [Cursor.kinds, hnil]; rfl)
  rw [Cursor.kinds, hts] at hlast
  rcases hk with rfl | ⟨rfl, hannounces⟩
  · exact ⟨t, by rw [hts]; rfl⟩
  · rw [here_of_tokens hts] at hannounces
    cases ts with
    | nil =>
      rw [hlast t.kind rfl] at hannounces
      cases hannounces
    | cons u us => exact ⟨u, by rw [hts]; rfl⟩

theorem peek (h : Ahead shift behind due c c') {k : Nat} (ht : c.tokens[k]? = some t) (hlog : (Parse.peek k c).2.log = #[]) :
    Ahead shift behind due (Parse.peek k c).2 (Parse.peek k c').2 where
  clean := hlog
  feed := by
    obtain ⟨ns, hfeed, hns⟩ := h.feed
    have hlength : k + 1 ≤ ns.length := by
      rw [← List.length_map, hns, length_moved]
      exact (List.getElem?_eq_some_iff.1 ht).1
    obtain ⟨ns', hlook, hns'⟩ := behind.look_behind hlength
    refine ⟨ns', ?_, by rw [hns', hns, tokens_peek]⟩
    change (c'.feed.look (k + 1)).2 = _
    rw [hfeed, hlook]
  due := (dues_peek k c').trans h.due
  last := by rw [kinds_peek]; exact h.last

theorem here_eq (h : Ahead shift behind due c c') (hkinds : c.kinds ≠ []) : c'.here = moved shift c.here := by
  obtain ⟨t, ht⟩ := h.exists_token hkinds (.inl rfl)
  exact h.peek_eq ht

theorem current (h : Ahead shift behind due c c') (hkinds : c.kinds ≠ []) (hlog : (Parse.current c).2.log = #[]) :
    Ahead shift behind due (Parse.current c).2 (Parse.current c').2 := by
  obtain ⟨t, ht⟩ := h.exists_token hkinds (.inl rfl)
  exact h.peek ht hlog

theorem consume (h : Ahead shift behind due c c') (hkinds : c.kinds ≠ []) (hlog : (Parse.consume c).2.log = #[]) :
    c'.here = moved shift c.here ∧ Ahead shift behind due (Parse.consume c).2 (Parse.consume c').2 := by
  obtain ⟨t, ts, hts⟩ : ∃ t ts, c.tokens = t :: ts := List.exists_cons_of_ne_nil fun hnil => hkinds (by rw [Cursor.kinds, hnil]; rfl)
  have hts' : c'.tokens = moved shift t :: (moved shift ts ++ behind.items.map Noted.value) := by rw [h.tokens, hts]; rfl
  refine ⟨by rw [here_of_tokens hts, here_of_tokens hts'], hlog, ?_, (dues_consume hts').trans h.due, ?_⟩
  · obtain ⟨ns, hfeed, hns⟩ := h.feed
    rw [hts] at hns
    obtain ⟨n, ns, rfl, -, hns⟩ := List.map_eq_cons_iff.1 hns
    refine ⟨ns, ?_, by rw [hns, tokens_consume, hts]; rfl⟩
    change (c'.feed.look 1).2.tail = _
    rw [hfeed]
    rfl
  · rw [kinds_consume]
    intro kind hkind
    refine h.last kind ?_
    obtain ⟨k, ks, hks⟩ := List.exists_cons_of_ne_nil hkinds
    rw [hks, List.tail_cons] at hkind
    rw [hks, List.getLast?_cons, hkind]
    rfl

/-! ### The steps of a run that has something left -/

variable (h : Ahead shift behind due c c')

include h in
theorem length_items_le : c.feed.items.length ≤ c'.feed.items.length := by
  have hlength := congrArg List.length h.tokens
  rw [List.length_append, length_moved, Cursor.tokens, Cursor.tokens, List.length_map, List.length_map] at hlength
  omega

variable (hkinds : c.kinds ≠ [])

include h hkinds

theorem peek_or {k : Nat} (hk : c.MayLook k) : ((Parse.peek k c).2.kinds = [] ∨ (Parse.peek k c).2.log ≠ #[])
    ∨ c'.feed.peek k = (c.feed.peek k).move shift
      ∧ Ahead shift behind due (Parse.peek k c).2 (Parse.peek k c').2 ∧ (Parse.peek k c).2.kinds ≠ [] := by
  by_cases hlog : (Parse.peek k c).2.log = #[]
  · obtain ⟨t, ht⟩ := h.exists_token hkinds hk
    exact .inr ⟨h.peek_eq ht, h.peek ht hlog, by rw [kinds_peek]; exact hkinds⟩
  · exact .inl (.inr hlog)

theorem consume_or : ((Parse.consume c).2.kinds = [] ∨ (Parse.consume c).2.log ≠ #[])
    ∨ c'.here = c.here.move shift ∧ Ahead shift behind due (Parse.consume c).2 (Parse.consume c').2 ∧ (Parse.consume c).2.kinds ≠ [] := by
  by_cases hlog : (Parse.consume c).2.log = #[]
  · by_cases hrest : (Parse.consume c).2.kinds = []
    · exact .inl (.inl hrest)
    · obtain ⟨hhere, hahead⟩ := h.consume hkinds hlog
      exact .inr ⟨hhere, hahead, hrest⟩
  · exact .inl (.inr hlog)

/-- What is missing is reported by the first run, or else by neither. -/
theorem reportMissing_or {n n' : Nat} (hcounts : n = 0 ∨ due.length < n') (kind : TokenKind) :
    ((Grammar.reportMissing n kind c).2.kinds = [] ∨ (Grammar.reportMissing n kind c).2.log ≠ #[])
      ∨ Ahead shift behind due (Grammar.reportMissing n kind c).2 (Grammar.reportMissing n' kind c').2
        ∧ (Grammar.reportMissing n kind c).2.kinds ≠ [] := by
  rcases reportMissing_of_dues h.clean h.due hcounts kind with hlog | ⟨hleft, hright⟩
  · exact .inl (.inr hlog)
  · rw [hleft, hright]
    exact .inr ⟨h, hkinds⟩

end Ahead

/-- The first run keeps on having nothing left or having reported something. -/
theorem escaped_peek (hc : c.kinds = [] ∨ c.log ≠ #[]) (k : Nat) : (Parse.peek k c).2.kinds = [] ∨ (Parse.peek k c).2.log ≠ #[] :=
  hc.imp (fun hkinds => (kinds_peek k c).trans hkinds) fun hne hlog => hne (log_eq_empty_of_log (log_peek k c) hlog)

theorem escaped_consume (hc : c.kinds = [] ∨ c.log ≠ #[]) : (Parse.consume c).2.kinds = [] ∨ (Parse.consume c).2.log ≠ #[] :=
  hc.imp (fun hkinds => by rw [kinds_consume, hkinds]; rfl) fun hne hlog => hne (log_eq_empty_of_log (log_consume c) hlog)

end Cursor

open Cursor

/-- One run goes ahead of another over the same tokens, until it comes to the last of them or reports something. -/
def Pursuit.ahead (shift : Location → Location) (behind : Feed Token) (due : List Diagnostic) : Pursuit where
  shift := shift
  spare := 0
  escaped c := c.kinds = [] ∨ c.log ≠ #[]
  holds c c' := Ahead shift behind due c c' ∧ c.kinds ≠ []
  counts n n' := n = 0 ∨ due.length < n'
  peek h hk := h.1.peek_or h.2 hk
  consume h := h.1.consume_or h.2
  report _ _ _ := .inl (.inr Array.push_ne_empty)
  reports h := .inl (congrArg Array.size h.1.clean)
  countable _ _ := ⟨due.length + 1, .inr (Nat.lt_succ_self _)⟩
  missing h hcounts kind := h.1.reportMissing_or h.2 hcounts kind
  spared := .inl rfl
  room h := h.1.length_items_le
  peek_escaped hc k := escaped_peek hc k
  consume_escaped hc := escaped_consume hc
  report_escaped _ _ _ := .inr Array.push_ne_empty

/-- What the grammar gives over some tokens it gives as well where more tokens stand behind them. -/
theorem pursued_ahead (shift : Location → Location) (behind : Feed Token) (due : List Diagnostic) :
    Productions.full.Pursued (.ahead shift behind due) .full := pursued_of_reports fun _ => .inr

end GoSyntax
