import GoSyntax.Proofs.Context.Depth
import GoSyntax.Proofs.Context.Feeds

/-!
# The same tokens elsewhere

Two runs have the same tokens before them, at other locations, but what stands before these tokens and has been reported of it is not the
same. Nothing that the runs do depends on it: they give the same, moved, and what they report is the same, moved. Only the number of reports
is looked at, and it is compared with what it was before, so it does not matter either.
-/

namespace GoSyntax

open Parse

/-- The tokens of the first cursor are before the second one, moved; so is what has been reported since the reports `before` and
`before'`. -/
structure Cursor.Beside (shift : Location → Location) (before before' : List Diagnostic) (c c' : Cursor) : Prop where
  feed : c'.feed = c.feed.move shift
  log : ∃ made, c.log.toList = before ++ made ∧ c'.log.toList = before' ++ moved shift made

namespace Cursor.Beside

variable {shift : Location → Location} {before before' : List Diagnostic} {c c' d d' : Cursor}

/-- If both feeds stay the same and both logs grow by the same, the cursors stay beside each other. -/
theorem step (h : Beside shift before before' c c') {made : List Diagnostic} (hfeed : d'.feed = d.feed.move shift)
    (hlog : d.log.toList = c.log.toList ++ made) (hlog' : d'.log.toList = c'.log.toList ++ moved shift made) :
    Beside shift before before' d d' := by
  obtain ⟨made₀, hmade, hmade'⟩ := h.log
  exact ⟨hfeed, made₀ ++ made, by rw [hlog, hmade, List.append_assoc], by rw [hlog', hmade', moved_append, List.append_assoc]⟩

theorem peek (h : Beside shift before before' c c') (k : Nat) : Beside shift before before' (Parse.peek k c).2 (Parse.peek k c').2 := by
  have hlook : c'.feed.look (k + 1) = (moved shift (c.feed.look (k + 1)).1, (c.feed.look (k + 1)).2.move shift) := by
    rw [h.feed]
    exact Feed.look_relabel _ _ _ _
  exact h.step (congrArg Prod.snd hlook) (Cursor.log_peek k c) ((Cursor.log_peek k c').trans (by rw [hlook]))

theorem consume (h : Beside shift before before' c c') : Beside shift before before' (Parse.consume c).2 (Parse.consume c').2 := by
  have hlook : c'.feed.look 1 = (moved shift (c.feed.look 1).1, (c.feed.look 1).2.move shift) := by
    rw [h.feed]
    exact Feed.look_relabel _ _ _ _
  refine h.step ?_ (Cursor.log_consume c) ((Cursor.log_consume c').trans (by rw [hlook]))
  change (c'.feed.look 1).2.tail = _
  rw [hlook]
  exact Feed.tail_relabel _ _ _

theorem report (h : Beside shift before before' c c') (fault : Fault) (loc : Location) :
    Beside shift before before' (Parse.report fault loc c).2 (Parse.report fault (shift loc) c').2 := by
  have hlog : (Parse.report fault loc c).2.log.toList = c.log.toList ++ [⟨fault, loc⟩] := Array.toList_push
  exact h.step h.feed hlog Array.toList_push

theorem peek_eq (h : Beside shift before before' c c') (k : Nat) : c'.feed.peek k = moved shift (c.feed.peek k) := by
  rw [h.feed]
  exact Feed.peek_relabel _ _ _ _

theorem size (h : Beside shift before before' c c') : c.log.size + before'.length = c'.log.size + before.length := by
  obtain ⟨made, hmade, hmade'⟩ := h.log
  rw [← Array.length_toList, ← Array.length_toList, hmade, hmade', List.length_append, List.length_append, length_moved]
  omega

theorem items_length (h : Beside shift before before' c c') : c.feed.items.length = c'.feed.items.length := by
  rw [h.feed]
  exact (List.length_map _).symm

end Cursor.Beside

/-- Two runs beside each other, all the way. -/
def Pursuit.beside (shift : Location → Location) (before before' : List Diagnostic) : Pursuit where
  shift := shift
  spare := 0
  escaped _ := False
  holds := Cursor.Beside shift before before'
  counts n n' := n + before'.length = n' + before.length
  peek {c c' k} h _ := .inr ⟨h.peek_eq k, h.peek k⟩
  consume h := .inr ⟨h.peek_eq 0, h.consume⟩
  report h fault loc := .inr (h.report fault loc)
  reports h := h.size
  countable h := h.elim
  missing := by
    rintro c c' n n' h hcounts kind
    have hiff : (c.log.size == n) = (c'.log.size == n') := by
      have hsize := h.size
      rw [Bool.eq_iff_iff, beq_iff_eq, beq_iff_eq]
      omega
    change False ∨ Cursor.Beside shift before before' ((if c.log.size == n then Parse.reportExpected kind.display else Pure.pure ()) c).2
      ((if c'.log.size == n' then Parse.reportExpected kind.display else Pure.pure ()) c').2
    rw [hiff]
    right
    split
    · have hreport := (h.peek 0).report (.expectedToken kind.display c.here.kind.display) c.here.loc
      change Cursor.Beside shift before before' _ (Parse.report (.expectedToken kind.display c'.here.kind.display) c'.here.loc _).2
      rw [Cursor.here, h.peek_eq 0]
      exact hreport
    · exact h
  spared := .inl rfl
  room h := h.items_length.le
  peek_escaped h := h.elim
  consume_escaped h := h.elim
  report_escaped h := h.elim

/-- What the grammar gives over some tokens it gives, moved, over the same tokens elsewhere. -/
theorem pursued_beside (shift : Location → Location) (before before' : List Diagnostic) :
    Productions.full.Pursued (.beside shift before before') .full := by
  have heven : ∀ c c', (Pursuit.beside shift before before').holds c c' → c.feed.items.length = c'.feed.items.length :=
    fun _ _ h => Cursor.Beside.items_length h
  have hmissing : Follows (.beside shift before before') Productions.missingOperand Productions.missingOperand :=
    FollowsAt.current.bind fun _ => (FollowsAt.reportHere _).bind fun _ => .pure rfl
  refine pursued_of_even heven ⟨.pure rfl, fun _ => hmissing, fun _ => hmissing, fun _ => hmissing, ?_, .of_even heven _⟩
  exact FollowsAt.current.bind fun _ => (FollowsAt.reportExpected _).bind fun _ => .pure rfl

end GoSyntax
