import GoSyntax.Proofs.Same
import GoSyntax.Proofs.Tally

/-!
# Where a parser has got to

`Reached start m t φ` describes the cursors that a parser has reached from `start`: fewer than `m` tokens are left, and they are the
last ones of the start; if nothing has been reported, the tokens before them are spelled as the tally `t` says; the placeholders
of the tally are covered by the syntactic faults reported so far, line by line; and the next token satisfies `φ`. Each step has a
rule that says how it changes this.
-/

namespace GoSyntax

open Parse

namespace Cursor

/-- Where the syntactic faults reported so far are. -/
def faults (c : Cursor) : Multiset Location := ((c.log.toList.filter fun d => !d.isLexical).map Diagnostic.loc : List Location)

/-! ## What the steps do to a cursor -/

theorem here_eq (c : Cursor) : c.here = (c.tokens.head?).getD c.feed.last.value := by
  obtain ⟨⟨items, last⟩, log, h⟩ := c
  cases items <;> rfl

/-- The end of the input comes next exactly when no token is left. -/
theorem kinds_cases (c : Cursor) :
    c.here.kind = .eof ∧ c.kinds = [] ∨ ∃ ks, c.here.kind.IsScanned ∧ c.kinds = c.here.kind :: ks := by
  obtain ⟨⟨items, last⟩, log, hlast, hitems⟩ := c
  cases items with
  | nil => exact .inl ⟨hlast, rfl⟩
  | cons n ns => exact .inr ⟨_, hitems _ List.mem_cons_self, rfl⟩

theorem isScanned_here {c : Cursor} (h : c.here.kind ≠ .eof) : c.here.kind.IsScanned := by
  rcases c.kinds_cases with ⟨heof, _⟩ | ⟨_, hs, _⟩
  · exact absurd heof h
  · exact hs

theorem kinds_eq_cons {c : Cursor} (h : c.here.kind ≠ .eof) : ∃ ks, c.kinds = c.here.kind :: ks := by
  rcases c.kinds_cases with ⟨heof, _⟩ | ⟨ks, _, hks⟩
  · exact absurd heof h
  · exact ⟨ks, hks⟩

/-- The kind of the next token depends only on the kinds of the tokens left. -/
theorem here_kind_of_kinds_eq {c c' : Cursor} (h : c.kinds = c'.kinds) : c.here.kind = c'.here.kind := by
  rcases c.kinds_cases with ⟨he, hk⟩ | ⟨ks, _, hk⟩ <;> rcases c'.kinds_cases with ⟨he', hk'⟩ | ⟨ks', _, hk'⟩
  · rw [he, he']
  · rw [hk, hk'] at h
    cases h
  · rw [hk, hk'] at h
    cases h
  · rw [hk, hk'] at h
    exact (List.cons.inj h).1

theorem tokens_peek (k : Nat) (c : Cursor) : (Parse.peek k c).2.tokens = c.tokens := Feed.map_value_look c.feed (k + 1)

theorem kinds_peek (k : Nat) (c : Cursor) : (Parse.peek k c).2.kinds = c.kinds := congrArg (List.map Token.kind) (tokens_peek k c)

theorem here_peek (k : Nat) (c : Cursor) : (Parse.peek k c).2.here = c.here := by
  have hlast : (Parse.peek k c).2.feed.last.value = c.feed.last.value := Feed.last_value_look c.feed (k + 1)
  rw [here_eq, here_eq, tokens_peek, hlast]

theorem tokens_consume (c : Cursor) : (Parse.consume c).2.tokens = c.tokens.tail := by
  have h : ∀ f : Feed Token, f.tail.items = f.items.tail := by
    rintro ⟨items, last⟩
    cases items <;> rfl
  change (c.feed.look 1).2.tail.items.map Noted.value = (c.feed.items.map Noted.value).tail
  rw [h, List.map_tail, Feed.map_value_look]

theorem kinds_consume (c : Cursor) : (Parse.consume c).2.kinds = c.kinds.tail := by
  rw [kinds, tokens_consume, List.map_tail]
  rfl

theorem log_peek (k : Nat) (c : Cursor) : (Parse.peek k c).2.log.toList = c.log.toList ++ (c.feed.look (k + 1)).1 :=
  Array.toList_appendList

theorem log_consume (c : Cursor) : (Parse.consume c).2.log.toList = c.log.toList ++ (c.feed.look 1).1 :=
  Array.toList_appendList

theorem eq_of {c c' : Cursor} (hfeed : c.feed = c'.feed) (hlog : c.log = c'.log) : c = c' := by
  obtain ⟨feed, log, _⟩ := c
  obtain rfl : feed = c'.feed := hfeed
  obtain rfl : log = c'.log := hlog
  rfl

/-- Who looks at the next token a second time meets nothing new. -/
theorem current_current (c : Cursor) : Parse.current (Parse.current c).2 = (c.here, (Parse.current c).2) := by
  refine Prod.ext (here_peek 0 c) (eq_of ?_ ?_)
  · change ((c.feed.look 1).2.look 1).2 = _
    rw [Feed.look_look]
    rfl
  · change c.log ++ (c.feed.look 1).1 ++ ((c.feed.look 1).2.look 1).1 = _
    rw [Feed.look_look]
    exact Array.appendList_nil

/-- Reports are never taken back. -/
theorem log_eq_empty_of_log {c c' : Cursor} {ds : List Diagnostic} (h : c'.log.toList = c.log.toList ++ ds)
    (h' : c'.log = #[]) : c.log = #[] := by
  rw [h'] at h
  exact Array.toList_eq_nil_iff.1 (List.append_eq_nil_iff.1 h.symm).1

/-- More reports keep the old faults. -/
theorem faults_le_of_log {c c' : Cursor} {ds : List Diagnostic} (h : c'.log.toList = c.log.toList ++ ds) :
    c.faults ≤ c'.faults := by
  have h' : c'.faults = c.faults + ((ds.filter fun d => !d.isLexical).map Diagnostic.loc : List Location) := by
    simp [faults, h]
  rw [h']
  exact le_add_of_nonneg_right (Multiset.zero_le _)

end Cursor

/-- The cursors that a parser has reached from the cursor `start`. -/
structure Reached (start : Cursor) (m : Nat) (t : Tally) (φ : Token → Prop) (c : Cursor) : Prop where
  room : c.kinds.length < m
  suffix : c.kinds <:+ start.kinds
  words : c.log = #[] → ∃ w ∈ t.words, w ++ c.kinds = start.kinds
  placeholders : t.placeholders ≤ c.faults
  face : φ c.here

namespace Reached

variable {start : Cursor} {m m' : Nat} {t t' : Tally} {φ φ' : Token → Prop} {c c' : Cursor}

/-- A parser that has not started has read nothing. -/
theorem refl (h : start.kinds.length < m) (hφ : φ start.here) : Reached start m 1 φ start :=
  ⟨h, List.suffix_refl _, fun _ => ⟨[], rfl, rfl⟩, Multiset.zero_le _, hφ⟩

theorem mono (h : Reached start m t φ c) (hm : m ≤ m') (ht : t ≤ t') (hφ : φ c.here → φ' c.here) : Reached start m' t' φ' c where
  room := h.room.trans_le hm
  suffix := h.suffix
  words hlog := (h.words hlog).imp fun _ hw => ⟨ht.1 hw.1, hw.2⟩
  placeholders := ht.2.trans h.placeholders
  face := hφ h.face

/-- The tally may be larger, and the next token need not be known. -/
theorem done (h : Reached start m t φ c) (ht : t ≤ t') : Reached start m t' ⊤ c := h.mono le_rfl ht fun _ => trivial

theorem tight (h : Reached start m t φ c) : Reached start (c.kinds.length + 1) t φ c :=
  { h with room := Nat.lt_succ_self _ }

/-- Looking ahead only reports. -/
theorem peek (h : Reached start m t φ c) (k : Nat) : Reached start m t φ (Parse.peek k c).2 where
  room := by rw [Cursor.kinds_peek]; exact h.room
  suffix := by rw [Cursor.kinds_peek]; exact h.suffix
  words hlog := by
    rw [Cursor.kinds_peek]
    exact h.words (Cursor.log_eq_empty_of_log (Cursor.log_peek k c) hlog)
  placeholders := h.placeholders.trans (Cursor.faults_le_of_log (Cursor.log_peek k c))
  face := by rw [Cursor.here_peek]; exact h.face

/-- Taking a token that is not the end of the input leaves fewer of them. -/
theorem consume (h : Reached start (m + 1) t φ c) (hc : c.here.kind ≠ .eof) :
    Reached start m (t * .token c.here.kind) ⊤ (Parse.consume c).2 := by
  obtain ⟨ks, hks⟩ := Cursor.kinds_eq_cons hc
  have hrest : (Parse.consume c).2.kinds = ks := by rw [Cursor.kinds_consume, hks, List.tail_cons]
  have hroom := h.room
  rw [hks, List.length_cons] at hroom
  refine ⟨by rw [hrest]; omega, ?_, fun hlog => ?_, ?_, trivial⟩
  · rw [hrest]
    exact (hks ▸ List.suffix_cons _ ks).trans h.suffix
  · obtain ⟨w, hw, heq⟩ := h.words (Cursor.log_eq_empty_of_log (Cursor.log_consume c) hlog)
    refine ⟨w ++ [c.here.kind], Language.append_mem_mul hw rfl, ?_⟩
    rw [hrest, ← heq, hks, List.append_assoc, List.singleton_append]
  · rw [Tally.placeholders_mul, Tally.placeholders_token, add_zero]
    exact h.placeholders.trans (Cursor.faults_le_of_log (Cursor.log_consume c))

/-- After a report nothing is spelled, and there is room for a placeholder. -/
theorem report (h : Reached start m t φ c) {fault : Fault} (hf : fault.isLexical = false) (loc : Location) :
    Reached start m (t * .fault loc) φ (Parse.report fault loc c).2 where
  room := h.room
  suffix := h.suffix
  words hlog := absurd hlog (by simp [Parse.report])
  placeholders := by
    have hfaults : (Parse.report fault loc c).2.faults = c.faults + {loc} := by
      simp [Parse.report, Cursor.faults, Diagnostic.isLexical, hf, ← Multiset.coe_singleton]
    rw [hfaults, Tally.placeholders_mul, Tally.placeholders_fault]
    exact add_le_add_left h.placeholders _
  face := h.face

/-- If nothing has been reported, the number of reports is zero. -/
theorem reports (h : Reached start m t φ c) : Reached start m (t * .given (c.log.size = 0)) φ c where
  room := h.room
  suffix := h.suffix
  words hlog := by
    obtain ⟨w, hw, heq⟩ := h.words hlog
    exact ⟨w ++ [], Language.append_mem_mul hw ⟨rfl, by rw [hlog]; rfl⟩, by rw [List.append_nil]; exact heq⟩
  placeholders := by simpa using h.placeholders
  face := h.face

end Reached

/-! ## Looking twice -/

theorem Cursor.here_current (c : Cursor) : (Parse.current c).2.here = c.here := here_peek 0 c

namespace Parse

/-- Who takes a token that he has looked at meets nothing new. -/
theorem consume_current (c : Cursor) : consume (current c).2 = consume c := by
  refine Prod.ext (Cursor.here_peek 0 c) (Cursor.eq_of ?_ ?_)
  · change ((c.feed.look 1).2.look 1).2.tail = _
    rw [Feed.look_look]
    rfl
  · change c.log ++ (c.feed.look 1).1 ++ ((c.feed.look 1).2.look 1).1 = _
    rw [Feed.look_look]
    exact Array.appendList_nil

theorem accept_bind {α : Type} (kind : TokenKind) (f : Bool → Parse α) :
    (accept kind >>= f) = (do if ← isAt kind then (do let _ ← consume; f true) else f false) := by
  rw [accept, bind_assoc]
  refine bind_congr fun b => ?_
  cases b <;> rfl

theorem accept_apply (kind : TokenKind) (c : Cursor) :
    accept kind c = if c.here.kind.sameKind kind = true then (true, (consume c).2) else (false, (current c).2) := by
  change (if c.here.kind.sameKind kind = true then (do
    let _ ← consume
    return true) else return false : Parse Bool) (current c).2 = _
  rw [← consume_current]
  split <;> rfl

theorem accept_of_sameKind {c : Cursor} {kind : TokenKind} (h : c.here.kind.sameKind kind = true) :
    accept kind c = (true, (consume c).2) := (accept_apply kind c).trans (if_pos h)

end Parse

end GoSyntax
