import GoSyntax.Proofs.Places
import GoSyntax.Proofs.TwoRuns.Notes

/-!
# Reading on demand

A reader makes tokens when it is asked for them, and keeps those made early in a queue. The tokens of a source are also a list, fixed
before anything is read, and a cursor over that list is the specification of the reader: whatever is asked in whatever order,
the reader answers as the cursor does. The diagnostics of a token are recorded when the token is first reached, so that the
lexical ones on record depend on the farthest place reached and not on the way there.

The argument is a simulation. After any requests the queue holds the tokens from the place taken to the place reached, and what has not
been scanned holds the tokens from there on.
-/

namespace GoSyntax

namespace Feed

variable {α : Type}

theorem lexical_notesBetween {f : Feed α} (h : Lexical f.pending) (m n : Nat) : Lexical (f.notesBetween m n) := by
  intro d hd
  obtain ⟨i, -, hd⟩ := List.mem_flatMap.1 hd
  refine h d ?_
  unfold item at hd
  split at hd
  · next n hn => exact List.mem_append_left _ (List.mem_flatMap.2 ⟨n, List.mem_of_getElem? hn, hd⟩)
  · split at hd
    · exact List.mem_append_right _ hd
    · nomatch hd

end Feed

/-! ## Making a token takes one item off -/

/-- The tokens that a source between two tokens has yet to give. -/
def Unscanned.feed (u : Unscanned) : Feed Token := Feed.ofLexemes u.path u.armed u.text u.lexemes

theorem Feed.head_noteFirst {α : Type} (due : List Diagnostic) (f : Feed α) :
    (f.noteFirst due).head = ⟨f.head.value, due ++ f.head.notes⟩ := by
  obtain ⟨items, last⟩ := f
  cases items <;> rfl

theorem Feed.tail_look_noteFirst {α : Type} (due : List Diagnostic) (f : Feed α) :
    ((f.noteFirst due).look 1).2.tail = (f.look 1).2.tail := by
  obtain ⟨items, last⟩ := f
  cases items <;> rfl

theorem Unscanned.nextAtEnd_spec (path : SourcePath) (armed : Bool) (text : Feed Place) :
    (nextAtEnd path armed text).1 = (Feed.ofLexemes path armed text []).head ∧
      (nextAtEnd path armed text).2.feed = ((Feed.ofLexemes path armed text []).look 1).2.tail := by
  obtain ⟨items, last⟩ := text
  cases armed <;> cases items <;> exact ⟨rfl, rfl⟩

/-- The next token is the first of the tokens to come, and leaves the others. -/
theorem Unscanned.nextAmong_spec (path : SourcePath) (armed : Bool) (text : Feed Place) (ls : List Lexeme) :
    (nextAmong path armed text ls).1 = (Feed.ofLexemes path armed text ls).head ∧
      (nextAmong path armed text ls).2.feed = ((Feed.ofLexemes path armed text ls).look 1).2.tail := by
  induction ls generalizing armed text with
  | nil => exact nextAtEnd_spec path armed text
  | cons l ls ih =>
    simp only [nextAmong, Feed.ofLexemes]
    split
    · exact ⟨rfl, rfl⟩
    · obtain ⟨hmade, hrest⟩ := ih armed (l.take path text).2
      rw [Feed.head_noteFirst, Feed.tail_look_noteFirst, ← hmade]
      exact ⟨rfl, hrest⟩

theorem Unscanned.unrolls_next : Lookahead.Unrolls next feed := fun u => nextAmong_spec u.path u.armed u.text u.lexemes

/-! ## Requests -/

/-- What a reader of tokens may be asked for. -/
inductive TokenRequest where
  | peek (k : Nat)
  | consume
  | report (d : Diagnostic)

namespace TokenRequest

/-- The diagnostics that a request brings along. -/
def own : TokenRequest → List Diagnostic
  | .report d => [d]
  | _ => []

end TokenRequest

namespace TokenReader

/-- The answer of a reader, if the request has one, and the reader after it. -/
def ask (r : TokenReader) : TokenRequest → Option Token × TokenReader
  | .peek k => (some (r.peek k).1, (r.peek k).2)
  | .consume => (some r.consume.1, r.consume.2)
  | .report d => (none, Lookahead.report d r)

/-- The answers to requests in turn, and the reader after them. -/
def askAll (r : TokenReader) : List TokenRequest → List (Option Token) × TokenReader
  | [] => ([], r)
  | q :: qs => ((r.ask q).1 :: (askAll (r.ask q).2 qs).1, (askAll (r.ask q).2 qs).2)

end TokenReader

namespace Places

/-- The item of a list at a place; behind the end, the last one. -/
def itemAt (tokens : List Token) (i : Nat) : Option Token := tokens[i]?.or tokens.getLast?

/-- The answer of a cursor over a list of tokens. -/
def answer (tokens : List Token) (p : Places) : TokenRequest → Option Token
  | .peek k => itemAt tokens (p.taken + k)
  | .consume => itemAt tokens p.taken
  | .report _ => none

/-- The cursor after a request. -/
def ask (p : Places) : TokenRequest → Places
  | .peek k => ⟨p.taken, max p.reached (p.taken + k + 1)⟩
  | .consume => ⟨p.taken + 1, max p.reached (p.taken + 1)⟩
  | .report _ => p

/-- The answers to requests in turn. -/
def answers (tokens : List Token) (p : Places) : List TokenRequest → List (Option Token)
  | [] => []
  | q :: qs => p.answer tokens q :: answers tokens (p.ask q) qs

/-- The cursor after requests. -/
def askAll (p : Places) (qs : List TokenRequest) : Places := qs.foldl ask p

/-- What goes on record: at each request the diagnostics of the tokens it reaches first, and those it brings along. -/
def record (f : Feed Token) (p : Places) : List TokenRequest → List Diagnostic
  | [] => []
  | q :: qs => f.notesBetween p.reached (p.ask q).reached ++ q.own ++ record f (p.ask q) qs

theorem reached_le_ask (p : Places) (q : TokenRequest) : p.reached ≤ (p.ask q).reached := by
  cases q with
  | peek k => exact Nat.le_max_left _ _
  | consume => exact Nat.le_max_left _ _
  | report d => exact Nat.le_refl _

theorem reached_le_askAll (p : Places) (qs : List TokenRequest) : p.reached ≤ (p.askAll qs).reached := by
  induction qs generalizing p with
  | nil => exact Nat.le_refl _
  | cons q qs ih => exact Nat.le_trans (p.reached_le_ask q) (ih (p.ask q))

/-- Of the record of requests whose own diagnostics are syntactic, the lexical part is that of the tokens reached. -/
theorem lexical_record {f : Feed Token} (hf : ∀ m n, Lexical (f.notesBetween m n)) (p : Places) (qs : List TokenRequest)
    (hqs : ∀ q ∈ qs, lexical q.own = []) : lexical (p.record f qs) = f.notesBetween p.reached (p.askAll qs).reached := by
  induction qs generalizing p with
  | nil => exact (f.notesBetween_self p.reached).symm
  | cons q qs ih =>
    rw [record, lexical_append, lexical_append, (hf _ _).lexical_eq, hqs q List.mem_cons_self, List.append_nil,
      ih _ fun q' hq' => hqs q' (List.mem_cons_of_mem q hq')]
    exact f.notesBetween_append (p.reached_le_ask q) (reached_le_askAll _ qs)

end Places

/-! ## The simulation -/

/-- A reader stands at these places of a feed: the tokens made and not taken are in its queue, and it has yet to make the others. -/
structure TokenReader.Stands (f : Feed Token) (p : Places) (r : TokenReader) : Prop where
  ordered : p.taken ≤ p.reached
  queue : r.queue = (List.range' p.taken (p.reached - p.taken)).map f.peek
  unscanned : r.state.feed = f.past p.reached

namespace TokenReader

variable {f : Feed Token} {p : Places} {r : TokenReader}

theorem stands_iff : Stands f p r ↔ Lookahead.Stands Unscanned.feed f p r :=
  ⟨fun h => ⟨h.ordered, h.queue, h.unscanned⟩, fun h => ⟨h.ordered, h.queue, h.unmade⟩⟩

/-- What one request does: the answer is the cursor's, the places move as the cursor does, and the record grows as said. -/
theorem Stands.ask (h : Stands f p r) (q : TokenRequest) :
    (r.ask q).1 = p.answer f.values q ∧ Stands f (p.ask q) (r.ask q).2 ∧
      (r.ask q).2.log.toList = r.log.toList ++ f.notesBetween p.reached (p.ask q).reached ++ q.own := by
  rw [stands_iff] at h ⊢
  cases q with
  | peek k =>
    obtain ⟨hat, hstands, hlog⟩ := h.peek Unscanned.unrolls_next k
    refine ⟨?_, hstands, hlog.trans (List.append_nil _).symm⟩
    exact (congrArg some hat).trans (f.values_getElem? _).symm
  | consume =>
    obtain ⟨hnext, hstands, hlog⟩ := h.consume Unscanned.unrolls_next
    refine ⟨?_, hstands, hlog.trans (List.append_nil _).symm⟩
    exact (congrArg some hnext).trans (f.values_getElem? _).symm
  | report d =>
    exact ⟨rfl, ⟨h.ordered, h.queue, h.unmade⟩, by simp [TokenReader.ask, Lookahead.report, Places.ask, TokenRequest.own]⟩

/-- What any number of requests does. -/
theorem Stands.askAll (h : Stands f p r) (qs : List TokenRequest) :
    (r.askAll qs).1 = p.answers f.values qs ∧ Stands f (p.askAll qs) (r.askAll qs).2 ∧
      (r.askAll qs).2.log.toList = r.log.toList ++ p.record f qs := by
  induction qs generalizing p r with
  | nil => exact ⟨rfl, h, (List.append_nil _).symm⟩
  | cons q qs ih =>
    obtain ⟨hanswer, hstands, hlog⟩ := h.ask q
    obtain ⟨hanswers, hafter, hlogs⟩ := ih hstands
    refine ⟨congrArg₂ List.cons hanswer hanswers, hafter, hlogs.trans ?_⟩
    rw [hlog, Places.record, List.append_assoc, List.append_assoc, List.append_assoc]

theorem stands_ofBytes (path : SourcePath) (bytes : List UInt8) : Stands (.tokens path bytes) .start (ofBytes path bytes) :=
  ⟨Nat.le_refl _, rfl, rfl⟩

end TokenReader

/-! ## The end of the input -/

/-- The end of the input is the answer at the last place only, and behind it. -/
theorem Feed.Scanned.length_le_of_peek {f : Feed Token} (hf : f.Scanned) {i : Nat} (h : (f.peek i).kind = .eof) :
    f.items.length ≤ i := by
  refine Nat.le_of_not_lt fun hi => ?_
  have hmem : f.peek i ∈ f.items.map Noted.value := by
    rw [peek, List.getElem?_eq_getElem hi]
    exact List.mem_map_of_mem (List.getElem_mem hi)
  have hscanned := hf.2 _ hmem
  rw [h] at hscanned
  exact hscanned

theorem Places.length_lt_of_answer {f : Feed Token} (hf : f.Scanned) {p : Places} {q : TokenRequest} {t : Token}
    (h : p.answer f.values q = some t) (ht : t.kind = .eof) : f.items.length < (p.ask q).reached := by
  have hat : ∀ i, itemAt f.values i = some t → f.items.length ≤ i := by
    intro i hi
    rw [itemAt, f.values_getElem?] at hi
    obtain rfl := Option.some.inj hi
    exact hf.length_le_of_peek ht
  cases q with
  | peek k => exact Nat.lt_of_lt_of_le (Nat.lt_succ_of_le (hat _ h)) (Nat.le_max_right _ _)
  | consume => exact Nat.lt_of_lt_of_le (Nat.lt_succ_of_le (hat _ h)) (Nat.le_max_right _ _)
  | report d => nomatch h

/-- Whoever is told that the input has ended has reached the last place. -/
theorem Places.length_lt_of_answers {f : Feed Token} (hf : f.Scanned) {p : Places} {qs : List TokenRequest} {t : Token}
    (h : some t ∈ p.answers f.values qs) (ht : t.kind = .eof) : f.items.length < (p.askAll qs).reached := by
  induction qs generalizing p with
  | nil => nomatch h
  | cons q qs ih =>
    rcases List.mem_cons.1 h with h | h
    · exact Nat.lt_of_lt_of_le (length_lt_of_answer hf h.symm ht) (reached_le_askAll _ qs)
    · exact ih h

/-! ## The cursor -/

/-- A reader is a cursor over the tokens of its source, fixed beforehand. Whatever it is asked, in whatever order, its answers are those
of the cursor, and each token's diagnostics go on record when the token is first reached, between those the reader is told to report. So
if it is told no lexical ones, the lexical ones on record are those of the tokens up to the farthest place reached; once an answer was the
end of the input, they are all that the source has. -/
theorem TokenReader.askAll_eq_cursor (path : SourcePath) (bytes : List UInt8) (qs : List TokenRequest) :
    ((ofBytes path bytes).askAll qs).1 = Places.start.answers (tokenize path bytes).1 qs
      ∧ ((ofBytes path bytes).askAll qs).2.log.toList = Places.start.record (.tokens path bytes) qs
      ∧ ((∀ d, .report d ∈ qs → d.isLexical = false) →
        (((ofBytes path bytes).askAll qs).2.log.toList.filter Diagnostic.isLexical
            = (Feed.tokens path bytes).notesBetween 0 (Places.start.askAll qs).reached)
          ∧ ((∃ t, some t ∈ ((ofBytes path bytes).askAll qs).1 ∧ t.kind = .eof) →
            ((ofBytes path bytes).askAll qs).2.log.toList.filter Diagnostic.isLexical = (tokenize path bytes).2)) := by
  obtain ⟨hanswers, -, hlog⟩ := (stands_ofBytes path bytes).askAll qs
  replace hlog : ((ofBytes path bytes).askAll qs).2.log.toList = Places.start.record (.tokens path bytes) qs := hlog
  refine ⟨hanswers, hlog, fun hqs => ?_⟩
  have hown : ∀ q ∈ qs, lexical q.own = [] := by
    intro q hq
    cases q with
    | peek k => rfl
    | consume => rfl
    | report d => simp [TokenRequest.own, lexical, hqs d hq]
  have hlexical : lexical (Places.start.record (.tokens path bytes) qs) = _ :=
    Places.lexical_record (Feed.lexical_notesBetween (Feed.lexical_tokens path bytes)) .start qs hown
  rw [hlog]
  refine ⟨hlexical, fun ⟨t, ht, heof⟩ => hlexical.trans ?_⟩
  rw [hanswers] at ht
  exact Feed.notesBetween_eq_pending _ (Places.length_lt_of_answers (Feed.scanned_tokens path bytes) ht heof)

/-- A look far behind the end of `x /*` meets the comment that does not end; then there is a `;` to take, and the end of the input is
reported by the reader. -/
theorem TokenReader.askAll_comment :
    (∀ d, TokenRequest.report d ∈ [.peek 5, .consume, .report ⟨.illegalVariadic, ⟨⟨0, "p.go"⟩, 1⟩⟩, .consume] → d.isLexical = false)
      ∧ (∃ t, some t ∈ ((ofBytes ⟨0, "p.go"⟩ (Utf8.encode "x /*".toList)).askAll
          [.peek 5, .consume, .report ⟨.illegalVariadic, ⟨⟨0, "p.go"⟩, 1⟩⟩, .consume]).1 ∧ t.kind = .eof)
      ∧ ((ofBytes ⟨0, "p.go"⟩ (Utf8.encode "x /*".toList)).askAll
          [.peek 5, .consume, .report ⟨.illegalVariadic, ⟨⟨0, "p.go"⟩, 1⟩⟩, .consume]).2.log.toList.filter Diagnostic.isLexical
        = (tokenize ⟨0, "p.go"⟩ (Utf8.encode "x /*".toList)).2 := by
  have hqs : ∀ d, TokenRequest.report d ∈ [.peek 5, .consume, .report ⟨.illegalVariadic, ⟨⟨0, "p.go"⟩, 1⟩⟩, .consume] →
      d.isLexical = false := by
    intro d hd
    obtain rfl : d = ⟨.illegalVariadic, ⟨⟨0, "p.go"⟩, 1⟩⟩ := by simpa using hd
    rfl
  have heof : ∃ t, some t ∈ ((ofBytes ⟨0, "p.go"⟩ (Utf8.encode "x /*".toList)).askAll
      [.peek 5, .consume, .report ⟨.illegalVariadic, ⟨⟨0, "p.go"⟩, 1⟩⟩, .consume]).1 ∧ t.kind = .eof :=
    ⟨⟨.eof, ⟨⟨0, "p.go"⟩, 1⟩⟩, by decide +kernel, rfl⟩
  exact ⟨hqs, heof, ((askAll_eq_cursor _ _ _).2.2 hqs).2 heof⟩

end GoSyntax
