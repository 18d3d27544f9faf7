import GoSyntax.Proofs.InRange.Text
import GoSyntax.Proofs.Lexical.Decoding
import GoSyntax.Proofs.Lines.Source

/-!
# Requests to a reader of characters

A reader of characters answers as a cursor over the characters of its source, fixed before anything is read. Where the next character
stands depends on the characters taken and not on how far was looked ahead, and what has been reported depends on the farthest character
asked for and not on the way there.

A look far ahead is cut short, since no text has more characters than bytes; so a reader may have made less than was asked for. This makes
a difference only behind the end of the text, where there is nothing to report.
-/

namespace GoSyntax

open Utf8

/-! ## Requests and a cursor -/

/-- What a reader of characters may be asked for. -/
inductive RuneRequest where
  | peek (k : Nat)
  | consume
  | location

/-- What a reader of characters answers: a character, none past the end, or where it stands. -/
inductive RuneAnswer where
  | char (c : Option Char)
  | location (l : Location)

namespace RuneReader

/-- The answer of a reader, and the reader after it. -/
def ask (r : RuneReader) : RuneRequest → RuneAnswer × RuneReader
  | .peek k => (.char (r.peek k).1, (r.peek k).2)
  | .consume => (.char r.consume.1, r.consume.2)
  | .location => (.location r.location, r)

/-- The answers to requests in turn, and the reader after them. -/
def askAll (r : RuneReader) : List RuneRequest → List RuneAnswer × RuneReader
  | [] => ([], r)
  | q :: qs => ((r.ask q).1 :: (askAll (r.ask q).2 qs).1, (askAll (r.ask q).2 qs).2)

end RuneReader

namespace Places

/-- The answer of a cursor over the characters of a text. It stands on the line that the characters taken reach. -/
def charAnswer (path : SourcePath) (text : List Char) (p : Places) : RuneRequest → RuneAnswer
  | .peek k => .char text[p.taken + k]?
  | .consume => .char text[p.taken]?
  | .location => .location ⟨path, 1 + (text.take p.taken).count '\n'⟩

/-- The cursor after a request. -/
def askChar (p : Places) : RuneRequest → Places
  | .peek k => ⟨p.taken, max p.reached (p.taken + k + 1)⟩
  | .consume => ⟨p.taken + 1, max p.reached (p.taken + 1)⟩
  | .location => p

/-- The answers to requests in turn. -/
def charAnswers (path : SourcePath) (text : List Char) (p : Places) : List RuneRequest → List RuneAnswer
  | [] => []
  | q :: qs => p.charAnswer path text q :: charAnswers path text (p.askChar q) qs

/-- The cursor after requests. -/
def askChars (p : Places) (qs : List RuneRequest) : Places := qs.foldl askChar p

/-- A cursor stands on a line of its text, whatever it is asked. -/
theorem exists_of_location_mem {path : SourcePath} {text : List Char} {p : Places} {qs : List RuneRequest} {l : Location}
    (h : .location l ∈ p.charAnswers path text qs) : ∃ n, l = lineAt path text n := by
  induction qs generalizing p with
  | nil => nomatch h
  | cons q qs ih =>
    rcases List.mem_cons.1 h with h | h
    · cases q with
      | peek k | consume => nomatch h
      | location => exact ⟨p.taken, RuneAnswer.location.inj h⟩
    · exact ih h

end Places

/-! ## What is made when a look is cut short -/

namespace Feed

variable {α : Type} {f : Feed α} {m n : Nat}

/-- The same diagnostics are due up to either place: it is the same place, or both are behind the end. -/
def Alike (f : Feed α) (m n : Nat) : Prop := m = n ∨ f.items.length < m ∧ f.items.length < n

theorem Alike.notesBetween (h : f.Alike m n) : f.notesBetween 0 m = f.notesBetween 0 n := by
  rcases h with rfl | ⟨hm, hn⟩
  · rfl
  · rw [f.notesBetween_eq_pending hm, f.notesBetween_eq_pending hn]

/-- Two readers that go on to places of the same kind. -/
theorem Alike.max {m' n' : Nat} (h : f.Alike m n) (h' : f.Alike m' n') : f.Alike (max m m') (max n n') := by
  unfold Alike at h h' ⊢
  omega

end Feed

namespace Undecoded

theorem unrolls_next : Lookahead.Unrolls next Feed.ofUndecoded := next_spec

theorem path_next (u : Undecoded) : u.next.2.path = u.path := by
  unfold next
  split <;> rfl

theorem line_head (u : Undecoded) : (Feed.ofUndecoded u).head.value.line = u.line := by
  rcases hnext : u.nextRune with ⟨refused, _ | ⟨c, rest⟩⟩
  · rw [Feed.ofUndecoded_of_none hnext]
    rfl
  · rw [Feed.ofUndecoded_of_some hnext]
    rfl

end Undecoded

/-! ## The simulation -/

namespace RuneReader

variable {u : Undecoded} {p : Places} {r : RuneReader}

theorem path_advanceBy (n : Nat) (r : RuneReader) : (Lookahead.advanceBy Undecoded.next n r).state.path = r.state.path := by
  induction n generalizing r with
  | zero => rfl
  | succ n ih => exact (ih _).trans r.state.path_next

theorem path_consume (r : RuneReader) : r.consume.2.state.path = r.state.path := by
  obtain ⟨state, queue, log⟩ := r
  cases queue with
  | cons place queue => rfl
  | nil => exact state.path_next

/-- A reader of `u` stands where a cursor does: it has taken as many characters, and has reported what is due up to the farthest one. -/
structure Follows (u : Undecoded) (p : Places) (r : RuneReader) : Prop where
  stands : ∃ made, Lookahead.Stands Feed.ofUndecoded (Feed.ofUndecoded u) ⟨p.taken, made⟩ r ∧ (Feed.ofUndecoded u).Alike made p.reached
  path_eq : r.state.path = u.path
  log : r.log.toList = (Feed.ofUndecoded u).notesBetween 0 p.reached

/-- A look goes as far as it is asked to, or beyond the end of the text. -/
theorem exists_peek_eq {made : Nat} (h : Lookahead.Stands Feed.ofUndecoded (Feed.ofUndecoded u) ⟨p.taken, made⟩ r) (k : Nat) :
    ∃ k', r.peek k = ((Lookahead.peek Undecoded.next k' r).1.char, (Lookahead.peek Undecoded.next k' r).2)
      ∧ (k' = k ∨ (Feed.ofUndecoded u).items.length ≤ p.taken + k' ∧ k' ≤ k) := by
  refine ⟨min k (r.queue.length + r.state.bytes.length), rfl, ?_⟩
  have hqueue := h.length_queue
  have hordered := h.ordered
  have hleft : (Feed.ofUndecoded u).items.length - made ≤ r.state.bytes.length := by
    have hle := Feed.length_ofUndecoded_le r.state
    rw [h.unmade, Feed.past, List.length_drop] at hle
    exact hle
  dsimp only at hqueue hordered
  omega

theorem Follows.peek (h : Follows u p r) (k : Nat) :
    (r.peek k).1 = (Feed.ofUndecoded u).chars[p.taken + k]? ∧ Follows u (p.askChar (.peek k)) (r.peek k).2 := by
  obtain ⟨⟨made, hstands, halike⟩, hpath, hlog⟩ := h
  obtain ⟨k', hpeek, hk⟩ := exists_peek_eq hstands k
  obtain ⟨hat, hafter, hlogged⟩ := hstands.peek Undecoded.unrolls_next k'
  have hmade : (Feed.ofUndecoded u).Alike (max made (p.taken + k' + 1)) (max p.reached (p.taken + k + 1)) :=
    halike.max (by unfold Feed.Alike; omega)
  rw [hpeek]
  refine ⟨?_, ⟨_, hafter, hmade⟩, (path_advanceBy _ r).trans hpath, ?_⟩
  · rw [hat, Feed.char_peek_ofUndecoded]
    rcases hk with rfl | ⟨hend, hle⟩
    · rfl
    · rw [← Feed.length_chars_ofUndecoded] at hend
      rw [List.getElem?_eq_none hend, List.getElem?_eq_none (by omega)]
  · rw [hlogged, hlog, ← halike.notesBetween, Feed.notesBetween_append _ (Nat.zero_le _) (Nat.le_max_left _ _), hmade.notesBetween]
    rfl

theorem Follows.consume (h : Follows u p r) :
    r.consume.1 = (Feed.ofUndecoded u).chars[p.taken]? ∧ Follows u (p.askChar .consume) r.consume.2 := by
  obtain ⟨⟨made, hstands, halike⟩, hpath, hlog⟩ := h
  obtain ⟨hnext, hafter, hlogged⟩ := hstands.consume Undecoded.unrolls_next
  have hmade : (Feed.ofUndecoded u).Alike (max made (p.taken + 1)) (max p.reached (p.taken + 1)) := halike.max (.inl rfl)
  refine ⟨?_, ⟨_, hafter, hmade⟩, r.path_consume.trans hpath, ?_⟩
  · exact (congrArg Place.char hnext).trans (Feed.char_peek_ofUndecoded _ _)
  · refine hlogged.trans ?_
    rw [hlog, ← halike.notesBetween, Feed.notesBetween_append _ (Nat.zero_le _) (Nat.le_max_left _ _), hmade.notesBetween]
    rfl

/-- A reader knows its line from the next character made, or, if none has been made ahead, from the bytes to be read. -/
theorem Follows.location (h : Follows u p r) :
    r.location = ⟨u.path, u.line + ((Feed.ofUndecoded u).chars.take p.taken).count '\n'⟩ := by
  obtain ⟨⟨made, hstands, -⟩, hpath, -⟩ := h
  have hordered := hstands.ordered
  have hlength := hstands.length_queue
  rw [← Feed.line_peek_ofUndecoded, RuneReader.location, hpath]
  cases hqueue : r.queue with
  | cons place queue =>
    rw [hqueue, List.length_cons] at hlength
    have hhead := hstands.getElem?_queue (k := 0) (by dsimp only at hlength ⊢; omega)
    rw [hqueue] at hhead
    exact congrArg (fun place : Place => (⟨u.path, place.line⟩ : Location)) (Option.some.inj hhead)
  | nil =>
    rw [hqueue, List.length_nil] at hlength
    dsimp only at hordered hlength
    obtain rfl : made = p.taken := by omega
    have hhead := congrArg Feed.head hstands.unmade
    rw [Feed.head_past] at hhead
    rw [Feed.peek_eq_item, ← hhead, Undecoded.line_head]

/-- What requests do. -/
theorem Follows.askAll {path : SourcePath} {bytes : List UInt8} (h : Follows (.ofBytes path bytes) p r) (qs : List RuneRequest) :
    (r.askAll qs).1 = p.charAnswers path (Feed.ofBytes path bytes).chars qs ∧ Follows (.ofBytes path bytes) (p.askChars qs)
    (r.askAll qs).2 := by
  induction qs generalizing p r with
  | nil => exact ⟨rfl, h⟩
  | cons q qs ih =>
    have hstep : (r.ask q).1 = p.charAnswer path (Feed.ofBytes path bytes).chars q
        ∧ Follows (.ofBytes path bytes) (p.askChar q) (r.ask q).2 := by
      cases q with
      | peek k => exact ⟨congrArg RuneAnswer.char (h.peek k).1, (h.peek k).2⟩
      | consume => exact ⟨congrArg RuneAnswer.char h.consume.1, h.consume.2⟩
      | location => exact ⟨congrArg RuneAnswer.location h.location, h⟩
    obtain ⟨hanswers, hafter⟩ := ih hstep.2
    exact ⟨congrArg₂ List.cons hstep.1 hanswers, hafter⟩

theorem follows_ofBytes (path : SourcePath) (bytes : List UInt8) : Follows (.ofBytes path bytes) .start (ofBytes path bytes) :=
  ⟨⟨0, Lookahead.stands_start Feed.ofUndecoded _, .inl rfl⟩, rfl, rfl⟩

/-- Whoever takes as many characters one after the other has been told the same. -/
theorem Follows.log_eq {path : SourcePath} {bytes : List UInt8} (h : Follows (.ofBytes path bytes) p r) :
    r.log = (consumeBy p.reached (ofBytes path bytes)).2.log := by
  obtain ⟨-, hlog, -⟩ := consumeBy_past (m := 0) p.reached #[] (Feed.past_zero (Feed.ofBytes path bytes)).symm
  rw [Nat.zero_add] at hlog
  exact Array.toList_inj.1 (h.log.trans hlog.symm)

/-- What has been reported is the first part of all that is refused of the source. -/
theorem Follows.log_prefix {path : SourcePath} {bytes : List UInt8} (h : Follows (.ofBytes path bytes) p r) :
    r.log.toList <+: Feed.refusals path [] (segments bytes) := by
  rw [h.log, ← (Feed.ofBytes_segments path bytes).2]
  rcases Nat.lt_or_ge (Feed.ofBytes path bytes).items.length p.reached with hend | hend
  · exact (Feed.notesBetween_eq_pending _ hend).symm ▸ List.prefix_rfl
  · refine ⟨(Feed.ofBytes path bytes).notesBetween p.reached ((Feed.ofBytes path bytes).items.length + 1), ?_⟩
    rw [← Feed.notesBetween_length]
    exact Feed.notesBetween_append _ (Nat.zero_le _) (Nat.le_succ_of_le hend)

/-- A reader of characters is a cursor over the characters of its source, fixed beforehand: those of the segments of its bytes, without a
byte order mark at their start. Whatever it is asked, in whatever order, it gives the characters that the cursor gives, and stands on the
line that the characters taken reach. What it has reported is what a reader without a look ahead reports up to the farthest character
asked for, each refusal on the line of the bytes refused. If there are fewer than 2^32 - 1 line breaks, all these lines fit into 32 bits. -/
theorem askAll_eq_charAnswers (path : SourcePath) (bytes : List UInt8) (qs : List RuneRequest) :
    ((ofBytes path bytes).askAll qs).1 = Places.start.charAnswers path (dropMark ((segments bytes).filterMap rune?)) qs
      ∧ ((ofBytes path bytes).askAll qs).2.log = (consumeBy (Places.start.askChars qs).reached (ofBytes path bytes)).2.log
      ∧ ((ofBytes path bytes).askAll qs).2.log.toList
        <+: (beforeRefused [] (segments bytes)).map (fun before => ⟨.illegalUtf8, ⟨path, 1 + before.count 10⟩⟩)
      ∧ (bytes.count 10 < 2 ^ 32 - 1 →
        (∀ l, .location l ∈ ((ofBytes path bytes).askAll qs).1 → l.line < 2 ^ 32)
          ∧ ∀ d ∈ ((ofBytes path bytes).askAll qs).2.log.toList, d.loc.line < 2 ^ 32) := by
  obtain ⟨hanswers, hfollows⟩ := (follows_ofBytes path bytes).askAll qs
  refine ⟨?_, hfollows.log_eq, hfollows.log_prefix, fun hfew => ⟨fun l hl => ?_, fun d hd => ?_⟩⟩
  · rw [hanswers, (Feed.ofBytes_segments path bytes).1]
  · rw [hanswers] at hl
    obtain ⟨n, rfl⟩ := Places.exists_of_location_mem hl
    have hline := (isLineOf_lineAt path bytes n).le_last
    omega
  · have hline := (isLineOf_refusal path bytes (hfollows.log_prefix.subset hd)).le_last
    omega

/-- In front of the end of `a`, a line break and a byte that is refused, a look two characters ahead meets the refusal on the second line;
the reader still stands on the first one until it has taken the line break. -/
theorem askAll_eq_charAnswers_lineBreak :
    ([0x61, 10, 0xFF] : List UInt8).count 10 < 2 ^ 32 - 1
      ∧ ((ofBytes ⟨0, "p.go"⟩ [0x61, 10, 0xFF]).askAll [.peek 2, .location, .consume, .consume, .location]).1
        = [.char none, .location ⟨⟨0, "p.go"⟩, 1⟩, .char (some 'a'), .char (some '\n'), .location ⟨⟨0, "p.go"⟩, 2⟩]
      ∧ ∀ l, .location l ∈ ((ofBytes ⟨0, "p.go"⟩ [0x61, 10, 0xFF]).askAll [.peek 2, .location, .consume, .consume, .location]).1
        → l.line < 2 ^ 32 := by
  have hfew : ([0x61, 10, 0xFF] : List UInt8).count 10 < 2 ^ 32 - 1 := by decide
  obtain ⟨hanswers, -, -, hlines⟩ := askAll_eq_charAnswers ⟨0, "p.go"⟩ [0x61, 10, 0xFF] [.peek 2, .location, .consume, .consume, .location]
  have htext : dropMark ((segments [0x61, 10, 0xFF]).filterMap rune?) = ['a', '\n'] := by decide +kernel
  rw [htext] at hanswers
  exact ⟨hfew, hanswers, (hlines hfew).1⟩

end RuneReader

end GoSyntax
