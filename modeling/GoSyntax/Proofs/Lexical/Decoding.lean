import GoSyntax.Proofs.Lexical.Segments
import GoSyntax.Proofs.OnDemand

/-!
# What a reader of characters gives

A reader takes one character after the other from the bytes that are left, and skips what is refused on its way. Taken all in all it gives
the characters of the segments of its source, without a byte order mark at their start, and then none for ever. What it reports is one
refusal for each segment that is not the bytes of a character and nothing else, on the line of the bytes that are refused.
-/

namespace GoSyntax

open Utf8

/-- Behind the start of a source a byte order mark is a character like any other. -/
theorem Undecoded.nextRune_behind (path : SourcePath) (bytes : List UInt8) (line : Nat) :
    nextRune ⟨path, bytes, line, false⟩ = Utf8.next bytes :=
  nextRune_of_ne_mark fun h => nomatch h

namespace Feed

open Undecoded

variable (path : SourcePath) {b : UInt8} {bytes rest : List UInt8} {c : Char} {line : Nat}

/-! ## One segment -/

theorem chars_noteFirst (due : List Diagnostic) (f : Feed Place) : (f.noteFirst due).chars = f.chars := by
  obtain ⟨items, last⟩ := f
  cases items <;> rfl

/-- A sequence that is refused is reported with the next character. -/
theorem ofUndecoded_of_refused (h : readScalar (b :: bytes) = (none, rest)) : ofUndecoded ⟨path, b :: bytes, line, false⟩
    = (ofUndecoded ⟨path, resync bytes, line, false⟩).noteFirst [⟨.illegalUtf8, ⟨path, line⟩⟩] := by
  have hnext := next_cons_of_none h
  rw [resync_of_readScalar h] at hnext
  rcases hrest : Utf8.next (resync bytes) with ⟨n, _ | ⟨c, rest⟩⟩
  · rw [hrest] at hnext
    rw [ofUndecoded_of_none ((nextRune_behind _ _ _).trans hnext), ofUndecoded_of_none ((nextRune_behind _ _ _).trans hrest)]
    rfl
  · rw [hrest] at hnext
    rw [ofUndecoded_of_some ((nextRune_behind _ _ _).trans hnext), ofUndecoded_of_some ((nextRune_behind _ _ _).trans hrest)]
    rfl

/-- A character that is read is handed on. -/
theorem ofUndecoded_of_read (h : readScalar (b :: bytes) = (some c, rest)) : ofUndecoded ⟨path, b :: bytes, line, false⟩
    = (ofUndecoded ⟨path, rest, lineAfter c line, false⟩).cons ⟨⟨some c, line⟩, []⟩ :=
  ofUndecoded_of_some ((nextRune_behind _ _ _).trans (next_cons_of_some h))

/-- A line feed is a character of its own, so a segment that gives none holds none. -/
theorem count_lineFeed_of_none (h : rune? (b :: bytes) = none) (hbytes : ∀ b ∈ bytes, isLeading b = false) : (b :: bytes).count 10 = 0 := by
  refine List.count_eq_zero.2 fun hmem => ?_
  rcases List.mem_cons.1 hmem with rfl | hmem
  · nomatch h
  · nomatch (hbytes _ hmem).symm.trans (by decide : isLeading 10 = true)

theorem count_lineFeed_encode (c : Char) : (String.utf8EncodeChar c).count 10 = if c = '\n' then 1 else 0 := by
  have hread := readScalar_encode c []
  rw [List.append_nil] at hread
  obtain ⟨b, tail, hbytes, -⟩ := encode_eq_cons c
  rw [hbytes] at hread ⊢
  rw [count_next, next_cons_of_some hread]
  exact Nat.zero_add _

/-! ## All segments -/

/-- What is refused, on the line of the bytes that are refused. -/
def refusals (before : List UInt8) (segs : List (List UInt8)) : List Diagnostic :=
  (beforeRefused before segs).map fun before => ⟨.illegalUtf8, ⟨path, 1 + before.count 10⟩⟩

/-- The characters of bytes that do not stand at the start of a source, and what is refused. -/
theorem ofUndecoded_segments (before bytes : List UInt8) :
    (ofUndecoded ⟨path, bytes, 1 + before.count 10, false⟩).chars = (segments bytes).filterMap rune?
      ∧ (ofUndecoded ⟨path, bytes, 1 + before.count 10, false⟩).pending = refusals path before (segments bytes) := by
  induction hn : bytes.length using Nat.strongRecOn generalizing before bytes with
  | ind n ih =>
    subst hn
    cases bytes with
    | nil =>
      rw [ofUndecoded_of_none ((nextRune_behind _ _ _).trans next_nil), segments_nil]
      exact ⟨rfl, rfl⟩
    | cons b bytes =>
      rcases hread : readScalar (b :: bytes) with ⟨_ | c, rest⟩
      · have hnone := rune?_segment b bytes (congrArg Prod.fst hread)
        obtain ⟨hspelled, hrefused⟩ := refused_of_none hnone
        have hcount := count_lineFeed_of_none hnone fun b hb => by simpa using List.all_eq_true.1 List.all_takeWhile b hb
        obtain ⟨hchars, hpending⟩ := ih _ (Nat.lt_succ_of_le (length_resync_le bytes))
          (before ++ b :: bytes.takeWhile fun b => !isLeading b) _ rfl
        rw [List.count_append, hcount, Nat.add_zero] at hchars hpending
        rw [ofUndecoded_of_refused path hread, chars_noteFirst, pending_noteFirst, hchars, hpending, segments_cons,
          List.filterMap_cons_none hnone, refusals, refusals, beforeRefused, hspelled, hrefused, if_neg (List.cons_ne_nil _ _),
          List.append_nil]
        exact ⟨rfl, rfl⟩
      · have hbytes := eq_encode_of_readScalar hread
        have hline : lineAfter c (1 + before.count 10) = 1 + (before ++ String.utf8EncodeChar c).count 10 := by
          rw [List.count_append, count_lineFeed_encode, lineAfter]
          split <;> omega
        have hshort : rest.length < (b :: bytes).length := length_lt_of_next (congrArg Prod.snd (next_cons_of_some hread))
        obtain ⟨hchars, hpending⟩ := ih _ hshort (before ++ String.utf8EncodeChar c) _ rfl
        obtain ⟨hrunes, hbefore⟩ := segments_encode c rest
        rw [ofUndecoded_of_read path hread, pending_cons, hline, hpending, hbytes, refusals, refusals, hrunes, hbefore, ← hchars]
        exact ⟨rfl, rfl⟩

/-- A byte order mark that comes first at the start of a source is a character anywhere else. -/
theorem ofUndecoded_mark (line : Nat) {n : Nat} (h : Utf8.next bytes = (n, some (byteOrderMark, rest))) :
    ofUndecoded ⟨path, bytes, line, true⟩
        = (ofUndecoded ⟨path, rest, line, false⟩).noteFirst (notes ⟨path, bytes, line, true⟩ n)
      ∧ ofUndecoded ⟨path, bytes, line, false⟩
        = (ofUndecoded ⟨path, rest, line, false⟩).cons ⟨⟨some byteOrderMark, line⟩, notes ⟨path, bytes, line, true⟩ n⟩ := by
  refine ⟨?_, ofUndecoded_of_some ((nextRune_behind _ _ _).trans h)⟩
  have hrune : nextRune ⟨path, bytes, line, true⟩ = (n + (Utf8.next rest).1, (Utf8.next rest).2) := by
    simp [nextRune, h]
  have hrest := nextRune_behind path rest line
  have hnotes : ∀ m, notes ⟨path, bytes, line, true⟩ (n + m)
      = notes ⟨path, bytes, line, true⟩ n ++ notes ⟨path, rest, line, false⟩ m := fun m => (List.replicate_append_replicate).symm
  rcases hnext : Utf8.next rest with ⟨m, _ | ⟨c, rest'⟩⟩
  · rw [hnext] at hrune hrest
    rw [ofUndecoded_of_none hrune, ofUndecoded_of_none hrest, hnotes]
    rfl
  · rw [hnext] at hrune hrest
    rw [ofUndecoded_of_some hrune, ofUndecoded_of_some hrest, hnotes]
    rfl

/-- The characters of a source, and what is refused. -/
theorem ofBytes_segments (bytes : List UInt8) : (ofBytes path bytes).chars = dropMark ((segments bytes).filterMap rune?)
    ∧ (ofBytes path bytes).pending = refusals path [] (segments bytes) := by
  obtain ⟨hchars, hpending⟩ := ofUndecoded_segments path [] bytes
  rw [← hchars, ← hpending]
  change (ofUndecoded ⟨path, bytes, 1, true⟩).chars = dropMark (ofUndecoded ⟨path, bytes, 1, false⟩).chars
    ∧ (ofUndecoded ⟨path, bytes, 1, true⟩).pending = (ofUndecoded ⟨path, bytes, 1, false⟩).pending
  by_cases hmark : (Utf8.next bytes).2.map Prod.fst = some byteOrderMark
  · obtain ⟨⟨c, rest⟩, hnext, rfl⟩ := Option.map_eq_some_iff.1 hmark
    obtain ⟨hstart, helse⟩ := ofUndecoded_mark path 1 (Prod.ext rfl hnext)
    rw [hstart, helse, chars_noteFirst, pending_noteFirst, pending_cons]
    exact ⟨rfl, rfl⟩
  · rw [ofUndecoded_atStart path hmark]
    refine ⟨?_, rfl⟩
    have hrune := nextRune_behind path bytes 1
    rcases hnext : Utf8.next bytes with ⟨n, _ | ⟨c, rest⟩⟩
    · rw [ofUndecoded_of_none (hrune.trans hnext)]
      rfl
    · rw [hnext] at hmark
      have hc : c ≠ byteOrderMark := fun h => hmark (congrArg some h)
      rw [ofUndecoded_of_some (hrune.trans hnext)]
      exact (if_neg hc).symm

/-- There is a character at each place before the end, and none at the end. -/
theorem char_peek_ofUndecoded (u : Undecoded) (i : Nat) : ((ofUndecoded u).peek i).char = (ofUndecoded u).chars[i]? := by
  induction u using ofUndecoded.induct generalizing i with
  | case1 u refused c rest hshort hnext ih =>
    rw [ofUndecoded_of_some hnext]
    cases i with
    | zero => rfl
    | succ i => exact ih i
  | case2 u refused hshort hnext =>
    rw [ofUndecoded_of_none hnext]
    rfl

end Feed

/-! ## Taking characters -/

/-- The next character is the first of those to come, and leaves the others. -/
theorem Undecoded.next_spec (u : Undecoded) :
    u.next.1 = (Feed.ofUndecoded u).head ∧ Feed.ofUndecoded u.next.2 = ((Feed.ofUndecoded u).look 1).2.tail := by
  rcases hnext : u.nextRune with ⟨refused, _ | ⟨c, rest⟩⟩
  · have hnil : Feed.ofUndecoded ⟨u.path, [], u.line, false⟩ = ⟨[], ⟨⟨none, u.line⟩, []⟩⟩ :=
      Feed.ofUndecoded_of_none ((nextRune_behind _ _ _).trans next_nil)
    simp only [next, hnext, Feed.ofUndecoded_of_none hnext, hnil]
    exact ⟨rfl, rfl⟩
  · simp only [next, hnext, Feed.ofUndecoded_of_some hnext]
    exact ⟨rfl, rfl⟩

theorem Undecoded.next_past {u : Undecoded} {f : Feed Place} {n : Nat} (h : Feed.ofUndecoded u = f.past n) :
    u.next.1 = f.item n ∧ Feed.ofUndecoded u.next.2 = f.past (n + 1) := by
  obtain ⟨hmade, hrest⟩ := u.next_spec
  rw [hmade, hrest, h]
  exact ⟨f.head_past n, f.past_succ n⟩

namespace RuneReader

/-- The answers to so many requests for the next character, and the reader after them. -/
def consumeBy : Nat → RuneReader → List (Option Char) × RuneReader
  | 0, r => ([], r)
  | n + 1, r => (r.consume.1 :: (consumeBy n r.consume.2).1, (consumeBy n r.consume.2).2)

/-- A reader without a look ahead takes the characters one by one, and reports what it meets on its way. -/
theorem consumeBy_past {f : Feed Place} {m : Nat} (n : Nat) {u : Undecoded} (log : Array Diagnostic) (h : Feed.ofUndecoded u = f.past m) :
    (consumeBy n ⟨u, [], log⟩).1 = (List.range' m n).map (fun i => (f.peek i).char)
      ∧ (consumeBy n ⟨u, [], log⟩).2.log.toList = log.toList ++ f.notesBetween m (m + n)
      ∧ Feed.ofUndecoded (consumeBy n ⟨u, [], log⟩).2.state = f.past (m + n) := by
  induction n generalizing u log m with
  | zero => exact ⟨rfl, by simp [consumeBy], h⟩
  | succ n ih =>
    obtain ⟨hmade, hrest⟩ := Undecoded.next_past h
    have hconsume : RuneReader.consume ⟨u, [], log⟩ = (u.next.1.value.char, ⟨u.next.2, [], log ++ u.next.1.notes⟩) := rfl
    obtain ⟨hanswers, hlog, hstate⟩ := ih (log ++ u.next.1.notes) hrest
    rw [consumeBy, hconsume, List.range'_succ, List.map_cons, f.peek_eq_item, ← hmade, show m + (n + 1) = m + 1 + n by omega]
    refine ⟨congrArg (_ :: ·) hanswers, hlog.trans ?_, hstate⟩
    rw [Array.toList_appendList, List.append_assoc, hmade, ← f.notesBetween_append (Nat.le_succ m) (Nat.le_add_right (m + 1) n),
      f.notesBetween_succ (Nat.le_refl m), f.notesBetween_self, List.nil_append]

/-- Behind the first character a reader is not at the start of its source. -/
theorem atStart_consumeBy (n : Nat) (u : Undecoded) (log : Array Diagnostic) :
    (consumeBy (n + 1) ⟨u, [], log⟩).2.state.atStart = false := by
  induction n generalizing u log with
  | zero =>
    change u.next.2.atStart = false
    unfold Undecoded.next
    split <;> rfl
  | succ n ih => exact ih u.next.2 (log ++ u.next.1.notes)

/-- Where no character comes and nothing is refused, no byte is left. -/
theorem bytes_eq_nil {u : Undecoded} (hstart : u.atStart = false) (hitems : (Feed.ofUndecoded u).items = [])
    (hpending : (Feed.ofUndecoded u).pending = []) : u.bytes = [] := by
  obtain ⟨path, bytes, line, atStart⟩ := u
  obtain rfl : atStart = false := hstart
  have hzero := Feed.nextRune_of_pending hpending
  rw [Undecoded.nextRune_behind] at hzero
  rcases hnext : Utf8.next bytes with ⟨n, _ | ⟨c, rest⟩⟩
  · rw [hnext] at hzero
    obtain rfl : n = 0 := hzero
    exact eq_nil_of_next hnext
  · rw [Feed.ofUndecoded_of_some ((Undecoded.nextRune_behind _ _ _).trans hnext)] at hitems
    nomatch hitems

/-- Taken from the start of a source, the characters come one by one, and then there is none; once the end has been met, all that is refused
has been reported and no byte is left. -/
theorem consumeBy_ofBytes (path : SourcePath) (bytes : List UInt8) (n : Nat) :
    (consumeBy n (ofBytes path bytes)).1 = (List.range n).map (fun i => (Feed.ofBytes path bytes).chars[i]?)
      ∧ (consumeBy ((Feed.ofBytes path bytes).chars.length + 1 + n) (ofBytes path bytes)).2.log.toList = (Feed.ofBytes path bytes).pending
      ∧ (consumeBy ((Feed.ofBytes path bytes).chars.length + 1 + n) (ofBytes path bytes)).2.state.bytes = [] := by
  have hstart : Feed.ofUndecoded (.ofBytes path bytes) = (Feed.ofBytes path bytes).past 0 := rfl
  have hlength : (Feed.ofBytes path bytes).chars.length = (Feed.ofBytes path bytes).items.length := Feed.length_chars_ofUndecoded _
  obtain ⟨-, hlog, hstate⟩ := consumeBy_past ((Feed.ofBytes path bytes).chars.length + 1 + n) #[] hstart
  rw [Nat.zero_add, Feed.past, List.drop_eq_nil_of_le (by omega), if_neg (by omega)] at hstate
  refine ⟨?_, hlog.trans ((List.nil_append _).trans (Feed.notesBetween_eq_pending _ (by omega))), bytes_eq_nil ?_ ?_ ?_⟩
  · rw [List.range_eq_range']
    refine ((consumeBy_past n #[] hstart).1).trans (List.map_congr_left fun i _ => ?_)
    exact Feed.char_peek_ofUndecoded _ i
  · rw [Nat.add_right_comm]
    exact atStart_consumeBy _ _ _
  · exact congrArg Feed.items hstate
  · exact congrArg Feed.pending hstate

theorem ascii_dropMark (cs : List Char) : (dropMark cs).filter (·.toNat < 0x80) = cs.filter (·.toNat < 0x80) := by
  cases cs with
  | nil => rfl
  | cons c cs =>
    rw [dropMark]
    split
    · next hc =>
      subst hc
      rfl
    · rfl

/-- A reader decodes segment by segment. A segment gives a character exactly if it starts with the bytes of one, and the characters come
in order, a byte order mark at the very start apart; after the last of them there is none and no byte is left. Then one refusal has been
reported for each segment that is not the bytes of a character and nothing else, on the line of the bytes that are refused. So nothing is
reported exactly of the bytes of a text, which is then what is read; and of ASCII there is read what there is. -/
theorem consumeBy_segments (path : SourcePath) (bytes : List UInt8) :
    (∀ seg c, rune? seg = some c ↔ String.utf8EncodeChar c <+: seg)
      ∧ (∀ seg, refused seg = [] ↔ seg = [] ∨ ∃ c, seg = String.utf8EncodeChar c)
      ∧ (∀ n, (consumeBy n (ofBytes path bytes)).1
          = (List.range n).map fun i => (dropMark ((segments bytes).filterMap rune?))[i]?)
      ∧ (∀ n, (consumeBy ((dropMark ((segments bytes).filterMap rune?)).length + 1 + n) (ofBytes path bytes)).2.log.toList
            = (beforeRefused [] (segments bytes)).map (fun before => ⟨.illegalUtf8, ⟨path, 1 + before.count 10⟩⟩)
          ∧ (consumeBy ((dropMark ((segments bytes).filterMap rune?)).length + 1 + n) (ofBytes path bytes)).2.state.bytes = [])
      ∧ (∀ text, bytes = encode text ↔ beforeRefused [] (segments bytes) = [] ∧ (segments bytes).filterMap rune? = text)
      ∧ (dropMark ((segments bytes).filterMap rune?)).filter (·.toNat < 0x80) = (bytes.filter (· < 0x80)).map Char.ofUInt8 := by
  obtain ⟨hchars, hpending⟩ := Feed.ofBytes_segments path bytes
  have hread := consumeBy_ofBytes path bytes
  rw [hchars, hpending] at hread
  refine ⟨fun _ _ => rune?_eq_some_iff, fun _ => refused_eq_nil_iff, fun n => (hread n).1, fun n => (hread n).2, fun _ => eq_encode_iff, ?_⟩
  rw [ascii_dropMark]
  exact ascii_segments bytes

end RuneReader

end GoSyntax
