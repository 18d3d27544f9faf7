import GoSyntax.Rune
import GoSyntax.Proofs.Context.Feeds
import GoSyntax.Proofs.Context.Lexemes

/-!
# A line break keeps characters apart

No character goes over a line feed, and no sequence that is refused does, since the bytes that continue one are none. So the places of a
source are the places up to a line feed and those behind it. Where they are behind it depends on how many line feeds there are before.
-/

namespace GoSyntax

namespace Utf8

variable {n bits value : Nat} {bytes rest : List UInt8} {c : Char}

/-! ## Bytes in front of a line feed -/

theorem readTail_append (n bits : Nat) (bytes more : List UInt8) :
    readTail n bits (bytes ++ 10 :: more) = ((readTail n bits bytes).1, (readTail n bits bytes).2 ++ 10 :: more) := by
  induction n generalizing bits bytes with
  | zero => rfl
  | succ n ih =>
    cases bytes with
    | nil => rfl
    | cons b bytes =>
      rw [List.cons_append, readTail, readTail]
      split
      · exact ih _ _
      · rfl

theorem readScalar_append (b : UInt8) (bytes more : List UInt8) :
    readScalar (b :: (bytes ++ 10 :: more)) = ((readScalar (b :: bytes)).1, (readScalar (b :: bytes)).2 ++ 10 :: more) := by
  rw [readScalar, readScalar]
  cases lead? b with
  | none => rfl
  | some lead =>
    dsimp only
    rw [readTail_append]
    rcases readTail lead.tail lead.bits bytes with ⟨_ | value, rest⟩ <;> rfl

/-- Before a line feed a character is read, or one is refused, as at the end of the bytes. -/
theorem next_append (bytes more : List UInt8) : next (bytes ++ 10 :: more)
    = ((next bytes).1, some ((next bytes).2.elim ('\n', more) fun (c, rest) => (c, rest ++ 10 :: more))) := by
  induction hn : bytes.length using Nat.strongRecOn generalizing bytes with
  | ind n ih =>
    subst hn
    cases bytes with
    | nil =>
      rw [next_nil, List.nil_append, next_cons_of_some rfl]
      rfl
    | cons b bytes =>
      have hread := readScalar_append b bytes more
      rcases hr : readScalar (b :: bytes) with ⟨_ | c, rest⟩
      · have hshort := Nat.lt_succ_of_le (Nat.le_trans (length_resync_le _) (hr ▸ length_readScalar_cons_le b bytes))
        have hresync : resync (rest ++ 10 :: more) = resync rest ++ 10 :: more := dropWhile_append_of_neg (by decide) rest more
        rw [hr] at hread
        rw [List.cons_append, next_cons_of_none hread, next_cons_of_none hr, hresync, ih _ hshort _ rfl]
      · rw [hr] at hread
        rw [List.cons_append, next_cons_of_some hread, next_cons_of_some hr]
        rfl

theorem eq_nil_of_next (h : next bytes = (0, none)) : bytes = [] := by
  cases bytes with
  | nil => rfl
  | cons b bytes =>
    rcases hr : readScalar (b :: bytes) with ⟨_ | c', rest'⟩
    · rw [next_cons_of_none hr] at h
      nomatch h
    · rw [next_cons_of_some hr] at h
      nomatch h

/-! ## Line feeds -/

theorem count_readTail (n bits : Nat) (bytes : List UInt8) : (readTail n bits bytes).2.count 10 = bytes.count 10 := by
  induction n generalizing bits bytes with
  | zero => rfl
  | succ n ih =>
    cases bytes with
    | nil => rfl
    | cons b bytes =>
      rw [readTail]
      split
      · next hb =>
        have hne : b ≠ 10 := by
          rintro rfl
          exact absurd hb (by decide)
        rw [List.count_cons_of_ne hne]
        exact ih _ _
      · rfl

theorem count_readScalar (b : UInt8) (bytes : List UInt8) : (readScalar (b :: bytes)).2.count 10 = bytes.count 10 := by
  rw [readScalar]
  cases lead? b with
  | none => rfl
  | some lead =>
    have hcount := count_readTail lead.tail lead.bits bytes
    dsimp only
    split <;> next hread => rwa [hread] at hcount

/-- No line feed is skipped. -/
theorem count_resync (bytes : List UInt8) : (resync bytes).count 10 = bytes.count 10 := by
  induction bytes with
  | nil => rfl
  | cons b bytes ih =>
    rw [resync, List.dropWhile_cons]
    split
    · next hb =>
      have hne : b ≠ 10 := by
        rintro rfl
        exact absurd hb (by decide)
      rw [List.count_cons_of_ne hne]
      exact ih
    · rfl

/-- A first byte is the whole character, or neither the byte nor the character is in the first half of the bytes. -/
theorem lead?_cases {b : UInt8} {lead : Lead} (h : lead? b = some lead) :
    lead = ⟨0, b.toNat, 0⟩ ∨ 128 ≤ b.toNat ∧ 128 ≤ lead.least := by
  have hhigh : ¬b < 0x80 → 128 ≤ b.toNat := fun h => Nat.le_of_not_lt fun hlt => h (UInt8.lt_iff_toNat_lt.2 hlt)
  unfold lead? at h
  split at h
  · exact .inl (Option.some.inj h).symm
  · next hb =>
    refine .inr ⟨hhigh hb, ?_⟩
    split at h
    · nomatch h
    · split at h
      · exact Option.some.inj h ▸ Nat.le_refl _
      · split at h
        · exact Option.some.inj h ▸ (by decide : 128 ≤ 0x800)
        · split at h
          · exact Option.some.inj h ▸ (by decide : 128 ≤ 0x10000)
          · nomatch h

/-- A character is the line feed exactly if its first byte is one. -/
theorem eq_lineFeed_iff {b : UInt8} (h : readScalar (b :: bytes) = (some c, rest)) : b = 10 ↔ c = '\n' := by
  have hbreak : c = '\n' ↔ c.toNat = 10 := ⟨by rintro rfl; rfl, fun h => Char.ext (UInt32.toNat_inj.1 h)⟩
  have hb : b = 10 ↔ b.toNat = 10 := UInt8.toNat_inj.symm
  rw [readScalar] at h
  cases hlead : lead? b with
  | none =>
    rw [hlead] at h
    cases h
  | some lead =>
    rw [hlead] at h
    dsimp only at h
    split at h
    · next value rest' htail =>
      obtain ⟨hleast, hvalue⟩ := scalar?_eq_some_iff.1 (Prod.mk.inj h).1
      rw [hbreak, hb, hvalue]
      rcases lead?_cases hlead with rfl | ⟨hhigh, hhigh'⟩
      · rw [readTail] at htail
        rw [← Option.some.inj (Prod.mk.inj htail).1]
      · omega
    · cases h

/-- The line feeds of bytes, from those behind the first character. -/
theorem count_next (bytes : List UInt8) :
    bytes.count 10 = (next bytes).2.elim 0 fun (c, rest) => rest.count 10 + if c = '\n' then 1 else 0 := by
  induction hn : bytes.length using Nat.strongRecOn generalizing bytes with
  | ind n ih =>
    subst hn
    cases bytes with
    | nil =>
      rw [next_nil]
      rfl
    | cons b bytes =>
      have hcount := count_readScalar b bytes
      rcases hr : readScalar (b :: bytes) with ⟨_ | c, rest⟩
      · have hshort := Nat.lt_succ_of_le (Nat.le_trans (length_resync_le _) (hr ▸ length_readScalar_cons_le b bytes))
        have hne : b ≠ 10 := by
          rintro rfl
          nomatch hr
        rw [hr] at hcount
        rw [next_cons_of_none hr, List.count_cons_of_ne hne, ← hcount, ← count_resync]
        exact ih _ hshort _ rfl
      · rw [hr] at hcount
        rw [next_cons_of_some hr, List.count_cons, ← hcount]
        simp only [beq_iff_eq, eq_lineFeed_iff hr]
        rfl

end Utf8

/-! ## Sources -/

namespace Undecoded

variable {path : SourcePath} {bytes rest : List UInt8} {line refused : Nat} {atStart : Bool} {c : Char}

/-- Only a byte order mark is treated apart, and only at the start. -/
theorem nextRune_of_ne_mark (h : atStart = true → (Utf8.next bytes).2.map Prod.fst ≠ some byteOrderMark) :
    nextRune ⟨path, bytes, line, atStart⟩ = Utf8.next bytes := by
  unfold nextRune
  rcases hnext : Utf8.next bytes with ⟨refused, _ | ⟨c, rest⟩⟩
  · rfl
  · rw [hnext] at h
    refine if_neg fun hmark => ?_
    obtain ⟨hstart, heq⟩ := Bool.and_eq_true_iff.1 hmark
    exact h hstart (congrArg some (eq_of_beq heq))

/-- The next character is the first one that is read, or the second one behind a byte order mark. -/
theorem nextRune_cases (u : Undecoded) :
    u.nextRune = Utf8.next u.bytes ∧ (u.atStart = true → (Utf8.next u.bytes).2.map Prod.fst ≠ some byteOrderMark)
    ∨ ∃ n rest, u.atStart = true ∧ Utf8.next u.bytes = (n, some (byteOrderMark, rest))
      ∧ u.nextRune = (n + (Utf8.next rest).1, (Utf8.next rest).2) := by
  obtain ⟨path, bytes, line, atStart⟩ := u
  by_cases hmark : atStart = true → (Utf8.next bytes).2.map Prod.fst ≠ some byteOrderMark
  · exact .inl ⟨nextRune_of_ne_mark hmark, hmark⟩
  · obtain ⟨rfl, hfirst⟩ := Decidable.not_imp_iff_and_not.1 hmark
    obtain ⟨⟨c, rest⟩, hsome, rfl⟩ := Option.map_eq_some_iff.1 (Decidable.not_not.1 hfirst)
    have hnext : Utf8.next bytes = ((Utf8.next bytes).1, some (byteOrderMark, rest)) := Prod.ext rfl hsome
    refine .inr ⟨(Utf8.next bytes).1, rest, rfl, hnext, ?_⟩
    rw [nextRune, hnext]
    rfl

/-- Before a line feed a character is handed on, or one is refused, as at the end of a source. -/
theorem nextRune_append (path : SourcePath) (bytes : List UInt8) (line : Nat) (atStart : Bool) (more : List UInt8) :
    nextRune ⟨path, bytes ++ 10 :: more, line, atStart⟩ = ((nextRune ⟨path, bytes, line, atStart⟩).1,
      some ((nextRune ⟨path, bytes, line, atStart⟩).2.elim ('\n', more) fun (c, rest) => (c, rest ++ 10 :: more))) := by
  have happend := Utf8.next_append bytes more
  rcases nextRune_cases ⟨path, bytes, line, atStart⟩ with ⟨hrune, hmark⟩ | ⟨n, rest, rfl, hnext, hrune⟩
  · rw [hrune, ← happend]
    refine nextRune_of_ne_mark fun hstart => ?_
    rw [happend]
    rcases hfound : (Utf8.next bytes).2 with _ | ⟨c, rest⟩
    · exact fun h => absurd (Option.some.inj h) (by decide : '\n' ≠ byteOrderMark)
    · have hne := hmark hstart
      dsimp only at hne
      rwa [hfound] at hne
  · dsimp only at hnext
    rw [hnext] at happend
    rw [hrune, nextRune, happend]
    exact congrArg (fun p => (n + p.1, p.2)) (Utf8.next_append rest more)

/-- The line feeds of bytes, from those behind the character that is handed on; a byte order mark is none. -/
theorem count_nextRune (u : Undecoded) :
    u.bytes.count 10 = u.nextRune.2.elim 0 fun (c, rest) => rest.count 10 + if c = '\n' then 1 else 0 := by
  have hcount := Utf8.count_next u.bytes
  rcases nextRune_cases u with ⟨hrune, -⟩ | ⟨n, rest, -, hnext, hrune⟩
  · rw [hrune, ← hcount]
  · rw [hnext] at hcount
    rw [hrune]
    exact hcount.trans (Utf8.count_next rest)

/-- A line feed that is handed on counts for the line of what is behind it. -/
theorem line_nextRune (h : nextRune ⟨path, bytes, line, atStart⟩ = (refused, some (c, rest))) :
    lineAfter c line + rest.count 10 = line + bytes.count 10 := by
  have hcount := count_nextRune ⟨path, bytes, line, atStart⟩
  rw [h] at hcount
  change bytes.count 10 = rest.count 10 + _ at hcount
  rw [hcount, lineAfter]
  split <;> omega

theorem notes_move {shift : Location → Location} {u u' : Undecoded} (h : shift ⟨u.path, u.line⟩ = ⟨u'.path, u'.line⟩) (refused : Nat) :
    u'.notes refused = (u.notes refused).map (Diagnostic.move shift) := by
  rw [notes, notes, List.map_replicate, Diagnostic.move, h]

end Undecoded

/-- A place further down. -/
def Place.down (lines : Nat) (p : Place) : Place := ⟨p.char, p.line + lines⟩

namespace Feed

open Undecoded

/-- Where nothing is refused, the next character has nothing to report. -/
theorem nextRune_of_pending {u : Undecoded} (h : (ofUndecoded u).pending = []) : u.nextRune.1 = 0 := by
  rcases hnext : u.nextRune with ⟨refused, _ | ⟨c, rest⟩⟩
  · rw [ofUndecoded_of_none hnext] at h
    exact List.replicate_eq_nil_iff _ |>.1 h
  · rw [ofUndecoded_of_some hnext, pending_cons] at h
    exact List.replicate_eq_nil_iff _ |>.1 (List.append_eq_nil_iff.1 h).1

variable (path : SourcePath)

/-- The places of a source, then a line feed, then the places behind it. What is refused at the end is reported with the line feed. -/
theorem ofUndecoded_append (bytes more : List UInt8) (line : Nat) (atStart : Bool) :
    ofUndecoded ⟨path, bytes ++ 10 :: more, line, atStart⟩
      = ((ofUndecoded ⟨path, more, line + bytes.count 10 + 1, false⟩).cons
          ⟨⟨some '\n', line + bytes.count 10⟩, (ofUndecoded ⟨path, bytes, line, atStart⟩).last.notes⟩).behind
        (ofUndecoded ⟨path, bytes, line, atStart⟩).items := by
  induction hn : bytes.length using Nat.strongRecOn generalizing bytes line atStart with
  | ind n ih =>
    subst hn
    have happend := nextRune_append path bytes line atStart more
    rcases hnext : nextRune ⟨path, bytes, line, atStart⟩ with ⟨refused, _ | ⟨c, rest⟩⟩
    · have hcount := count_nextRune ⟨path, bytes, line, atStart⟩
      rw [hnext] at happend hcount
      obtain hcount : bytes.count 10 = 0 := hcount
      rw [ofUndecoded_of_none hnext, ofUndecoded_of_some happend, hcount]
      rfl
    · have hlt : rest.length < bytes.length := length_lt_of_nextRune (congrArg Prod.snd hnext)
      rw [hnext] at happend
      rw [ofUndecoded_of_some hnext, ofUndecoded_of_some happend]
      dsimp only [Option.elim_some]
      rw [ih _ hlt _ _ _ rfl, line_nextRune hnext]
      rfl

/-- The end of a source is as many lines down as there are line feeds. -/
theorem last_ofUndecoded (u : Undecoded) : (ofUndecoded u).last.value = ⟨none, u.line + u.bytes.count 10⟩ := by
  induction u using ofUndecoded.induct with
  | case1 u refused c rest hshort hnext ih =>
    rw [ofUndecoded_of_some hnext]
    exact ih.trans (congrArg (Place.mk none) (line_nextRune hnext))
  | case2 u refused hshort hnext =>
    rw [ofUndecoded_of_none hnext, count_nextRune u, hnext]
    rfl

/-- There is a character at every place before the end. -/
theorem length_chars_ofUndecoded (u : Undecoded) : (ofUndecoded u).chars.length = (ofUndecoded u).items.length := by
  induction u using ofUndecoded.induct with
  | case1 u refused c rest hshort hnext ih =>
    rw [ofUndecoded_of_some hnext]
    exact congrArg Nat.succ ih
  | case2 u refused hshort hnext =>
    rw [ofUndecoded_of_none hnext]
    rfl

theorem chars_down (n : Nat) (note : Diagnostic → Diagnostic) (f : Feed Place) : (f.relabel (Place.down n) note).chars = f.chars := by
  rw [chars, relabel, List.filterMap_map]
  rfl

/-- The same bytes elsewhere make the same places elsewhere: `shift` says what becomes of the lines. -/
theorem ofUndecoded_move {shift : Location → Location} {n : Nat} (u : Undecoded) {path : SourcePath}
    (hshift : ∀ line, shift ⟨u.path, line⟩ = ⟨path, line + n⟩) :
    ofUndecoded ⟨path, u.bytes, u.line + n, u.atStart⟩ = (ofUndecoded u).relabel (Place.down n) (Diagnostic.move shift) := by
  induction u using ofUndecoded.induct with
  | case1 u refused c rest hshort hnext ih =>
    have hmoved : nextRune ⟨path, u.bytes, u.line + n, u.atStart⟩ = (refused, some (c, rest)) := hnext
    have hline : lineAfter c (u.line + n) = lineAfter c u.line + n := by
      rw [lineAfter, lineAfter]
      split
      · rw [Nat.add_right_comm]
      · rfl
    rw [ofUndecoded_of_some hnext, ofUndecoded_of_some hmoved, ← cons_relabel, notes_move (hshift _), hline, Noted.relabel]
    exact congrArg (Feed.cons _) (ih hshift)
  | case2 u refused hshort hnext =>
    have hmoved : nextRune ⟨path, u.bytes, u.line + n, u.atStart⟩ = (refused, none) := hnext
    rw [ofUndecoded_of_none hnext, ofUndecoded_of_none hmoved, notes_move (hshift _)]
    rfl

/-- It makes no difference whether bytes stand at the start of a source, unless they start with a byte order mark. -/
theorem ofUndecoded_atStart {bytes : List UInt8} (h : (Utf8.next bytes).2.map Prod.fst ≠ some byteOrderMark) (line : Nat) (atStart : Bool) :
    ofUndecoded ⟨path, bytes, line, atStart⟩ = ofUndecoded ⟨path, bytes, line, false⟩ := by
  have hsame : nextRune ⟨path, bytes, line, atStart⟩ = nextRune ⟨path, bytes, line, false⟩ :=
    (nextRune_of_ne_mark fun _ => h).trans (nextRune_of_ne_mark fun _ => h).symm
  rcases hnext : nextRune ⟨path, bytes, line, false⟩ with ⟨refused, _ | ⟨c, rest⟩⟩
  · rw [ofUndecoded_of_none hnext, ofUndecoded_of_none (hsame.trans hnext)]
    rfl
  · rw [ofUndecoded_of_some hnext, ofUndecoded_of_some (hsame.trans hnext)]
    rfl

end Feed

end GoSyntax
