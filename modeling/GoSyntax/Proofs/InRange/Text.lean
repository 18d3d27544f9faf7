import Mathlib.Algebra.Group.Nat.Defs
import GoSyntax.Rune

/-!
# Code points and lines stay in range

A text is decoded by an automaton over 32-bit words: it reads a first byte, shifts the bits of continuation bytes in, and refuses
the sequence or is done with a code point. The word never loses bits, and a code point that the automaton is done with is always that
of a character, so no text is taken to end in the middle. Lines are counted in 32-bit words as well, which is enough for a source
that is shorter than `2 ^ 31` bytes.
-/

namespace GoSyntax

namespace Utf8

/-! ## The automaton -/

/-- The automaton before a character, in the middle of one with so many continuation bytes to come, or behind it. -/
inductive DecoderState where
  | leading
  | continuation (remaining : UInt8) (value least : UInt32)
  | done (value : UInt32)

namespace DecoderState

/-- The number of steps that the automaton can still make. -/
def weight : DecoderState → List UInt8 → Nat
  | leading, bytes => 2 * bytes.length
  | continuation _ _ _, bytes => 2 * bytes.length + 1
  | done _, _ => 0

end DecoderState

/-- One more refused sequence before what is decoded next. -/
def refuse {α : Type} (r : Nat × α) : Nat × α := (r.1 + 1, r.2)

/-- Decodes up to the next code point: the number of refused sequences before it, and the code point with the bytes after it. -/
def decode : DecoderState → List UInt8 → Nat × Option (UInt32 × List UInt8)
  | .done value, bytes => (0, some (value, bytes))
  | .leading, [] => (0, none)
  | .leading, b :: bytes =>
    if b ≤ 0x7F then (0, some (b.toUInt32, bytes))
    else if 0xC0 ≤ b ∧ b ≤ 0xDF then decode (.continuation 1 (b &&& 0x1F).toUInt32 0x80) bytes
    else if 0xE0 ≤ b ∧ b ≤ 0xEF then decode (.continuation 2 (b &&& 0x0F).toUInt32 0x800) bytes
    else if 0xF0 ≤ b ∧ b ≤ 0xF7 then decode (.continuation 3 (b &&& 0x07).toUInt32 0x10000) bytes
    else refuse (decode .leading (resync bytes))
  | .continuation _ _ _, [] => refuse (decode .leading [])
  | .continuation remaining value least, b :: bytes =>
    if b &&& 0xC0 = 0x80 then
      let value := value <<< 6 ||| (b &&& 0x3F).toUInt32
      if remaining = 1 then
        if value < least ∨ (0xD800 ≤ value ∧ value ≤ 0xDFFF) ∨ 0x10FFFF < value then refuse (decode .leading (resync bytes))
        else decode (.done value) bytes
      else decode (.continuation (remaining - 1) value least) bytes
    else refuse (decode .leading (resync (b :: bytes)))
termination_by s bytes => s.weight bytes
decreasing_by
  all_goals simp only [DecoderState.weight, List.length_cons]
  · omega
  · omega
  · omega
  · have := length_resync_le bytes
    omega
  · exact Nat.lt_succ_self _
  · have := length_resync_le bytes
    omega
  · omega
  · omega
  · have := length_resync_le (b :: bytes)
    rw [List.length_cons] at this
    omega

/-- The character of a code point, if it is one. -/
def charOf? (value : UInt32) : Option Char := if h : value.isValidChar then some ⟨value, h⟩ else none

theorem charOf?_val (c : Char) : charOf? c.val = some c := dif_pos c.valid

/-! ## The automaton reads what UTF-8 spells -/

theorem isContinuation_iff (b : UInt8) : b &&& 0xC0 = 0x80 ↔ isContinuation b = true := by
  have h : ∀ v : BitVec 8, (⟨v⟩ : UInt8) &&& 0xC0 = 0x80 ↔ isContinuation ⟨v⟩ = true := by decide
  exact h b.toBitVec

theorem toNat_and_mask (b : UInt8) : (b &&& 0x3F).toNat = b.toNat % 64 := by
  rw [UInt8.toNat_and]
  exact Nat.and_two_pow_sub_one_eq_mod b.toNat 6

/-- Shifting six bits in loses none as long as there is room for them. -/
theorem toNat_shiftIn {value : UInt32} (b : UInt8) (h : value.toNat < 2 ^ 26) :
    (value <<< 6 ||| (b &&& 0x3F).toUInt32).toNat = value.toNat * 64 + b.toNat % 64 := by
  have hshift : (value <<< 6).toNat = value.toNat <<< 6 := by
    rw [UInt32.toNat_shiftLeft]
    change value.toNat <<< 6 % 2 ^ 32 = _
    rw [Nat.shiftLeft_eq, Nat.mod_eq_of_lt (by omega)]
  have hlow : b.toNat % 64 < 2 ^ 6 := Nat.mod_lt _ (by decide)
  rw [UInt32.toNat_or, hshift, UInt8.toNat_toUInt32, toNat_and_mask, ← Nat.shiftLeft_add_eq_or_of_lt hlow, Nat.shiftLeft_eq]

/-- The automaton refuses the code points that are no characters or need fewer bytes. -/
theorem refuses_iff (least value : UInt32) :
    (value < least ∨ (0xD800 ≤ value ∧ value ≤ 0xDFFF) ∨ 0x10FFFF < value) ↔ scalar? least.toNat value.toNat = none := by
  have hvalid : value.toNat.isValidChar ↔ value.toNat < 0xD800 ∨ 0xDFFF < value.toNat ∧ value.toNat < 0x110000 := Iff.rfl
  rw [scalar?_eq_none_iff, hvalid]
  simp only [UInt32.lt_iff_toNat_lt, UInt32.le_iff_toNat_le, UInt32.reduceToNat]
  omega

theorem val_of_scalar? {least : Nat} {value : UInt32} {c : Char} (h : scalar? least value.toNat = some c) : c.val = value :=
  UInt32.toNat_inj.1 (scalar?_eq_some_iff.1 h).2

/-- What the automaton makes of a character or a refusal. -/
def outcome : Option Char × List UInt8 → Nat × Option (UInt32 × List UInt8)
  | (some c, rest) => (0, some (c.val, rest))
  | (none, rest) => refuse (decode .leading (resync rest))

/-- Where the character does not go on, the automaton refuses it, as the reader of the tail does. -/
theorem decode_of_broken {n : Nat} {remaining : UInt8} {value least : UInt32} {bytes : List UInt8}
    (h : ¬∃ b rest, bytes = b :: rest ∧ b &&& 0xC0 = 0x80) :
    decode (.continuation remaining value least) bytes = outcome (none, bytes)
      ∧ readTail (n + 1) value.toNat bytes = (none, bytes) := by
  cases bytes with
  | nil =>
    rw [decode]
    exact ⟨rfl, rfl⟩
  | cons b rest =>
    have hb : ¬b &&& 0xC0 = 0x80 := fun hb => h ⟨b, rest, rfl, hb⟩
    rw [decode, if_neg hb, readTail, if_neg fun hcontinues => hb ((isContinuation_iff b).2 hcontinues)]
    exact ⟨rfl, rfl⟩

/-- With the last byte of a character the code point is checked. -/
theorem decode_last {value least : UInt32} {b : UInt8} {bytes : List UInt8} (hb : b &&& 0xC0 = 0x80) (hroom : value.toNat < 2 ^ 26) :
    decode (.continuation 1 value least) (b :: bytes) = outcome (scalar? least.toNat (value.toNat * 64 + b.toNat % 64), bytes) := by
  rw [decode, if_pos hb, if_pos rfl]
  simp only [← toNat_shiftIn b hroom]
  generalize value <<< 6 ||| (b &&& 0x3F).toUInt32 = v
  by_cases href : v < least ∨ (0xD800 ≤ v ∧ v ≤ 0xDFFF) ∨ 0x10FFFF < v
  · rw [if_pos href, (refuses_iff least v).1 href]
    rfl
  · rw [if_neg href, decode]
    obtain ⟨c, hc⟩ := Option.ne_none_iff_exists'.1 fun h => href ((refuses_iff least v).2 h)
    rw [hc, outcome, val_of_scalar? hc]

/-- Where there is room for more bytes, there is room for one. -/
theorem lt_of_room {value n : Nat} (h : (value + 1) * 64 ^ n ≤ 2 ^ 26) : value < 2 ^ 26 :=
  Nat.le_trans (Nat.le_mul_of_pos_right _ (Nat.pow_pos (by decide))) h

/-- In the middle of a character the automaton reads the continuation bytes and checks the code point. -/
theorem decode_continuation {n : Nat} {remaining : UInt8} {value least : UInt32} {bytes : List UInt8}
    (hn : remaining.toNat = n + 1) (hvalue : (value.toNat + 1) * 64 ^ n ≤ 2 ^ 26) :
    decode (.continuation remaining value least) bytes = outcome (match readTail (n + 1) value.toNat bytes with
      | (some v, rest) => (scalar? least.toNat v, rest)
      | (none, rest) => (none, rest)) := by
  induction n generalizing remaining value bytes with
  | zero =>
    obtain rfl : remaining = 1 := UInt8.toNat_inj.1 hn
    by_cases hnext : ∃ b rest, bytes = b :: rest ∧ b &&& 0xC0 = 0x80
    · obtain ⟨b, rest, rfl, hb⟩ := hnext
      rw [decode_last hb (lt_of_room hvalue), readTail, if_pos ((isContinuation_iff b).1 hb), readTail]
    · obtain ⟨hdecode, htail⟩ := decode_of_broken hnext
      rw [hdecode, htail]
  | succ n ih =>
    by_cases hnext : ∃ b rest, bytes = b :: rest ∧ b &&& 0xC0 = 0x80
    · obtain ⟨b, rest, rfl, hb⟩ := hnext
      have hroom := lt_of_room hvalue
      have hmore : remaining ≠ 1 := by
        rintro rfl
        exact Nat.succ_ne_zero n (Nat.succ.inj hn).symm
      rw [decode, readTail, if_pos hb, if_pos ((isContinuation_iff b).1 hb), if_neg hmore, ← toNat_shiftIn b hroom]
      refine ih ?_ ?_
      · rw [UInt8.toNat_sub_of_le _ _ (UInt8.le_iff_toNat_le.2 (by rw [hn]; exact Nat.le_add_left 1 _)), hn]
        rfl
      · refine Nat.le_trans ?_ hvalue
        rw [toNat_shiftIn b hroom, Nat.pow_succ, Nat.mul_comm (64 ^ n), ← Nat.mul_assoc]
        exact Nat.mul_le_mul_right _ (by omega)
    · obtain ⟨hdecode, htail⟩ := decode_of_broken hnext
      rw [hdecode, htail]

/-- The ranges of the automaton are those of UTF-8. -/
theorem lead?_eq (b : UInt8) : lead? b =
    if b ≤ 0x7F then some ⟨0, b.toNat, 0⟩
    else if 0xC0 ≤ b ∧ b ≤ 0xDF then some ⟨1, (b &&& 0x1F).toUInt32.toNat, 0x80⟩
    else if 0xE0 ≤ b ∧ b ≤ 0xEF then some ⟨2, (b &&& 0x0F).toUInt32.toNat, 0x800⟩
    else if 0xF0 ≤ b ∧ b ≤ 0xF7 then some ⟨3, (b &&& 0x07).toUInt32.toNat, 0x10000⟩
    else none := by
  have h1 : (b &&& 0x1F).toUInt32.toNat = b.toNat % 32 := by
    rw [UInt8.toNat_toUInt32, UInt8.toNat_and]
    exact Nat.and_two_pow_sub_one_eq_mod b.toNat 5
  have h2 : (b &&& 0x0F).toUInt32.toNat = b.toNat % 16 := by
    rw [UInt8.toNat_toUInt32, UInt8.toNat_and]
    exact Nat.and_two_pow_sub_one_eq_mod b.toNat 4
  have h3 : (b &&& 0x07).toUInt32.toNat = b.toNat % 8 := by
    rw [UInt8.toNat_toUInt32, UInt8.toNat_and]
    exact Nat.and_two_pow_sub_one_eq_mod b.toNat 3
  rw [h1, h2, h3, lead?]
  simp only [UInt8.lt_iff_toNat_lt, UInt8.le_iff_toNat_le, UInt8.reduceToNat]
  grind

/-- An ASCII byte is a character by itself. -/
theorem scalar?_ascii {b : UInt8} (h : b ≤ 0x7F) : ∃ c, scalar? 0 b.toUInt32.toNat = some c := by
  refine Option.ne_none_iff_exists'.1 fun hnone => ?_
  have h : b.toNat ≤ 127 := UInt8.le_iff_toNat_le.1 h
  rw [UInt8.toNat_toUInt32, scalar?, dif_pos ⟨Nat.zero_le _, .inl (by omega)⟩] at hnone
  exact Option.some_ne_none _ hnone

/-- The bits of a first byte leave room for those of its continuation bytes. -/
theorem bits_le (b mask : UInt8) (n : Nat) (h : (mask.toNat + 1) * 64 ^ n ≤ 2 ^ 26) :
    ((b &&& mask).toUInt32.toNat + 1) * 64 ^ n ≤ 2 ^ 26 := by
  refine Nat.le_trans (Nat.mul_le_mul_right _ (Nat.succ_le_succ ?_)) h
  rw [UInt8.toNat_toUInt32, UInt8.toNat_and]
  exact Nat.and_le_right

theorem decode_leading_cons (b : UInt8) (bytes : List UInt8) :
    decode .leading (b :: bytes) = outcome (readScalar (b :: bytes)) := by
  rw [decode, readScalar, lead?_eq]
  by_cases hone : b ≤ 0x7F
  · obtain ⟨c, hc⟩ := scalar?_ascii hone
    rw [if_pos hone, if_pos hone, ← val_of_scalar? hc]
    rw [UInt8.toNat_toUInt32] at hc
    simp only [readTail, hc, outcome]
  · rw [if_neg hone, if_neg hone]
    by_cases htwo : 0xC0 ≤ b ∧ b ≤ 0xDF
    · rw [if_pos htwo, if_pos htwo]
      exact decode_continuation rfl (bits_le _ _ _ (by decide))
    · rw [if_neg htwo, if_neg htwo]
      by_cases hthree : 0xE0 ≤ b ∧ b ≤ 0xEF
      · rw [if_pos hthree, if_pos hthree]
        exact decode_continuation rfl (bits_le _ _ _ (by decide))
      · rw [if_neg hthree, if_neg hthree]
        by_cases hfour : 0xF0 ≤ b ∧ b ≤ 0xF7
        · rw [if_pos hfour, if_pos hfour]
          exact decode_continuation rfl (bits_le _ _ _ (by decide))
        · rw [if_neg hfour, if_neg hfour]
          rfl

/-- The automaton decodes what UTF-8 spells; the code point that it is done with is that of a character. -/
theorem decode_leading (bytes : List UInt8) :
    decode .leading bytes = ((next bytes).1, (next bytes).2.map fun r => (r.1.val, r.2)) := by
  induction hn : bytes.length using Nat.strongRecOn generalizing bytes with
  | ind n ih =>
    subst hn
    cases bytes with
    | nil =>
      rw [decode, next_nil]
      rfl
    | cons b bytes =>
      have hle := length_readScalar_cons_le b bytes
      rw [decode_leading_cons]
      rcases hr : readScalar (b :: bytes) with ⟨_ | c, rest⟩
      · rw [hr] at hle
        have hlt : (resync rest).length < (b :: bytes).length := Nat.lt_succ_of_le (Nat.le_trans (length_resync_le rest) hle)
        rw [next_cons_of_none hr, outcome, ih _ hlt _ rfl]
        rfl
      · rw [next_cons_of_some hr]
        rfl

/-- The next character with the refused sequences before it and the bytes after it, from the code point that the automaton is done
with. -/
def next? (bytes : List UInt8) : Option (Nat × Option (Char × List UInt8)) :=
  match decode .leading bytes with
  | (refused, some (value, rest)) => (charOf? value).map fun c => (refused, some (c, rest))
  | (refused, none) => some (refused, none)

/-- The code point that the automaton is done with is a character's: the next one of the text. -/
theorem next?_eq (bytes : List UInt8) : next? bytes = some (next bytes) := by
  rw [next?, decode_leading]
  rcases next bytes with ⟨refused, _ | ⟨c, rest⟩⟩
  · rfl
  · simp only [Option.map_some, charOf?_val]

end Utf8

/-! ## Lines -/

theorem lineAfter_le (c : Char) (line : Nat) : lineAfter c line ≤ line + 1 := by
  unfold lineAfter
  split
  · exact Nat.le_refl _
  · exact Nat.le_succ _

namespace Feed

/-- Every place of a text, the end among them, is at most as many lines down as there are bytes. -/
theorem line_ofUndecoded_le (u : Undecoded) : (∀ n ∈ (ofUndecoded u).items, n.value.line ≤ u.line + u.bytes.length)
    ∧ (ofUndecoded u).last.value.line ≤ u.line + u.bytes.length := by
  induction u using ofUndecoded.induct with
  | case1 u refused c rest hshort hnext ih =>
    rw [ofUndecoded_of_some hnext]
    have hline := lineAfter_le c u.line
    have hlt : rest.length < u.bytes.length := hshort rfl
    obtain ⟨hitems, hlast⟩ := ih
    refine ⟨fun n hn => ?_, ?_⟩
    · rcases List.mem_cons.1 hn with rfl | hn
      · exact Nat.le_add_right _ _
      · have := hitems n hn
        simp only at this
        omega
    · change (ofUndecoded _).last.value.line ≤ _
      simp only at hlast
      omega
  | case2 u refused hshort hnext =>
    rw [ofUndecoded_of_none hnext]
    exact ⟨fun _ h => (nomatch h), Nat.le_add_right _ _⟩

theorem length_ofUndecoded_le (u : Undecoded) : (ofUndecoded u).items.length ≤ u.bytes.length := by
  induction u using ofUndecoded.induct with
  | case1 u refused c rest hshort hnext ih =>
    rw [ofUndecoded_of_some hnext]
    exact Nat.lt_of_le_of_lt ih (hshort rfl)
  | case2 u refused hshort hnext =>
    rw [ofUndecoded_of_none hnext]
    exact Nat.zero_le _

/-- No text has more characters than bytes. -/
theorem length_chars_le (path : SourcePath) (bytes : List UInt8) : (ofBytes path bytes).chars.length ≤ bytes.length :=
  Nat.le_trans (List.length_filterMap_le _ _) (length_ofUndecoded_le (Undecoded.ofBytes path bytes))

/-- Lines are numbered from 1, and there are at most as many line breaks as bytes. -/
theorem line_ofBytes_le (path : SourcePath) (bytes : List UInt8) :
    ∀ n ∈ (ofBytes path bytes).items ++ [(ofBytes path bytes).last], n.value.line ≤ bytes.length + 1 := by
  obtain ⟨hitems, hlast⟩ := line_ofUndecoded_le (Undecoded.ofBytes path bytes)
  intro n hn
  rw [Nat.add_comm]
  rcases List.mem_append.1 hn with hn | hn
  · exact hitems n hn
  · obtain rfl := List.mem_singleton.1 hn
    exact hlast

end Feed

end GoSyntax
