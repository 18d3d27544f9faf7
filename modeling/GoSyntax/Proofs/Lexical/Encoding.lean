import Mathlib.Data.List.Basic
import GoSyntax.Proofs.Context.Characters

/-!
# The bytes of a character

A character is read exactly where its own bytes stand: reading undoes spelling, and no other bytes are read as a character. So the rules for
first bytes, continuation bytes and least code points come down to one statement about the standard encoding.
-/

namespace GoSyntax.Utf8

theorem lead?_eq_toNat (b : UInt8) : lead? b =
    if b.toNat < 0x80 then some ⟨0, b.toNat, 0⟩
    else if b.toNat < 0xC0 then none
    else if b.toNat < 0xE0 then some ⟨1, b.toNat % 32, 0x80⟩
    else if b.toNat < 0xF0 then some ⟨2, b.toNat % 16, 0x800⟩
    else if b.toNat < 0xF8 then some ⟨3, b.toNat % 8, 0x10000⟩
    else none := by
  simp only [lead?, UInt8.lt_iff_toNat_lt, UInt8.reduceToNat]

theorem isContinuation_eq (b : UInt8) : isContinuation b = decide (0x80 ≤ b.toNat ∧ b.toNat < 0xC0) := by
  simp only [isContinuation, UInt8.le_iff_toNat_le, UInt8.lt_iff_toNat_lt, UInt8.reduceToNat, Bool.decide_and]

theorem isLeading_eq (b : UInt8) : isLeading b = decide (b.toNat < 0x80 ∨ 0xC0 ≤ b.toNat ∧ b.toNat < 0xF8) := by
  simp only [isLeading, UInt8.le_iff_toNat_le, UInt8.lt_iff_toNat_lt, UInt8.reduceToNat, Bool.decide_or, Bool.decide_and]

theorem toNat_ofNat {n : Nat} (h : n < 256) : (UInt8.ofNat n).toNat = n := by
  rw [UInt8.toNat_ofNat']
  exact Nat.mod_eq_of_lt h

/-- The bits that a continuation byte adds. -/
def addBits (bits : Nat) (b : UInt8) : Nat := bits * 64 + b.toNat % 64

/-- Continuation bytes are read one after the other. -/
theorem readTail_eq_some_iff {n bits value : Nat} {bytes rest : List UInt8} : readTail n bits bytes = (some value, rest)
    ↔ ∃ tail, tail.length = n ∧ (∀ b ∈ tail, isContinuation b = true) ∧ bytes = tail ++ rest ∧ value = tail.foldl addBits bits := by
  induction n generalizing bits bytes with
  | zero =>
    rw [readTail]
    constructor
    · rintro ⟨⟩
      exact ⟨[], rfl, fun _ h => absurd h List.not_mem_nil, rfl, rfl⟩
    · rintro ⟨tail, hlength, -, rfl, rfl⟩
      obtain rfl := List.length_eq_zero_iff.1 hlength
      rfl
  | succ n ih =>
    constructor
    · intro h
      cases bytes with
      | nil => cases h
      | cons b bytes =>
        rw [readTail] at h
        split at h
        · next hb =>
          obtain ⟨tail, rfl, htail, rfl, rfl⟩ := ih.1 h
          exact ⟨b :: tail, rfl, List.forall_mem_cons.2 ⟨hb, htail⟩, rfl, rfl⟩
        · cases h
    · rintro ⟨tail, hlength, htail, rfl, rfl⟩
      cases tail with
      | nil => cases hlength
      | cons b tail =>
        obtain ⟨hb, htail⟩ := List.forall_mem_cons.1 htail
        rw [List.cons_append, readTail, if_pos hb]
        exact ih.2 ⟨tail, Nat.succ.inj hlength, htail, rfl, rfl⟩

/-- A sequence is read if its first byte announces it, its continuation bytes are there, and its code point needs its length. -/
theorem readScalar_eq_some {bytes rest : List UInt8} {c : Char} : readScalar bytes = (some c, rest)
    ↔ ∃ b tail lead, bytes = b :: tail ++ rest ∧ lead? b = some lead ∧ tail.length = lead.tail ∧ (∀ b ∈ tail, isContinuation b = true)
      ∧ lead.least ≤ c.toNat ∧ c.toNat = tail.foldl addBits lead.bits := by
  constructor
  · intro h
    cases bytes with
    | nil => cases h
    | cons b bytes =>
      rw [readScalar] at h
      cases hlead : lead? b with
      | none =>
        rw [hlead] at h
        cases h
      | some lead =>
        rw [hlead] at h
        dsimp only at h
        split at h
        · next value rest' hread =>
          obtain ⟨hscalar, rfl⟩ := Prod.mk.inj h
          obtain ⟨hleast, rfl⟩ := scalar?_eq_some_iff.1 hscalar
          obtain ⟨tail, hlength, htail, rfl, hvalue⟩ := readTail_eq_some_iff.1 hread
          exact ⟨b, tail, lead, rfl, hlead, hlength, htail, hleast, hvalue⟩
        · cases h
  · rintro ⟨b, tail, lead, rfl, hlead, hlength, htail, hleast, hvalue⟩
    have hread : readTail lead.tail lead.bits (tail ++ rest) = (some c.toNat, rest) :=
      readTail_eq_some_iff.2 ⟨tail, hlength, htail, rfl, hvalue⟩
    rw [List.cons_append, readScalar, hlead]
    dsimp only
    rw [hread]
    exact congrArg (·, rest) (scalar?_eq_some_iff.2 ⟨hleast, rfl⟩)

/-- The bytes of a character, told by how many there are. -/
theorem utf8EncodeChar_cases (c : Char) :
    c.toNat < 0x80 ∧ String.utf8EncodeChar c = [UInt8.ofNat c.toNat]
    ∨ 0x80 ≤ c.toNat ∧ c.toNat < 0x800
      ∧ String.utf8EncodeChar c = [UInt8.ofNat (c.toNat / 64 + 0xC0), UInt8.ofNat (c.toNat % 64 + 0x80)]
    ∨ 0x800 ≤ c.toNat ∧ c.toNat < 0x10000 ∧ String.utf8EncodeChar c = [UInt8.ofNat (c.toNat / 4096 + 0xE0),
        UInt8.ofNat (c.toNat / 64 % 64 + 0x80), UInt8.ofNat (c.toNat % 64 + 0x80)]
    ∨ 0x10000 ≤ c.toNat ∧ c.toNat < 0x110000 ∧ String.utf8EncodeChar c = [UInt8.ofNat (c.toNat / 262144 + 0xF0),
        UInt8.ofNat (c.toNat / 4096 % 64 + 0x80), UInt8.ofNat (c.toNat / 64 % 64 + 0x80), UInt8.ofNat (c.toNat % 64 + 0x80)] := by
  have hvalid : c.toNat < 0x110000 := by
    have h : c.toNat < 0xD800 ∨ 0xDFFF < c.toNat ∧ c.toNat < 0x110000 := c.valid
    omega
  have hval : c.val.toNat = c.toNat := rfl
  simp only [String.utf8EncodeChar, hval]
  split
  · exact .inl ⟨by omega, rfl⟩
  · split
    · refine .inr (.inl ⟨by omega, by omega, ?_⟩)
      rw [show c.toNat / 64 % 32 = c.toNat / 64 by omega]
    · split
      · refine .inr (.inr (.inl ⟨by omega, by omega, ?_⟩))
        rw [show c.toNat / 4096 % 16 = c.toNat / 4096 by omega]
      · refine .inr (.inr (.inr ⟨by omega, hvalid, ?_⟩))
        rw [show c.toNat / 262144 % 8 = c.toNat / 262144 by omega]

theorem isContinuation_ofNat (n : Nat) : isContinuation (UInt8.ofNat (n % 64 + 0x80)) = true := by
  rw [isContinuation_eq, toNat_ofNat (by omega)]
  exact decide_eq_true (by omega)

theorem addBits_ofNat (bits n : Nat) : addBits bits (UInt8.ofNat (n % 64 + 0x80)) = bits * 64 + n % 64 := by
  rw [addBits, toNat_ofNat (by omega)]
  omega

/-- The bytes of a character are read as this character, whatever stands behind them. -/
theorem readScalar_encode (c : Char) (rest : List UInt8) : readScalar (String.utf8EncodeChar c ++ rest) = (some c, rest) := by
  rw [readScalar_eq_some]
  rcases utf8EncodeChar_cases c with ⟨hlt, hbytes⟩ | ⟨hle, hlt, hbytes⟩ | ⟨hle, hlt, hbytes⟩ | ⟨hle, hlt, hbytes⟩ <;> rw [hbytes]
  · refine ⟨_, [], ⟨0, c.toNat, 0⟩, rfl, ?_, rfl, nofun, Nat.zero_le _, rfl⟩
    rw [lead?_eq_toNat, toNat_ofNat (by omega), if_pos hlt]
  · refine ⟨_, [_], ⟨1, c.toNat / 64, 0x80⟩, rfl, ?_, rfl, by grind [isContinuation_ofNat], hle, ?_⟩
    · rw [lead?_eq_toNat, toNat_ofNat (by omega), if_neg (by omega), if_neg (by omega), if_pos (by omega),
        show (c.toNat / 64 + 0xC0) % 32 = c.toNat / 64 by omega]
    · simp only [List.foldl_cons, List.foldl_nil, addBits_ofNat]
      omega
  · refine ⟨_, [_, _], ⟨2, c.toNat / 4096, 0x800⟩, rfl, ?_, rfl, by grind [isContinuation_ofNat], hle, ?_⟩
    · rw [lead?_eq_toNat, toNat_ofNat (by omega), if_neg (by omega), if_neg (by omega), if_neg (by omega), if_pos (by omega),
        show (c.toNat / 4096 + 0xE0) % 16 = c.toNat / 4096 by omega]
    · simp only [List.foldl_cons, List.foldl_nil, addBits_ofNat]
      omega
  · refine ⟨_, [_, _, _], ⟨3, c.toNat / 262144, 0x10000⟩, rfl, ?_, rfl, by grind [isContinuation_ofNat], hle, ?_⟩
    · rw [lead?_eq_toNat, toNat_ofNat (by omega), if_neg (by omega), if_neg (by omega), if_neg (by omega), if_neg (by omega),
        if_pos (by omega),
        show (c.toNat / 262144 + 0xF0) % 8 = c.toNat / 262144 by omega]
    · simp only [List.foldl_cons, List.foldl_nil, addBits_ofNat]
      omega

/-- A first byte, told by what it announces. -/
theorem lead?_eq_some_iff {b : UInt8} {lead : Lead} : lead? b = some lead ↔
    b.toNat < 0x80 ∧ lead = ⟨0, b.toNat, 0⟩ ∨ 0xC0 ≤ b.toNat ∧ b.toNat < 0xE0 ∧ lead = ⟨1, b.toNat % 32, 0x80⟩
    ∨ 0xE0 ≤ b.toNat ∧ b.toNat < 0xF0 ∧ lead = ⟨2, b.toNat % 16, 0x800⟩
    ∨ 0xF0 ≤ b.toNat ∧ b.toNat < 0xF8 ∧ lead = ⟨3, b.toNat % 8, 0x10000⟩ := by
  rw [lead?_eq_toNat]
  grind

/-- Nothing but the bytes of a character is read as this character. -/
theorem eq_encode_of_readScalar {bytes rest : List UInt8} {c : Char} (h : readScalar bytes = (some c, rest)) :
    bytes = String.utf8EncodeChar c ++ rest := by
  obtain ⟨b, tail, lead, rfl, hlead, hlength, htail, hleast, hvalue⟩ := readScalar_eq_some.1 h
  have hbyte : ∀ {x : UInt8} {n : Nat}, x.toNat = n → x = UInt8.ofNat n := by
    rintro x n rfl
    exact UInt8.ofNat_toNat.symm
  have hrange : ∀ x ∈ tail, 0x80 ≤ x.toNat ∧ x.toNat < 0xC0 := fun x hx => by
    have hx := htail x hx
    rw [isContinuation_eq] at hx
    exact of_decide_eq_true hx
  congr 1
  rcases lead?_eq_some_iff.1 hlead with ⟨hb, rfl⟩ | ⟨hb, hb', rfl⟩ | ⟨hb, hb', rfl⟩ | ⟨hb, hb', rfl⟩
  · obtain rfl := List.length_eq_zero_iff.1 hlength
    replace hvalue : c.toNat = b.toNat := hvalue
    rcases utf8EncodeChar_cases c with ⟨-, hbytes⟩ | h | h | h <;> first | omega | rw [hbytes, hvalue, UInt8.ofNat_toNat]
  · obtain ⟨x, rfl⟩ := List.length_eq_one_iff.1 hlength
    obtain ⟨hx, hx'⟩ := hrange x (by simp)
    replace hvalue : c.toNat = b.toNat % 32 * 64 + x.toNat % 64 := hvalue
    replace hleast : 0x80 ≤ c.toNat := hleast
    rcases utf8EncodeChar_cases c with h | ⟨-, -, hbytes⟩ | h | h <;> first | omega | rw [hbytes]
    exact congrArg₂ List.cons (hbyte (by omega)) (congrArg (List.cons · []) (hbyte (by omega)))
  · obtain ⟨x, y, rfl⟩ := List.length_eq_two.1 hlength
    obtain ⟨hx, hx'⟩ := hrange x (by simp)
    obtain ⟨hy, hy'⟩ := hrange y (by simp)
    replace hvalue : c.toNat = (b.toNat % 16 * 64 + x.toNat % 64) * 64 + y.toNat % 64 := hvalue
    replace hleast : 0x800 ≤ c.toNat := hleast
    rcases utf8EncodeChar_cases c with h | h | ⟨-, -, hbytes⟩ | h <;> first | omega | rw [hbytes]
    exact congrArg₂ List.cons (hbyte (by omega)) (congrArg₂ List.cons (hbyte (by omega)) (congrArg (List.cons · []) (hbyte (by omega))))
  · obtain ⟨x, y, z, rfl⟩ := List.length_eq_three.1 hlength
    obtain ⟨hx, hx'⟩ := hrange x (by simp)
    obtain ⟨hy, hy'⟩ := hrange y (by simp)
    obtain ⟨hz, hz'⟩ := hrange z (by simp)
    replace hvalue : c.toNat = ((b.toNat % 8 * 64 + x.toNat % 64) * 64 + y.toNat % 64) * 64 + z.toNat % 64 := hvalue
    replace hleast : 0x10000 ≤ c.toNat := hleast
    rcases utf8EncodeChar_cases c with h | h | h | ⟨-, -, hbytes⟩ <;> first | omega | rw [hbytes]
    exact congrArg₂ List.cons (hbyte (by omega)) (congrArg₂ List.cons (hbyte (by omega)) (congrArg₂ List.cons (hbyte (by omega))
      (congrArg (List.cons · []) (hbyte (by omega)))))

/-- A character that is read at once stands at the start. -/
theorem eq_encode_of_next {bytes rest : List UInt8} {c : Char} (h : next bytes = (0, some (c, rest))) :
    bytes = String.utf8EncodeChar c ++ rest := by
  cases bytes with
  | nil =>
    rw [next_nil] at h
    nomatch h
  | cons b bytes =>
    rcases hread : readScalar (b :: bytes) with ⟨_ | c', rest'⟩
    · rw [next_cons_of_none hread] at h
      nomatch (Prod.mk.inj h).1
    · rw [next_cons_of_some hread] at h
      obtain ⟨rfl, rfl⟩ := Prod.mk.inj (Option.some.inj (Prod.mk.inj h).2)
      exact eq_encode_of_readScalar hread

end GoSyntax.Utf8
