import GoSyntax.Token.Set

/-!
# Sets of kinds are sets

A set of kinds is a row of bits, and a kind is looked up by its bit. The ranges of bits do not overlap and two kinds have one bit only
if they agree up to the names and values they carry, so a row of bits is a set up to such agreement: whatever lists and unions it is
put together from, it holds what was listed and nothing else.
-/

namespace GoSyntax

namespace TokenSet

/-- A set put together: lists of keywords, operators and marks, the identifiers, the literals, the end of the input, and unions. -/
inductive Build where
  | keywords (ks : List Keyword)
  | operators (os : List Operator)
  | punctuation (ps : List Punctuation)
  | ident
  | literal
  | eof
  | union (a b : Build)

namespace Build

/-- The set that is put together. -/
def set : Build → TokenSet
  | keywords ks => TokenSet.keywords ks
  | operators os => TokenSet.operators os
  | punctuation ps => TokenSet.punctuation ps
  | ident => TokenSet.ident
  | literal => TokenSet.literal
  | eof => TokenSet.eof
  | union a b => a.set ∪ b.set

/-- The kinds that are listed. One name stands for all identifiers and one value for all literals. -/
def listed : Build → List TokenKind
  | keywords ks => ks.map .keyword
  | operators os => os.map .operator
  | punctuation ps => ps.map .punctuation
  | ident => [.ident ""]
  | literal => [.literal .uninit]
  | eof => [.eof]
  | union a b => a.listed ++ b.listed

end Build

theorem contains_listed {α : Type} (f : α → TokenKind) (xs : List α) (kind : TokenKind) :
    (ofSlots (xs.map fun x => (f x).slot)).contains kind = true ↔ ∃ k ∈ xs.map f, kind.sameKind k = true := by
  rw [contains_ofSlots_map]
  refine ⟨fun ⟨x, hx, hsame⟩ => ⟨f x, List.mem_map_of_mem hx, hsame⟩, fun ⟨k, hk, hsame⟩ => ?_⟩
  obtain ⟨x, hx, rfl⟩ := List.mem_map.1 hk
  exact ⟨x, hx, hsame⟩

theorem contains_ofSlot_slot (k kind : TokenKind) : (ofSlot k.slot).contains kind = true ↔ ∃ k' ∈ [k], kind.sameKind k' = true := by
  rw [contains_ofSlot, TokenKind.slot_eq_slot_iff]
  simp

theorem Build.contains_set (b : Build) (kind : TokenKind) :
    b.set.contains kind = true ↔ ∃ k ∈ b.listed, kind.sameKind k = true := by
  induction b with
  | keywords ks => exact contains_listed TokenKind.keyword ks kind
  | operators os => exact contains_listed TokenKind.operator os kind
  | punctuation ps => exact contains_listed TokenKind.punctuation ps kind
  | ident => exact contains_ofSlot_slot (.ident "") kind
  | literal => exact contains_ofSlot_slot (.literal .uninit) kind
  | eof => exact contains_ofSlot_slot .eof kind
  | union a b iha ihb =>
    rw [Build.set, contains_union, Bool.or_eq_true, iha, ihb, Build.listed]
    simp only [List.mem_append, or_and_right, exists_or]

/-- A kind is looked up by a mask of its bit. -/
theorem contains_eq_mask (s : TokenSet) (kind : TokenKind) : s.contains kind = (s.bits &&& 1#128 <<< kind.slot != 0) := by
  have hslot := kind.slot_lt
  rw [← BitVec.twoPow_eq, BitVec.and_twoPow, contains]
  cases s.bits.getLsbD kind.slot with
  | false => rfl
  | true =>
    have hbit : (BitVec.twoPow 128 kind.slot).getLsbD kind.slot = true := by simp [hslot]
    refine (bne_iff_ne.2 fun hzero => ?_).symm
    rw [if_pos rfl] at hzero
    simp [hzero] at hbit

/-- A set holds the kinds that agree with a listed one, however it is put together, since every kind has a bit of the row and two
kinds have the same bit exactly if they agree. Membership is what the mask of that bit says. -/
theorem contains_iff_sameKind :
    (∀ (b : Build) (kind : TokenKind), b.set.contains kind = true ↔ ∃ k ∈ b.listed, kind.sameKind k = true)
      ∧ (∀ (s : TokenSet) (kind : TokenKind), s.contains kind = (s.bits &&& 1#128 <<< kind.slot != 0))
      ∧ (∀ kind : TokenKind, kind.slot < 128)
      ∧ ∀ a b : TokenKind, a.slot = b.slot ↔ a.sameKind b = true :=
  ⟨Build.contains_set, contains_eq_mask, TokenKind.slot_lt, fun _ _ => TokenKind.slot_eq_slot_iff⟩

example : (Build.union (.operators [.arrow, .mul]) .ident).set.contains (.ident "x") = true := by decide

end TokenSet

end GoSyntax
