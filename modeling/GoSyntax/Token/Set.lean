import GoSyntax.Token.Basic

/-!
# Sets of kinds of tokens

A set has one bit for each kind of token, and names and values do not count: keywords take the bits from 0, operators those from
32, punctuation marks those from 96, and identifiers, literals and the end of the input one each after them. The parser uses
such sets to find a place where it can go on after an error.
-/

namespace GoSyntax

/-- The bit of a kind of token. -/
def TokenKind.slot : TokenKind → Nat
  | keyword k => k.ordinal
  | operator o => 32 + o.ordinal
  | punctuation p => 96 + p.ordinal
  | ident _ => 112
  | literal _ => 113
  | eof => 114

/-- A set of kinds of tokens. -/
structure TokenSet where
  bits : BitVec 128
  deriving DecidableEq, Repr

namespace TokenSet

/-- No kind. -/
def empty : TokenSet := ⟨0⟩

/-- The one kind with a bit. -/
def ofSlot (slot : Nat) : TokenSet := ⟨1#128 <<< slot⟩

/-- The kinds of either set. -/
def union (a b : TokenSet) : TokenSet := ⟨a.bits ||| b.bits⟩

instance : Union TokenSet := ⟨union⟩

/-- The kinds whose bits are listed. -/
def ofSlots (slots : List Nat) : TokenSet := slots.foldl (fun s slot => s ∪ ofSlot slot) empty

/-- Some keywords. -/
def keywords (ks : List Keyword) : TokenSet := ofSlots (ks.map fun k => (TokenKind.keyword k).slot)

/-- Some operators. -/
def operators (os : List Operator) : TokenSet := ofSlots (os.map fun o => (TokenKind.operator o).slot)

/-- Some punctuation marks. -/
def punctuation (ps : List Punctuation) : TokenSet := ofSlots (ps.map fun p => (TokenKind.punctuation p).slot)

/-- The identifiers. -/
def ident : TokenSet := ofSlot 112

/-- The literals. -/
def literal : TokenSet := ofSlot 113

/-- The end of the input. -/
def eof : TokenSet := ofSlot 114

/-- The kind is in the set. -/
def contains (s : TokenSet) (kind : TokenKind) : Bool := s.bits.getLsbD kind.slot

/-- A set as a dump shows it: its bits, as a number of 32 hexadecimal digits. -/
def display (s : TokenSet) : String :=
  let digits := Nat.toDigits 16 s.bits.toNat
  "TokenSet(0x" ++ String.ofList (List.replicate (32 - digits.length) '0' ++ digits) ++ ")"

/-! ## What is in a set -/

theorem contains_union (a b : TokenSet) (kind : TokenKind) : (a ∪ b).contains kind = (a.contains kind || b.contains kind) :=
  BitVec.getLsbD_or

theorem contains_empty (kind : TokenKind) : empty.contains kind = false := BitVec.getLsbD_zero

end TokenSet

theorem TokenKind.slot_lt (kind : TokenKind) : kind.slot < 128 := by
  cases kind with
  | keyword k => exact Nat.lt_trans k.ordinal_lt (by decide)
  | operator o => exact Nat.lt_trans (Nat.add_lt_add_left o.ordinal_lt 32) (by decide)
  | punctuation p => exact Nat.lt_trans (Nat.add_lt_add_left p.ordinal_lt 96) (by decide)
  | _ => simp [slot]

namespace TokenSet

theorem contains_ofSlot (slot : Nat) (kind : TokenKind) :
    (ofSlot slot).contains kind = true ↔ kind.slot = slot := by
  have hk := kind.slot_lt
  rw [contains, ofSlot, BitVec.getLsbD_shiftLeft, BitVec.getLsbD_one]
  simp only [hk, decide_true, Bool.true_and, Bool.and_eq_true, Bool.not_eq_true', decide_eq_false_iff_not, decide_eq_true_eq]
  omega

theorem contains_foldl (slots : List Nat) (s : TokenSet) (kind : TokenKind) :
    (slots.foldl (fun s slot => s ∪ ofSlot slot) s).contains kind = true ↔ s.contains kind = true ∨ kind.slot ∈ slots := by
  induction slots generalizing s with
  | nil => simp
  | cons slot slots ih =>
    rw [List.foldl_cons, ih, contains_union, Bool.or_eq_true, contains_ofSlot, List.mem_cons, or_assoc]

/-- The kinds in a list of bits are those whose bit is listed. -/
theorem contains_ofSlots (slots : List Nat) (kind : TokenKind) :
    (ofSlots slots).contains kind = true ↔ kind.slot ∈ slots := by
  rw [ofSlots, contains_foldl, contains_empty]
  simp

end TokenSet

namespace TokenKind

/-- Kinds share a bit exactly if they agree up to the names and values they carry: no range of bits reaches into the next. -/
theorem slot_eq_slot_iff {a b : TokenKind} : a.slot = b.slot ↔ a.sameKind b = true := by
  cases a with
  | keyword k =>
    cases b with
    | keyword k' => simp only [slot, sameKind, Keyword.ordinal_inj, beq_iff_eq]
    | _ => grind [slot, sameKind, Keyword.ordinal_lt]
  | operator o =>
    cases b with
    | operator o' => simp only [slot, sameKind, Nat.add_left_cancel_iff, Operator.ordinal_inj, beq_iff_eq]
    | _ => grind [slot, sameKind, Keyword.ordinal_lt, Operator.ordinal_lt]
  | punctuation p =>
    cases b with
    | punctuation p' => simp only [slot, sameKind, Nat.add_left_cancel_iff, Punctuation.ordinal_inj, beq_iff_eq]
    | _ => grind [slot, sameKind, Keyword.ordinal_lt, Operator.ordinal_lt, Punctuation.ordinal_lt]
  | _ => cases b <;> grind [slot, sameKind, Keyword.ordinal_lt, Operator.ordinal_lt, Punctuation.ordinal_lt]

theorem sameKind_keyword_iff {kind : TokenKind} {k : Keyword} : kind.sameKind (keyword k) = true ↔ kind = keyword k := by
  cases kind <;> simp [sameKind]

theorem sameKind_punctuation_iff {kind : TokenKind} {p : Punctuation} :
    kind.sameKind (punctuation p) = true ↔ kind = punctuation p := by
  cases kind <;> simp [sameKind]

end TokenKind

namespace TokenSet

/-- A set of listed kinds holds those that agree with one of them. -/
theorem contains_ofSlots_map {α : Type} (f : α → TokenKind) (xs : List α) (kind : TokenKind) :
    (ofSlots (xs.map fun x => (f x).slot)).contains kind = true ↔ ∃ x ∈ xs, kind.sameKind (f x) = true := by
  rw [contains_ofSlots, List.mem_map]
  refine exists_congr fun x => and_congr_right fun _ => ?_
  rw [eq_comm, TokenKind.slot_eq_slot_iff]

theorem contains_keywords (ks : List Keyword) (kind : TokenKind) :
    (keywords ks).contains kind = true ↔ ∃ k ∈ ks, kind = .keyword k := by
  rw [keywords, contains_ofSlots_map TokenKind.keyword]
  simp only [TokenKind.sameKind_keyword_iff]

theorem contains_punctuation (ps : List Punctuation) (kind : TokenKind) :
    (punctuation ps).contains kind = true ↔ ∃ p ∈ ps, kind = .punctuation p := by
  rw [punctuation, contains_ofSlots_map TokenKind.punctuation]
  simp only [TokenKind.sameKind_punctuation_iff]

end TokenSet

end GoSyntax
