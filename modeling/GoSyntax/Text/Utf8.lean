/-!
# UTF-8: the bytes of one character

The first byte of a character says how many continuation bytes follow and how many bits of the code point it carries itself. A
sequence is refused if a continuation byte is missing, if its code point would fit into fewer bytes, or if the code point is no
character (a surrogate, or above U+10FFFF). `readScalar` reads one sequence and says what is left; after a refusal, reading goes
on at the next byte that can start a character (`resync`).
-/

namespace GoSyntax.Utf8

/-- A byte that continues a character: its two high bits are `10`. -/
def isContinuation (b : UInt8) : Bool := 0x80 ≤ b && b < 0xC0

/-- A byte that may start a character: ASCII, or a first byte of a sequence of two, three or four. -/
def isLeading (b : UInt8) : Bool := b < 0x80 || (0xC0 ≤ b && b < 0xF8)

/-- What a first byte announces: the number of continuation bytes, its own bits of the code point, and the least code point that
needs a sequence of this length. -/
structure Lead where
  tail : Nat
  bits : Nat
  least : Nat
  deriving DecidableEq, Repr

/-- The announcement of a byte, none if it cannot start a character. -/
def lead? (b : UInt8) : Option Lead :=
  if b < 0x80 then some ⟨0, b.toNat, 0⟩
  else if b < 0xC0 then none
  else if b < 0xE0 then some ⟨1, b.toNat % 32, 0x80⟩
  else if b < 0xF0 then some ⟨2, b.toNat % 16, 0x800⟩
  else if b < 0xF8 then some ⟨3, b.toNat % 8, 0x10000⟩
  else none

/-- Reads `n` continuation bytes onto the bits read so far. It stops before the first byte that is none. -/
def readTail : Nat → Nat → List UInt8 → Option Nat × List UInt8
  | 0, bits, bytes => (some bits, bytes)
  | _ + 1, _, [] => (none, [])
  | n + 1, bits, b :: bytes =>
    if isContinuation b then readTail n (bits * 64 + b.toNat % 64) bytes else (none, b :: bytes)

/-- The character of a code point, if there is one and it needs a sequence of this length. -/
def scalar? (least value : Nat) : Option Char :=
  if h : least ≤ value ∧ value.isValidChar then some (Char.ofNatAux value h.2) else none

/-- Reads one sequence: its character, none if the sequence is refused, and the bytes left. -/
def readScalar : List UInt8 → Option Char × List UInt8
  | [] => (none, [])
  | b :: bytes =>
    match lead? b with
    | none => (none, bytes)
    | some lead =>
      match readTail lead.tail lead.bits bytes with
      | (some value, rest) => (scalar? lead.least value, rest)
      | (none, rest) => (none, rest)

/-- The bytes from the next one on that may start a character. -/
def resync (bytes : List UInt8) : List UInt8 := bytes.dropWhile (fun b => !isLeading b)

/-- A code point is a character if it is not too small and no surrogate, and is in range. -/
theorem scalar?_eq_none_iff {least value : Nat} : scalar? least value = none ↔ ¬(least ≤ value ∧ value.isValidChar) := by
  by_cases h : least ≤ value ∧ value.isValidChar
  · rw [scalar?, dif_pos h]
    exact ⟨fun hnone => absurd hnone (Option.some_ne_none _), fun hno => absurd h hno⟩
  · rw [scalar?, dif_neg h]
    exact ⟨fun _ => h, fun _ => rfl⟩

theorem scalar?_eq_some_iff {least value : Nat} {c : Char} : scalar? least value = some c ↔ least ≤ value ∧ c.toNat = value := by
  constructor
  · intro h
    have hvalid : least ≤ value ∧ value.isValidChar := Decidable.not_not.1 fun hno => by
      rw [scalar?_eq_none_iff.2 hno] at h
      cases h
    rw [scalar?, dif_pos hvalid] at h
    obtain rfl := Option.some.inj h
    exact ⟨hvalid.1, rfl⟩
  · rintro ⟨h, rfl⟩
    rw [scalar?, dif_pos ⟨h, c.valid⟩]
    rfl

theorem length_readTail_le (n bits : Nat) (bytes : List UInt8) : (readTail n bits bytes).2.length ≤ bytes.length := by
  induction n generalizing bits bytes with
  | zero => simp [readTail]
  | succ n ih =>
    cases bytes with
    | nil => simp [readTail]
    | cons b bytes =>
      simp only [readTail]
      split
      · exact Nat.le_succ_of_le (ih _ _)
      · simp

theorem length_readScalar_cons_le (b : UInt8) (bytes : List UInt8) :
    (readScalar (b :: bytes)).2.length ≤ bytes.length := by
  simp only [readScalar]
  split
  · simp
  · next lead _ =>
    have h := length_readTail_le lead.tail lead.bits bytes
    split <;> simp_all

theorem length_resync_le (bytes : List UInt8) : (resync bytes).length ≤ bytes.length :=
  (List.dropWhile_sublist _).length_le

/-- The next character, with the number of refused sequences before it and the bytes after it; at the end of the bytes, none. -/
def next : List UInt8 → Nat × Option (Char × List UInt8)
  | [] => (0, none)
  | b :: bytes =>
    match readScalar (b :: bytes), length_readScalar_cons_le b bytes with
    | (some c, rest), _ => (0, some (c, rest))
    | (none, rest), _ => ((next (resync rest)).1 + 1, (next (resync rest)).2)
termination_by bytes => bytes.length
decreasing_by all_goals exact Nat.lt_succ_of_le (Nat.le_trans (length_resync_le rest) (by assumption))

theorem next_nil : next [] = (0, none) := by rw [next]

theorem next_cons_of_some {b : UInt8} {bytes rest : List UInt8} {c : Char} (h : readScalar (b :: bytes) = (some c, rest)) :
    next (b :: bytes) = (0, some (c, rest)) := by
  rw [next]
  split <;> simp_all

theorem next_cons_of_none {b : UInt8} {bytes rest : List UInt8} (h : readScalar (b :: bytes) = (none, rest)) :
    next (b :: bytes) = ((next (resync rest)).1 + 1, (next (resync rest)).2) := by
  rw [next]
  split <;> simp_all

/-- What is left after the next character is shorter than what was there before it. -/
theorem length_lt_of_next {bytes rest : List UInt8} {c : Char} (h : (next bytes).2 = some (c, rest)) :
    rest.length < bytes.length := by
  induction hn : bytes.length using Nat.strongRecOn generalizing bytes with
  | ind n ih =>
    subst hn
    cases bytes with
    | nil => simp [next_nil] at h
    | cons b bytes =>
      have hl := length_readScalar_cons_le b bytes
      rcases hr : readScalar (b :: bytes) with ⟨_ | c', rest'⟩
      · rw [next_cons_of_none hr] at h
        have hs := length_resync_le rest'
        rw [hr] at hl
        have hlt : (resync rest').length < (b :: bytes).length := Nat.lt_succ_of_le (Nat.le_trans hs hl)
        exact Nat.lt_trans (ih _ hlt h rfl) hlt
      · rw [next_cons_of_some hr] at h
        rw [hr] at hl
        simp only [Option.some.injEq, Prod.mk.injEq] at h
        obtain ⟨-, rfl⟩ := h
        exact Nat.lt_succ_of_le hl

/-- The bytes of a text. -/
def encode (text : List Char) : List UInt8 := text.flatMap String.utf8EncodeChar

end GoSyntax.Utf8
