import Mathlib.Algebra.Group.Int.Defs
import GoSyntax.Lexeme.Numeral
import GoSyntax.Lexeme.Quoted
import GoSyntax.Proofs.InRange.Text

/-!
# The numbers of literals stay in range

The digits of an escape are added up in a 32-bit word, and the number is made a byte or a character. The exponent of a numeral is
kept in a 64-bit integer, negated if its sign says so, and lowered by the number of digits behind the point. Here both are computed
with operations that may fail: each gives a number only if it is in range. They never fail, and what they compute is the value of the
literal. Only the lowering of an exponent may leave the range, and it is checked when it is made: a numeral with such an exponent is
out of bounds anyhow.
-/

namespace GoSyntax

/-- A number, if a 32-bit word holds it. -/
def word32? (n : Nat) : Option Nat := if n < 2 ^ 32 then some n else none

/-- A number, if a byte holds it. -/
def byte? (n : Nat) : Option UInt8 := if n < 2 ^ 8 then some (UInt8.ofNat n) else none

/-- A number, if a 64-bit integer holds it. -/
def int64? (n : Int) : Option Int := if -2 ^ 63 ≤ n ∧ n < 2 ^ 63 then some n else none

/-! ## Escapes -/

namespace Escape

/-- Adds up the next `n` digits in a word: how many there are and, if none is missing, their value. -/
def accumulate? (base : Nat) : Nat → Nat → List Char → Option (Nat × Option Nat)
  | 0, value, _ => some (0, some value)
  | _ + 1, _, [] => some (0, none)
  | n + 1, value, c :: cs =>
    match digit? base c with
    | some d => do
      let (found, total) ← accumulate? base n (← word32? (value * base + d)) cs
      return (found + 1, total)
    | none => some (0, none)

/-- A byte, none if the number is above the greatest one; the conversion itself may fail. -/
def toByte? (n : Nat) : Option (Option Escaped) := if 255 < n then some none else (byte? n).map fun b => some (.byte b)

/-- A character, none if the number is above the greatest one or no character has it. -/
def toChar? (n : Nat) : Option (Option Escaped) :=
  if 0x10FFFF < n then some none else some ((Utf8.charOf? (UInt32.ofNat n)).map .char)

/-- The digits of a form in words. -/
def readForm? (count base : Nat) (denotes : Nat → Option (Option Escaped)) (skipped : Nat) (cs : List Char) : Option Escape := do
  let (found, total) ← accumulate? base count 0 cs
  match total with
  | some value => return ⟨← denotes value, skipped + found, skipped + found⟩
  | none => return ⟨none, skipped + found, skipped + found + 1⟩

/-- An escape in words. -/
def read? (quote : Char) : List Char → Option Escape
  | [] => some ⟨none, 0, 1⟩
  | c :: cs =>
    if c = '\n' then some ⟨none, 0, 1⟩
    else
      match letter? quote c with
      | some d => some ⟨some (.char d), 1, 1⟩
      | none =>
        if isDigitOf 8 c then readForm? 3 8 toByte? 0 (c :: cs)
        else if c = 'x' then readForm? 2 16 toByte? 1 cs
        else if c = 'u' then readForm? 4 16 toChar? 1 cs
        else if c = 'U' then readForm? 8 16 toChar? 1 cs
        else some ⟨none, 1, 1⟩

theorem digit?_lt {base : Nat} {c : Char} {d : Nat} (h : digit? base c = some d) : d < base := by
  obtain ⟨-, hlt⟩ := Option.filter_eq_some_iff.1 h
  exact of_decide_eq_true hlt

/-- As long as there is room for all digits, none is lost. -/
theorem accumulate?_eq (base n value : Nat) (cs : List Char) (hroom : (value + 1) * base ^ n ≤ 2 ^ 32) :
    accumulate? base n value cs =
      some (((cs.take n).takeWhile (isDigitOf base)).length,
        if ((cs.take n).takeWhile (isDigitOf base)).length = n then
          some (((cs.take n).takeWhile (isDigitOf base)).foldl (fun value c => value * base + (digit? base c).getD 0) value)
        else none) := by
  induction n generalizing value cs with
  | zero => simp [accumulate?]
  | succ n ih =>
    cases cs with
    | nil => simp [accumulate?]
    | cons c cs =>
      rw [accumulate?, List.take_succ_cons]
      cases hd : digit? base c with
      | none =>
        have hno : isDigitOf base c = false := by rw [isDigitOf, hd]; rfl
        rw [List.takeWhile_cons_of_neg (by rw [hno]; exact Bool.false_ne_true)]
        rfl
      | some d =>
        have hyes : isDigitOf base c = true := by rw [isDigitOf, hd]; rfl
        have hlt := digit?_lt hd
        have hstep : (value * base + d + 1) * base ^ n ≤ 2 ^ 32 := by
          refine Nat.le_trans ?_ hroom
          rw [Nat.pow_succ, Nat.mul_comm (base ^ n), ← Nat.mul_assoc]
          refine Nat.mul_le_mul_right _ ?_
          rw [Nat.add_mul, Nat.one_mul]
          omega
        have hone : 1 ≤ base ^ n := Nat.pow_pos (by omega)
        have hword : word32? (value * base + d) = some (value * base + d) := by
          refine if_pos ?_
          have := Nat.le_mul_of_pos_right (value * base + d + 1) hone
          omega
        rw [List.takeWhile_cons_of_pos hyes]
        simp only [hword, ih _ cs hstep, List.length_cons, List.foldl_cons, hd, Option.getD_some, Nat.add_right_cancel_iff,
          Option.bind_eq_bind, Option.bind_some]
        rfl

/-- The byte of a number that is not above the greatest one: none is lost. -/
theorem toByte?_eq (count base n : Nat) : toByte? n = some ((byteForm count base).denotes n) := by
  change toByte? n = some (if n ≤ 255 then some (.byte (UInt8.ofNat n)) else none)
  rw [toByte?]
  by_cases h : n ≤ 255
  · rw [if_neg (by omega), if_pos h, byte?, if_pos (by omega)]
    rfl
  · rw [if_pos (by omega), if_neg h]

theorem charOf?_ofNat {n : Nat} (h : n ≤ 0x10FFFF) : Utf8.charOf? (UInt32.ofNat n) = Utf8.scalar? 0 n := by
  have hval : (UInt32.ofNat n).toNat = n := UInt32.toNat_ofNat_of_lt' (by rw [UInt32.size]; omega)
  rw [Utf8.charOf?, Utf8.scalar?]
  by_cases hvalid : n.isValidChar
  · have hvalid' : (UInt32.ofNat n).isValidChar := by
      rw [UInt32.isValidChar, hval]
      exact hvalid
    rw [dif_pos hvalid', dif_pos ⟨Nat.zero_le _, hvalid⟩]
    refine congrArg some (Char.ext (UInt32.toNat.inj ?_))
    rw [hval]
    rfl
  · have hvalid' : ¬ (UInt32.ofNat n).isValidChar := by
      rw [UInt32.isValidChar, hval]
      exact hvalid
    rw [dif_neg hvalid', dif_neg fun h => hvalid h.2]

theorem toChar?_eq (count n : Nat) : toChar? n = some ((charForm count).denotes n) := by
  change toChar? n = some ((Utf8.scalar? 0 n).map .char)
  rw [toChar?]
  by_cases h : n ≤ 0x10FFFF
  · rw [if_neg (by omega), charOf?_ofNat h]
  · have hno : ¬ (0 ≤ n ∧ n.isValidChar) := by
      rintro ⟨-, hvalid⟩
      rcases hvalid with hlow | ⟨-, hhigh⟩ <;> omega
    rw [if_pos (by omega), Utf8.scalar?, dif_neg hno]
    rfl

/-- The word in which a form is added up has room for it, so the form is read as it is written. -/
theorem readForm?_eq (form : Form) {denotes : Nat → Option (Option Escaped)} (hdenotes : ∀ n, denotes n = some (form.denotes n))
    (hroom : form.base ^ form.count ≤ 2 ^ 32) (skipped : Nat) (cs : List Char) :
    readForm? form.count form.base denotes skipped cs = some (readForm form skipped cs) := by
  rw [readForm?, accumulate?_eq _ _ _ _ (by simpa using hroom), readForm]
  simp only [Option.bind_eq_bind, Option.bind_some]
  by_cases h : ((cs.take form.count).takeWhile (isDigitOf form.base)).length = form.count
  · rw [if_pos h, if_pos h, h]
    simp only [hdenotes, Option.bind_some]
    rfl
  · rw [if_neg h, if_neg h]
    rfl

theorem readForm?_byte (count base skipped : Nat) (cs : List Char) (hroom : base ^ count ≤ 2 ^ 32) :
    readForm? count base toByte? skipped cs = some (readForm (byteForm count base) skipped cs) :=
  readForm?_eq (byteForm count base) (toByte?_eq count base) hroom skipped cs

theorem readForm?_char (count skipped : Nat) (cs : List Char) (hroom : 16 ^ count ≤ 2 ^ 32) :
    readForm? count 16 toChar? skipped cs = some (readForm (charForm count) skipped cs) :=
  readForm?_eq (charForm count) (toChar?_eq count) hroom skipped cs

/-- No number of an escape is out of range. -/
theorem read?_eq (quote : Char) (cs : List Char) : read? quote cs = some (read quote cs) := by
  cases cs with
  | nil => rfl
  | cons c cs =>
    rw [read?, read]
    by_cases hline : c = '\n'
    · rw [if_pos hline, if_pos hline]
    · rw [if_neg hline, if_neg hline]
      cases letter? quote c with
      | some d => rfl
      | none =>
        have hoctal := readForm?_byte 3 8 0 (c :: cs) (by decide)
        have hhexadecimal := readForm?_byte 2 16 1 cs (by decide)
        have hshort := readForm?_char 4 1 cs (by decide)
        have hlong := readForm?_char 8 1 cs (by decide)
        simp only [hoctal, hhexadecimal, hshort, hlong, apply_ite some]

end Escape

/-! ## Exponents -/

namespace Numeral

/-- The number an exponent denotes, none if it is too great for a 64-bit integer; the negation of the digits' number may fail. -/
def exponent64? : Option Exponent → Option (Option Int)
  | none => some (some 0)
  | some e =>
    if e.digits.isEmpty then some (some 0)
    else
      match int64? (ofDigits 10 e.digits) with
      | none => some none
      | some n => if e.sign = some '-' then (int64? (-n)).map some else some (some n)

/-- The value of digits before and after the point and of an exponent, none if the scale is out of bounds or leaves a 64-bit integer
when the exponent is lowered. -/
def floatValue64? (whole : List Char) (fraction : Option (List Char)) (exponent : Option Exponent) : Option (Option Rat) := do
  let digits := fraction.getD []
  let written ← exponent64? exponent
  return do
    let scale ← int64? ((← written) - (← int64? digits.length))
    scale? (ofDigits 10 (whole ++ digits)) scale

theorem int64?_of_natAbs_lt {n : Int} (h : n.natAbs < 2 ^ 63) : int64? n = some n := if_pos (by omega)

theorem int64?_natCast (n : Nat) : int64? n = if n < 2 ^ 63 then some (n : Int) else none := by
  rw [int64?]
  by_cases h : n < 2 ^ 63
  · rw [if_pos h, if_pos (by omega)]
  · rw [if_neg h, if_neg (by omega)]

/-- A number of 64 bits that comes from digits can be negated. -/
theorem exponent64?_eq (exponent : Option Exponent) :
    exponent64? exponent =
      some (if (exponentValue exponent).natAbs < 2 ^ 63 then some (exponentValue exponent) else none) := by
  cases exponent with
  | none => rfl
  | some e =>
    obtain ⟨sign, digits⟩ := e
    rw [exponent64?, exponentValue]
    dsimp only
    by_cases hnone : digits.isEmpty
    · obtain rfl := List.isEmpty_iff.1 hnone
      rw [if_pos hnone]
      by_cases hsign : sign = some '-'
      · rw [if_pos hsign]
        rfl
      · rw [if_neg hsign]
        rfl
    · rw [if_neg hnone, int64?_natCast]
      by_cases hsign : sign = some '-'
      · rw [if_pos hsign, Int.natAbs_neg, Int.natAbs_natCast]
        by_cases hlt : ofDigits 10 digits < 2 ^ 63
        · rw [if_pos hlt, if_pos hlt]
          change (if sign = some '-' then _ else _) = _
          rw [if_pos hsign, int64?_of_natAbs_lt (by omega)]
          rfl
        · rw [if_neg hlt, if_neg hlt]
      · rw [if_neg hsign, Int.natAbs_natCast]
        by_cases hlt : ofDigits 10 digits < 2 ^ 63
        · rw [if_pos hlt]
          exact if_neg hsign
        · rw [if_neg hlt]

/-- A scale that is far out of bounds gives no value. -/
theorem scale?_of_lt {scale : Int} (mantissa : Nat) (h : maxScale < scale.natAbs) : scale? mantissa scale = none := if_pos h

/-- The value of a numeral with less than `2 ^ 62` digits behind the point is computed without a failure. It is the same as with
integers of any size: a scale that 64 bits do not hold is out of bounds. -/
theorem floatValue64?_eq (whole : List Char) {fraction : Option (List Char)} (exponent : Option Exponent)
    (hfraction : (fraction.getD []).length < 2 ^ 62) :
    floatValue64? whole fraction exponent = some (floatValue? whole fraction exponent) := by
  have hlength : int64? (fraction.getD []).length = some ((fraction.getD []).length : Int) := by
    rw [int64?_natCast, if_pos (by omega)]
  rw [floatValue64?, floatValue?, exponent64?_eq]
  simp only [Option.bind_eq_bind, Option.bind_some, hlength, Option.pure_def, Option.some.injEq]
  by_cases hwritten : (exponentValue exponent).natAbs < 2 ^ 63
  · rw [if_pos hwritten, Option.bind_some]
    by_cases hscale : -2 ^ 63 ≤ exponentValue exponent - (fraction.getD []).length
    · rw [int64?, if_pos (by omega), Option.bind_some]
    · rw [int64?, if_neg (by omega), scale?_of_lt _ (by rw [maxScale]; omega)]
      rfl
  · rw [if_neg hwritten, scale?_of_lt _ (by rw [maxScale]; omega)]
    rfl

theorem readDecimal_eq (cs : List Char) :
    ∃ exponent imaginary, (readDecimal cs).1 =
      .decimal (cs.takeWhile Char.isDigit) (readFraction (cs.dropWhile Char.isDigit)).1 exponent imaginary := by
  rw [readDecimal]
  dsimp only
  split
  · exact ⟨_, _, rfl⟩
  · exact ⟨_, _, rfl⟩

theorem length_readFraction_le (cs : List Char) : ((readFraction cs).1.getD []).length ≤ cs.length := by
  unfold readFraction
  split
  · exact Nat.le_succ_of_le (List.takeWhile_sublist _).length_le
  · exact Nat.zero_le _

/-- The digits behind the point of a numeral that a text starts with are no more than the characters of the text. -/
theorem length_fraction_le {cs whole : List Char} {fraction : Option (List Char)} {exponent : Option Exponent} {imaginary : Bool}
    (h : (read cs).1 = .decimal whole fraction exponent imaginary) : (fraction.getD []).length ≤ cs.length := by
  have hdecimal : (read cs).1 = (readDecimal cs).1 := by
    unfold read at h ⊢
    split
    · exact nomatch h
    · exact nomatch h
    · rfl
  obtain ⟨exponent', imaginary', heq⟩ := readDecimal_eq cs
  rw [hdecimal, heq] at h
  injection h with _ hfraction
  rw [← hfraction]
  exact Nat.le_trans (length_readFraction_le _) (List.dropWhile_sublist _).length_le

/-- The value of a numeral that stands in a text shorter than `2 ^ 31` characters is computed without a failure. -/
theorem floatValue64?_of_read {cs whole : List Char} {fraction : Option (List Char)} {exponent : Option Exponent} {imaginary : Bool}
    (hcs : cs.length < 2 ^ 31) (h : (read cs).1 = .decimal whole fraction exponent imaginary) :
    floatValue64? whole fraction exponent = some (floatValue? whole fraction exponent) :=
  floatValue64?_eq whole exponent (Nat.lt_of_le_of_lt (length_fraction_le h) (Nat.lt_trans hcs (by decide)))

end Numeral

end GoSyntax
