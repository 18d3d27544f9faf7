import Mathlib.Data.List.Induction
import Mathlib.Data.Nat.Digits.Defs
import GoSyntax.Proofs.InRange.Literal
import GoSyntax.Proofs.Lexical.Literals

/-!
# Numerals are exact

A numeral with white space or the end of the input behind it is one token, and its value is the one that its digits denote: an integer in
the base that its first characters say, or the integer of the digits before and behind the point, scaled by a power of ten. Only if that
power is out of bounds it is zero, and the overflow is reported.
-/

namespace GoSyntax

/-! ## Digits -/

/-- The number that digits denote in a base by the places they stand at. -/
def positional (base : Nat) (ds : List Char) : Nat := Nat.ofDigits base (ds.reverse.map fun c => (digit? base c).getD 0)

theorem ofDigits_eq_positional (base : Nat) (ds : List Char) : ofDigits base ds = positional base ds := by
  induction ds using List.reverseRecOn with
  | nil => rfl
  | append_singleton ds c ih =>
    have hconcat : positional base (ds ++ [c]) = (digit? base c).getD 0 + base * positional base ds := by
      rw [positional, List.reverse_concat, List.map_cons, Nat.ofDigits_cons, positional]
    rw [ofDigits_concat, ih, hconcat]
    ring

theorem isDigit_of_isDigitOf_eight {c : Char} (h : isDigitOf 8 c = true) : c.isDigit = true ∧ c ≠ '8' ∧ c ≠ '9' := by
  refine ⟨?_, ?_, ?_⟩
  · obtain ⟨d, hd⟩ := Option.isSome_iff_exists.1 h
    obtain ⟨hvalue, hlt⟩ := Option.filter_eq_some_iff.1 hd
    have hlt := of_decide_eq_true hlt
    by_cases hdigit : ('0' ≤ c && c ≤ '9') = true
    · have hrange := Bool.and_eq_true_iff.1 hdigit
      simpa [Char.isDigit, Char.le_def] using hrange
    · rw [if_neg hdigit] at hvalue
      split at hvalue
      · next hletter =>
        have hlow : 97 ≤ c.toNat := UInt32.le_iff_toNat_le.1 (of_decide_eq_true (Bool.and_eq_true_iff.1 hletter).1)
        have := Option.some.inj hvalue
        omega
      · split at hvalue
        · next hletter =>
          have hlow : 65 ≤ c.toNat := UInt32.le_iff_toNat_le.1 (of_decide_eq_true (Bool.and_eq_true_iff.1 hletter).1)
          have := Option.some.inj hvalue
          omega
        · cases hvalue
  · rintro rfl
    exact absurd h (by decide)
  · rintro rfl
    exact absurd h (by decide)

/-! ## What stands behind a numeral -/

/-- Nothing follows, or white space. -/
def StartsSpaced (bytes : List UInt8) : Prop := ∀ b ∈ bytes.head?, b = 32 ∨ b = 9 ∨ b = 13 ∨ b = 10

/-- White space, line breaks among it. -/
def isSpace (c : Char) : Bool := isBlank c || c == '\n'

/-- Nothing stands here, or white space. -/
def Spaced (rest : List Char) : Prop := ∀ a ∈ rest.head?, isSpace a = true

theorem isSpace_cases {c : Char} (h : isSpace c = true) : c = ' ' ∨ c = '\t' ∨ c = '\r' ∨ c = '\n' := by
  simpa [isSpace, isBlank, or_assoc] using h

/-- What no white space has, the first character behind a numeral does not have. -/
theorem Spaced.head {p : Char → Prop} {rest : List Char} (h : Spaced rest) (hp : ∀ c, isSpace c = true → p c) : ∀ a ∈ rest.head?, p a :=
  fun a ha => hp a (h a ha)

theorem exists_space {b : UInt8} (h : b = 32 ∨ b = 9 ∨ b = 13 ∨ b = 10) : ∃ c, isSpace c = true ∧ String.utf8EncodeChar c = [b] := by
  rcases h with rfl | rfl | rfl | rfl
  · exact ⟨' ', rfl, by decide⟩
  · exact ⟨'\t', rfl, by decide⟩
  · exact ⟨'\r', rfl, by decide⟩
  · exact ⟨'\n', rfl, by decide⟩

/-- Who looks at white space or the end meets nothing. -/
theorem StartsSpaced.look {bytes : List UInt8} (h : StartsSpaced bytes) (path : SourcePath) (line : Nat) :
    (Feed.ofUndecoded ⟨path, bytes, line, false⟩).look 1 = ([], Feed.ofUndecoded ⟨path, bytes, line, false⟩)
      ∧ Spaced (Feed.ofUndecoded ⟨path, bytes, line, false⟩).chars := by
  cases bytes with
  | nil =>
    have hnone : Undecoded.nextRune ⟨path, [], line, false⟩ = (0, none) := (Undecoded.nextRune_behind _ _ _).trans Utf8.next_nil
    rw [Feed.ofUndecoded_of_none hnone]
    exact ⟨rfl, fun a ha => absurd ha (Option.not_mem_none _)⟩
  | cons b bytes =>
    obtain ⟨c, hc, hencode⟩ := exists_space (h b rfl)
    have hread := Utf8.readScalar_encode c bytes
    rw [hencode, List.singleton_append] at hread
    rw [Feed.ofUndecoded_of_read path hread]
    refine ⟨rfl, fun a ha => ?_⟩
    obtain rfl : c = a := Option.some.inj ha
    exact hc

/-! ## Numerals as tokens -/

/-- The text starts with a digit, or with a point and a digit. -/
def StartsNumeral : List Char → Prop
  | [] => False
  | c :: cs => c.isDigit = true ∨ c = '.' ∧ Lexeme.startsWithDigit cs = true

theorem Lexeme.read_of_startsNumeral {c : Char} {cs : List Char} (h : StartsNumeral (c :: cs)) (rest : List Char) :
    read c (cs ++ rest) = Numeral.lexeme (c :: (cs ++ rest)) := by
  rcases h with hdigit | ⟨rfl, hfraction⟩
  · exact read_of_isDigit hdigit _
  · have hstarts : startsWithDigit (cs ++ rest) = true := by
      cases cs with
      | nil => exact absurd hfraction Bool.false_ne_true
      | cons d cs => exact hfraction
    have hstart : Identifier.isStart '.' = false := by decide +kernel
    rw [read, if_neg (by decide), if_neg (by decide), if_neg (by simp), if_neg (by simp), hstart, if_neg Bool.false_ne_true, if_pos]
    rw [hstarts]
    rfl

/-- Wherever the text stands in a source, with white space or the end behind it, it is one token, a literal of this value; these faults are
reported of it, and what stands behind it is scanned as if the token stood alone in front of it. -/
def ScansAs (cs : List Char) (value : Constant) (faults : List Fault) : Prop :=
  ∀ (path : SourcePath) (bytes : List UInt8) (line : Nat) (armed atStart : Bool), StartsSpaced bytes →
    Undecoded.tokensFrom armed ⟨path, Utf8.encode cs ++ bytes, line, atStart⟩
      = (Undecoded.tokensFrom true ⟨path, bytes, line, false⟩).cons ⟨⟨.literal value, ⟨path, line⟩⟩, faults.map fun f => ⟨f, ⟨path, line⟩⟩⟩

theorem known_startsSpaced : Known StartsSpaced Spaced 1 := fun _ hbytes path line => hbytes.look path line

theorem scansAs_of_read {cs : List Char} {n : Numeral} (hstart : StartsNumeral cs) (hline : '\n' ∉ cs)
    (hread : ∀ rest, Spaced rest → Numeral.read (cs ++ rest) = (n, rest)) : ScansAs cs n.value (n.findings.map Finding.fault) := by
  cases cs with
  | nil => exact hstart.elim
  | cons c cs =>
    have hc : c ≠ byteOrderMark := by
      rintro rfl
      rcases hstart with hdigit | ⟨hpoint, -⟩
      · exact absurd hdigit (by decide)
      · exact absurd hpoint (by decide)
    have hwidth : n.width = cs.length + 1 := by
      have hwidth := Numeral.width_read (c :: cs ++ [])
      rw [hread [] fun _ ha => absurd ha (Option.not_mem_none _), List.append_nil] at hwidth
      exact hwidth
    have hreads : ReadsBefore StartsSpaced (c :: cs) n.value (n.findings.map Finding.fault) := by
      refine readsBefore_of_read known_startsSpaced hc (fun rest hrest => ⟨cs.length + 2, le_rfl, ?_⟩) fun f hf => ?_
      · have hafter : rest.takeWhile Identifier.isPart = [] := by
          have hnone : ([] ++ rest).takeWhile Identifier.isPart = [] := by
            refine takeWhile_append_of_head (fun _ h => absurd h List.not_mem_nil) (hrest.head fun c hc => ?_)
            rcases isSpace_cases hc with rfl | rfl | rfl | rfl <;> decide +kernel
          exact hnone
        rw [Lexeme.read_of_startsNumeral hstart, ← List.cons_append, Numeral.lexeme_of_read (hread rest hrest) hafter]
        rfl
      · obtain ⟨hseen, hoffset⟩ := n.findings_within f hf
        rw [hwidth] at hseen
        rw [hoffset]
        exact ⟨hseen, Nat.zero_le _, List.not_mem_nil⟩
    intro path bytes line armed atStart hbytes
    have htokens := hreads path bytes line armed atStart hbytes
    rwa [List.count_eq_zero_of_not_mem hline] at htokens

/-! ## Numerals as they are written -/

/-- A numeral in base ten as it is written: digits, a point and digits, and the mark, the sign and the digits of an exponent. -/
structure WrittenNumeral where
  whole : List Char
  fraction : Option (List Char)
  exponent : Option (Char × Exponent)
  whole_isDigit : ∀ c ∈ whole, c.isDigit = true
  fraction_isDigit : ∀ c ∈ fraction.getD [], c.isDigit = true
  hasDigit : whole ++ fraction.getD [] ≠ []
  mark : ∀ e ∈ exponent, e.1 = 'e' ∨ e.1 = 'E'
  sign : ∀ e ∈ exponent, e.2.sign = none ∨ e.2.sign = some '+' ∨ e.2.sign = some '-'
  exponent_ne_nil : ∀ e ∈ exponent, e.2.digits ≠ []
  exponent_isDigit : ∀ e ∈ exponent, ∀ c ∈ e.2.digits, c.isDigit = true

namespace WrittenNumeral

/-- A point and the digits behind it. -/
def fractionText : Option (List Char) → List Char
  | none => []
  | some ds => '.' :: ds

/-- The mark of an exponent, its sign and its digits. -/
def exponentText : Option (Char × Exponent) → List Char
  | none => []
  | some (mark, e) => mark :: (e.sign.toList ++ e.digits)

/-- The mark of an imaginary number. -/
def imaginaryText (imaginary : Bool) : List Char := if imaginary then ['i'] else []

variable (w : WrittenNumeral)

/-- The characters of the numeral. -/
def text : List Char := w.whole ++ (fractionText w.fraction ++ exponentText w.exponent)

/-- The numeral has a point or an exponent. -/
def isFloat : Bool := w.fraction.isSome || w.exponent.isSome

/-- The digits before and behind the point. -/
def digits : List Char := w.whole ++ w.fraction.getD []

/-- The value of the exponent, zero if there is none. -/
def power : Int :=
  match w.exponent with
  | none => 0
  | some (_, e) => if e.sign = some '-' then -(positional 10 e.digits : Int) else positional 10 e.digits

/-- The power of ten that the integer of all digits is scaled by. -/
def scale : Int := w.power - (w.fraction.getD []).length

/-- The value that the numeral denotes. -/
def value : Rat := positional 10 w.digits * 10 ^ w.scale

/-- The parts of the numeral. -/
def numeral (imaginary : Bool) : Numeral := .decimal w.whole w.fraction (w.exponent.map Prod.snd) imaginary

/-! ## Reading -/

/-- What can stand behind the digits of a numeral: the mark of an imaginary number, or white space. -/
def EndsDigits (c : Char) : Prop := c.isDigit = false ∧ c ≠ '.' ∧ (c ≠ 'e' ∧ c ≠ 'E') ∧ c ≠ 'x' ∧ c ≠ 'X'

instance (c : Char) : Decidable (EndsDigits c) := inferInstanceAs (Decidable (_ ∧ _))

variable {w} {rest tail : List Char}

theorem endsDigits_tail (imaginary : Bool) (hrest : Spaced rest) : ∀ a ∈ (imaginaryText imaginary ++ rest).head?, EndsDigits a := by
  intro a ha
  have hcases : a = 'i' ∨ isSpace a = true := by
    cases imaginary with
    | true => exact .inl (Option.some.inj ha).symm
    | false => exact .inr (hrest a ha)
  rcases hcases with rfl | hspace
  · decide
  · rcases isSpace_cases hspace with rfl | rfl | rfl | rfl <;> decide

theorem readExponent_text (htail : ∀ a ∈ tail.head?, EndsDigits a) :
    Numeral.readExponent (exponentText w.exponent ++ tail) = (w.exponent.map Prod.snd, tail) := by
  cases hexponent : w.exponent with
  | none => exact Numeral.readExponent_of_head fun a ha => (htail a ha).2.2.1
  | some e =>
    obtain ⟨mark, sign, ds⟩ := e
    have hdigits : ∀ c ∈ ds, c.isDigit = true := w.exponent_isDigit _ hexponent
    refine Numeral.readExponent_of_mark (w.mark _ hexponent) ?_ hdigits fun a ha => (htail a ha).1
    rcases w.sign _ hexponent with hsign | hsign | hsign
    · obtain rfl : sign = none := hsign
      exact Numeral.readSign_of_isDigit (w.exponent_ne_nil _ hexponent) hdigits tail
    · obtain rfl : sign = some '+' := hsign
      rfl
    · obtain rfl : sign = some '-' := hsign
      rfl

/-- Behind the digits in front of an exponent stands its mark or what can stand behind a numeral. -/
theorem head_exponentText (htail : ∀ a ∈ tail.head?, EndsDigits a) :
    ∀ a ∈ (exponentText w.exponent ++ tail).head?, a.isDigit = false ∧ a ≠ '.' ∧ a ≠ 'x' ∧ a ≠ 'X' := by
  intro a ha
  cases hexponent : w.exponent with
  | none =>
    rw [hexponent] at ha
    obtain ⟨hdigit, hpoint, -, hmarks⟩ := htail a ha
    exact ⟨hdigit, hpoint, hmarks⟩
  | some e =>
    rw [hexponent] at ha
    obtain rfl : e.1 = a := Option.some.inj ha
    rcases w.mark e hexponent with hmark | hmark <;> rw [hmark] <;> decide

theorem readFraction_text (htail : ∀ a ∈ tail.head?, EndsDigits a) :
    Numeral.readFraction (fractionText w.fraction ++ (exponentText w.exponent ++ tail))
    = (w.fraction, exponentText w.exponent ++ tail) := by
  have hhead := head_exponentText (w := w) htail
  cases hfraction : w.fraction with
  | none => exact Numeral.readFraction_of_head fun a ha => (hhead a ha).2.1
  | some ds =>
    have hdigits : ∀ c ∈ ds, c.isDigit = true := by
      have hall := w.fraction_isDigit
      rwa [hfraction] at hall
    have hpoint : ∀ cs, Numeral.readFraction ('.' :: cs) = (some (cs.takeWhile Char.isDigit), cs.dropWhile Char.isDigit) := fun _ => rfl
    rw [fractionText, List.cons_append, hpoint, takeWhile_append_of_head hdigits fun a ha => (hhead a ha).1,
      dropWhile_append_of_head hdigits fun a ha => (hhead a ha).1]

theorem head_fractionText (htail : ∀ a ∈ tail.head?, EndsDigits a) :
    ∀ a ∈ (fractionText w.fraction ++ (exponentText w.exponent ++ tail)).head?, a.isDigit = false ∧ a ≠ 'x' ∧ a ≠ 'X' := by
  intro a ha
  cases hfraction : w.fraction with
  | none =>
    rw [hfraction] at ha
    obtain ⟨hdigit, -, hmarks⟩ := head_exponentText htail a ha
    exact ⟨hdigit, hmarks⟩
  | some ds =>
    rw [hfraction] at ha
    obtain rfl : '.' = a := Option.some.inj ha
    decide

/-- A numeral is read back, whatever stands behind the white space after it. -/
theorem read_text (imaginary : Bool) (hrest : Spaced rest) :
    Numeral.read (w.text ++ imaginaryText imaginary ++ rest) = (w.numeral imaginary, rest) := by
  have htail := endsDigits_tail imaginary hrest
  have hfraction := readFraction_text (w := w) htail
  have hexponent := readExponent_text (w := w) htail
  have hhead := head_fractionText (w := w) htail
  have hsplit : w.text ++ imaginaryText imaginary ++ rest
      = w.whole ++ (fractionText w.fraction ++ (exponentText w.exponent ++ (imaginaryText imaginary ++ rest))) := by simp [text]
  rw [hsplit, Numeral.read_of_digits w.whole_isDigit hhead]
  simp only [Numeral.readDecimal, takeWhile_append_of_head w.whole_isDigit fun a ha => (hhead a ha).1,
    dropWhile_append_of_head w.whole_isDigit fun a ha => (hhead a ha).1, hfraction, hexponent]
  cases imaginary with
  | true => rfl
  | false =>
    rw [imaginaryText, if_neg Bool.false_ne_true, List.nil_append]
    split
    · exact absurd (hrest 'i' rfl) (by decide)
    · rfl

theorem startsNumeral_text (imaginary : Bool) : StartsNumeral (w.text ++ imaginaryText imaginary) := by
  cases hwhole : w.whole with
  | nil =>
    cases hfraction : w.fraction with
    | none => exact absurd (by rw [hwhole, hfraction]; rfl) w.hasDigit
    | some ds =>
      have hdigits := w.fraction_isDigit
      rw [hfraction, Option.getD_some] at hdigits
      cases ds with
      | nil => exact absurd (by rw [hwhole, hfraction]; rfl) w.hasDigit
      | cons d ds =>
        rw [text, hwhole, hfraction]
        exact .inr ⟨rfl, hdigits d List.mem_cons_self⟩
  | cons d ds =>
    rw [text, hwhole]
    exact .inl (w.whole_isDigit d (hwhole ▸ List.mem_cons_self))

theorem lineFeed_notMem_text (imaginary : Bool) : '\n' ∉ w.text ++ imaginaryText imaginary := by
  have hdigits : ∀ {ds : List Char}, (∀ c ∈ ds, c.isDigit = true) → '\n' ∉ ds := fun hds hmem => absurd (hds _ hmem) (by decide)
  have hfraction : '\n' ∉ fractionText w.fraction := by
    have hall := hdigits w.fraction_isDigit
    cases hfraction : w.fraction with
    | none => exact List.not_mem_nil
    | some ds =>
      rw [hfraction] at hall
      simpa [fractionText] using hall
  have hexponent : '\n' ∉ exponentText w.exponent := by
    cases hexponent : w.exponent with
    | none => exact List.not_mem_nil
    | some e =>
      have hall := hdigits (w.exponent_isDigit e hexponent)
      have hmark : '\n' ≠ e.1 := by rcases w.mark e hexponent with h | h <;> rw [h] <;> decide
      have hsign : '\n' ∉ e.2.sign.toList := by rcases w.sign e hexponent with h | h | h <;> rw [h] <;> decide
      simpa [exponentText, hmark, hall] using hsign
  have himaginary : '\n' ∉ imaginaryText imaginary := by cases imaginary <;> decide
  simp only [text, List.mem_append, not_or]
  exact ⟨⟨hdigits w.whole_isDigit, hfraction, hexponent⟩, himaginary⟩

theorem scansAs (w : WrittenNumeral) (imaginary : Bool) :
    ScansAs (w.text ++ imaginaryText imaginary) (w.numeral imaginary).value ((w.numeral imaginary).findings.map Finding.fault) :=
  scansAs_of_read (startsNumeral_text imaginary) (lineFeed_notMem_text imaginary) fun _ hrest => read_text imaginary hrest

/-! ## Values -/

theorem exponentValue_eq (w : WrittenNumeral) : Numeral.exponentValue (w.exponent.map Prod.snd) = w.power := by
  cases hexponent : w.exponent with
  | none => rw [power, hexponent]; rfl
  | some e =>
    rw [power, hexponent]
    simp only [Option.map_some, Numeral.exponentValue, ofDigits_eq_positional]

theorem floatValue?_eq (w : WrittenNumeral) : Numeral.floatValue? w.whole w.fraction (w.exponent.map Prod.snd)
    = if w.scale.natAbs ≤ Numeral.maxScale then some w.value else none := by
  have hscale : Numeral.floatValue? w.whole w.fraction (w.exponent.map Prod.snd) = Numeral.scale? (positional 10 w.digits) w.scale := by
    rw [Numeral.floatValue?, exponentValue_eq, ofDigits_eq_positional]
    rfl
  rw [hscale]
  by_cases hbound : w.scale.natAbs ≤ Numeral.maxScale
  · rw [if_pos hbound, Numeral.scale?_eq_some_iff]
    exact ⟨hbound, rfl⟩
  · rw [if_neg hbound]
    exact Numeral.scale?_of_lt _ (Nat.lt_of_not_le hbound)

/-- With a point, an exponent or an `i` a numeral is a scaled number, and nothing can be wrong with it but its scale. -/
theorem value_numeral (w : WrittenNumeral) {imaginary : Bool} (h : w.isFloat = true ∨ imaginary = true) {v? : Option Rat}
    (hv : Numeral.floatValue? w.whole w.fraction (w.exponent.map Prod.snd) = v?) :
    (w.numeral imaginary).value = (if imaginary then .complex 0 (v?.getD 0) else .float (v?.getD 0))
      ∧ (w.numeral imaginary).findings.map Finding.fault = if v?.isNone then [.floatOverflow] else [] := by
  have hdigits : ∀ sign, w.exponent.map Prod.snd ≠ some ⟨sign, []⟩ := by
    intro sign he
    obtain ⟨e, he, hparts⟩ := Option.map_eq_some_iff.1 he
    exact w.exponent_ne_nil e he (congrArg Exponent.digits hparts)
  have hscaled : w.fraction ≠ none ∨ w.exponent.map Prod.snd ≠ none ∨ imaginary = true := by
    rw [isFloat, Bool.or_eq_true, Option.isSome_iff_ne_none, Option.isSome_iff_ne_none] at h
    rcases h with (hfraction | hexponent) | himaginary
    · exact .inl hfraction
    · exact .inr (.inl fun hnone => hexponent (Option.map_eq_none_iff.1 hnone))
    · exact .inr (.inr himaginary)
  rw [numeral]
  subst hv
  generalize w.exponent.map Prod.snd = exponent at hdigits hscaled ⊢
  generalize w.fraction = fraction at hscaled ⊢
  constructor
  · unfold Numeral.value
    grind [Constant.imaginary]
  · unfold Numeral.findings
    grind

/-- The value of a float or an imaginary number is exact if its scale is within bounds. -/
theorem scansAs_of_scale_le (w : WrittenNumeral) (imaginary : Bool) (h : w.isFloat = true ∨ imaginary = true)
    (hscale : w.scale.natAbs ≤ Numeral.maxScale) :
    ScansAs (w.text ++ imaginaryText imaginary) (if imaginary then .complex 0 w.value else .float w.value) [] := by
  have hscans := w.scansAs imaginary
  obtain ⟨hvalue, hfaults⟩ := w.value_numeral h (w.floatValue?_eq.trans (if_pos hscale))
  rwa [hvalue, hfaults] at hscans

/-- Beyond the bounds it is zero, and the overflow is reported. -/
theorem scansAs_of_lt_scale (w : WrittenNumeral) (imaginary : Bool) (h : w.isFloat = true ∨ imaginary = true)
    (hscale : Numeral.maxScale < w.scale.natAbs) :
    ScansAs (w.text ++ imaginaryText imaginary) (if imaginary then .complex 0 0 else .float 0) [.floatOverflow] := by
  have hscans := w.scansAs imaginary
  obtain ⟨hvalue, hfaults⟩ := w.value_numeral h (w.floatValue?_eq.trans (if_neg (Nat.not_le.2 hscale)))
  rwa [hvalue, hfaults] at hscans

/-- Digits alone. -/
def ofDigits (ds : List Char) (hne : ds ≠ []) (hds : ∀ c ∈ ds, c.isDigit = true) : WrittenNumeral where
  whole := ds
  fraction := none
  exponent := none
  whole_isDigit := hds
  fraction_isDigit _ h := absurd h List.not_mem_nil
  hasDigit := by rwa [Option.getD_none, List.append_nil]
  mark _ h := absurd h (Option.not_mem_none _)
  sign _ h := absurd h (Option.not_mem_none _)
  exponent_ne_nil _ h := absurd h (Option.not_mem_none _)
  exponent_isDigit _ h := absurd h (Option.not_mem_none _)

/-- The same with an exponent of these digits. -/
def scaledBy (w : WrittenNumeral) (ds : List Char) (hne : ds ≠ []) (hds : ∀ c ∈ ds, c.isDigit = true) : WrittenNumeral where
  whole := w.whole
  fraction := w.fraction
  exponent := some ('e', ⟨none, ds⟩)
  whole_isDigit := w.whole_isDigit
  fraction_isDigit := w.fraction_isDigit
  hasDigit := w.hasDigit
  mark _ h := .inl (Option.some.inj h ▸ rfl)
  sign _ h := .inl (Option.some.inj h ▸ rfl)
  exponent_ne_nil _ h := Option.some.inj h ▸ hne
  exponent_isDigit _ h := Option.some.inj h ▸ hds

/-- Digits alone are the integer that they are read as. -/
theorem scansAs_ofDigits {ds : List Char} (hne : ds ≠ []) (hds : ∀ c ∈ ds, c.isDigit = true) :
    ScansAs ds (Numeral.decimal ds none none false).value ((Numeral.decimal ds none none false).findings.map Finding.fault) := by
  have hscans := (ofDigits ds hne hds).scansAs false
  have htext : (ofDigits ds hne hds).text ++ imaginaryText false = ds := by
    rw [text, imaginaryText, if_neg Bool.false_ne_true, List.append_nil]
    exact List.append_nil ds
  rwa [htext] at hscans

end WrittenNumeral

/-! ## All numerals -/

/-- Digits of base eight behind a zero. -/
theorem scansAs_octal {ds : List Char} (hne : ds ≠ []) (hds : ∀ c ∈ ds, isDigitOf 8 c = true) :
    ScansAs ('0' :: ds) (.int (positional 8 ds)) [] := by
  have hdigits : ∀ c ∈ '0' :: ds, c.isDigit = true :=
    List.forall_mem_cons.2 ⟨by decide, fun c hc => (isDigit_of_isDigitOf_eight (hds c hc)).1⟩
  have hoctal : Numeral.isOctal ('0' :: ds) = true := by
    obtain ⟨d, ds, rfl⟩ := List.exists_cons_of_ne_nil hne
    rfl
  have hproper : Numeral.misusesOctal ('0' :: ds) = false := by
    rw [Numeral.misusesOctal, hoctal, Bool.true_and, List.any_eq_false]
    intro c hc
    rcases List.mem_cons.1 hc with rfl | hc
    · decide
    · obtain ⟨-, height, hnine⟩ := isDigit_of_isDigitOf_eight (hds c hc)
      simp [height, hnine]
  have hzero : GoSyntax.ofDigits 8 ('0' :: ds) = positional 8 ds := by
    rw [← ofDigits_eq_positional]
    rfl
  have hvalue : (Numeral.decimal ('0' :: ds) none none false).value = .int (positional 8 ds) := by
    rw [Numeral.value, Numeral.integerValue, hoctal, hproper, hzero]
    rfl
  have hfaults : (Numeral.decimal ('0' :: ds) none none false).findings = [] := by
    rw [Numeral.findings, hproper]
    rfl
  have hscans := WrittenNumeral.scansAs_ofDigits (List.cons_ne_nil '0' ds) hdigits
  rwa [hvalue, hfaults] at hscans

/-- Digits of base ten without a superfluous zero. -/
theorem scansAs_decimal {ds : List Char} (hne : ds ≠ []) (hds : ∀ c ∈ ds, c.isDigit = true) (hzero : ds.head? = some '0' → ds = ['0']) :
    ScansAs ds (.int (positional 10 ds)) [] := by
  have hscans := WrittenNumeral.scansAs_ofDigits hne hds
  obtain ⟨hvalue, hfaults⟩ := Numeral.integer_of_noZero hzero
  rwa [hvalue, hfaults, ofDigits_eq_positional] at hscans

/-- Digits of base sixteen behind their mark. -/
theorem scansAs_hexadecimal {mark : Char} {ds : List Char} (hmark : mark = 'x' ∨ mark = 'X') (hne : ds ≠ [])
    (hds : ∀ c ∈ ds, isDigitOf 16 c = true) : ScansAs ('0' :: mark :: ds) (.int (positional 16 ds)) [] := by
  have hread : ∀ rest, Spaced rest → Numeral.read ('0' :: mark :: ds ++ rest) = (.hexadecimal ds, rest) := by
    intro rest hrest
    have hhead : ∀ a ∈ rest.head?, isDigitOf 16 a = false := hrest.head fun c hc => by
      rcases isSpace_cases hc with rfl | rfl | rfl | rfl <;> decide
    have hstart : Numeral.read ('0' :: mark :: (ds ++ rest))
        = (.hexadecimal ((ds ++ rest).takeWhile (isDigitOf 16)), (ds ++ rest).dropWhile (isDigitOf 16)) := by
      rcases hmark with rfl | rfl <;> rfl
    rw [List.cons_append, List.cons_append, hstart, takeWhile_append_of_head hds hhead, dropWhile_append_of_head hds hhead]
  have hline : '\n' ∉ '0' :: mark :: ds := by
    have hdigits : '\n' ∉ ds := fun hmem => absurd (hds _ hmem) (by decide)
    rcases hmark with rfl | rfl <;> simpa using hdigits
  have hstart : StartsNumeral ('0' :: mark :: ds) := Or.inl (by decide : '0'.isDigit = true)
  have hscans := scansAs_of_read hstart hline hread
  have hempty : ds.isEmpty = false := List.isEmpty_eq_false_iff.2 hne
  have hvalue : (Numeral.hexadecimal ds).value = .int (positional 16 ds) := by
    rw [← ofDigits_eq_positional]
    rfl
  have hfaults : (Numeral.hexadecimal ds).findings = [] := by
    rw [Numeral.findings, hempty]
    rfl
  rwa [hvalue, hfaults] at hscans

/-- At the start of a source the literal is the first token, and its faults are the first that are reported. -/
theorem ScansAs.tokenize {cs : List Char} {value : Constant} {faults : List Fault} (h : ScansAs cs value faults) (path : SourcePath)
    {bytes : List UInt8} (hbytes : StartsSpaced bytes) : GoSyntax.tokenize path (Utf8.encode cs ++ bytes)
      = (⟨.literal value, ⟨path, 1⟩⟩ :: (Undecoded.tokensFrom true ⟨path, bytes, 1, false⟩).values,
        (faults.map fun f => ⟨f, ⟨path, 1⟩⟩) ++ (Undecoded.tokensFrom true ⟨path, bytes, 1, false⟩).pending) := by
  have htokens : Feed.tokens path (Utf8.encode cs ++ bytes) = _ := h path bytes 1 false true hbytes
  rw [GoSyntax.tokenize, htokens, Feed.values_cons, Feed.pending_cons]

/-- Numerals are exact, whatever their length. Integers have the value of their digits in the base that their first characters say, and
nothing is reported. A number with a point or an exponent, or with an `i` behind it, is the integer of its digits scaled by a power of ten,
if that power is within bounds, and nothing is reported; else it is zero, and the overflow is reported once. This is also what comes of it
if the power is kept in a 64-bit integer, as long as the digits behind the point can be counted in one. -/
theorem numerals_exact :
    (∀ ds : List Char, ds ≠ [] → (∀ c ∈ ds, c.isDigit = true) → (ds.head? = some '0' → ds = ['0']) → ScansAs ds (.int (positional 10 ds)) [])
      ∧ (∀ ds : List Char, ds ≠ [] → (∀ c ∈ ds, isDigitOf 8 c = true) → ScansAs ('0' :: ds) (.int (positional 8 ds)) [])
      ∧ (∀ (mark : Char) (ds : List Char), mark = 'x' ∨ mark = 'X' → ds ≠ [] → (∀ c ∈ ds, isDigitOf 16 c = true) →
        ScansAs ('0' :: mark :: ds) (.int (positional 16 ds)) [])
      ∧ ∀ w : WrittenNumeral,
        (w.isFloat = true → w.scale.natAbs ≤ 65536 → ScansAs w.text (.float (positional 10 w.digits * 10 ^ w.scale)) [])
        ∧ (w.isFloat = true → 65536 < w.scale.natAbs → ScansAs w.text (.float 0) [.floatOverflow])
        ∧ (w.scale.natAbs ≤ 65536 → ScansAs (w.text ++ ['i']) (.complex 0 (positional 10 w.digits * 10 ^ w.scale)) [])
        ∧ (65536 < w.scale.natAbs → ScansAs (w.text ++ ['i']) (.complex 0 0) [.floatOverflow])
        ∧ ((w.fraction.getD []).length < 2 ^ 62 → Numeral.floatValue64? w.whole w.fraction (w.exponent.map Prod.snd)
          = some (Numeral.floatValue? w.whole w.fraction (w.exponent.map Prod.snd))) := by
  refine ⟨fun _ => scansAs_decimal, fun _ => scansAs_octal, fun _ _ => scansAs_hexadecimal, fun w => ⟨?_, ?_, ?_, ?_, ?_⟩⟩
  · intro hfloat hscale
    have hscans := w.scansAs_of_scale_le false (.inl hfloat) hscale
    rwa [WrittenNumeral.imaginaryText, if_neg Bool.false_ne_true, List.append_nil] at hscans
  · intro hfloat hscale
    have hscans := w.scansAs_of_lt_scale false (.inl hfloat) hscale
    rwa [WrittenNumeral.imaginaryText, if_neg Bool.false_ne_true, List.append_nil] at hscans
  · intro hscale
    exact w.scansAs_of_scale_le true (.inr rfl) hscale
  · intro hscale
    exact w.scansAs_of_lt_scale true (.inr rfl) hscale
  · intro hlength
    exact Numeral.floatValue64?_eq w.whole _ hlength

/-- `10`, `017`, `0x1F`, `1e3` and `1e70000`, and `08i` and `1e70000i`. -/
theorem numerals_exact_samples :
    ScansAs ['1', '0'] (.int 10) [] ∧ ScansAs ['0', '1', '7'] (.int 15) [] ∧ ScansAs ['0', 'x', '1', 'F'] (.int 31) []
      ∧ ScansAs ['1', 'e', '3'] (.float (1 * 10 ^ (3 : Int))) [] ∧ ScansAs ['1', 'e', '7', '0', '0', '0', '0'] (.float 0) [.floatOverflow]
      ∧ ScansAs ['0', '8', 'i'] (.complex 0 (8 * 10 ^ (0 : Int))) []
      ∧ ScansAs ['1', 'e', '7', '0', '0', '0', '0', 'i'] (.complex 0 0) [.floatOverflow]
      ∧ Numeral.floatValue64? ['1'] none (some ⟨none, ['3']⟩) = some (Numeral.floatValue? ['1'] none (some ⟨none, ['3']⟩)) := by
  obtain ⟨hdecimal, hoctal, hhexadecimal, hscaled⟩ := numerals_exact
  have hsmall := hscaled ((WrittenNumeral.ofDigits ['1'] (List.cons_ne_nil _ _) (List.all_eq_true.1 rfl)).scaledBy ['3'] (List.cons_ne_nil _ _)
    (List.all_eq_true.1 rfl))
  have hlarge := hscaled ((WrittenNumeral.ofDigits ['1'] (List.cons_ne_nil _ _) (List.all_eq_true.1 rfl)).scaledBy ['7', '0', '0', '0', '0']
    (List.cons_ne_nil _ _) (List.all_eq_true.1 rfl))
  have hzeros := hscaled (WrittenNumeral.ofDigits ['0', '8'] (List.cons_ne_nil _ _) (List.all_eq_true.1 rfl))
  refine ⟨hdecimal ['1', '0'] (List.cons_ne_nil _ _) (List.all_eq_true.1 rfl) (by decide),
    hoctal ['1', '7'] (List.cons_ne_nil _ _) (List.all_eq_true.1 rfl),
    hhexadecimal 'x' ['1', 'F'] (.inl rfl) (List.cons_ne_nil _ _) (List.all_eq_true.1 rfl), hsmall.1 rfl (by decide), hlarge.2.1 rfl (by decide),
    hzeros.2.2.1 (by decide), hlarge.2.2.2.1 (by decide), hsmall.2.2.2.2 (by decide)⟩

end GoSyntax
