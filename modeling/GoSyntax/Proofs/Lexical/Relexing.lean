import GoSyntax.Proofs.Lexical.Spelling

/-!
# Tokens read back

A token that is written out, with a blank or nothing behind it, is read back as it is, and nothing is found. For a word and for digits
this is since all their characters go on with them and a blank does not; for a symbol, since no spelling has a blank in it, so that no
longer one begins there; for what stands between quotes, since each escape takes the digits it needs and the closing quote comes next.
-/

namespace GoSyntax

/-- Nothing stands here, or a blank. -/
def Bounded (rest : List Char) : Prop := ∀ a ∈ rest.head?, isBlank a = true

theorem bounded_nil : Bounded [] := fun _ ha => nomatch ha

/-- A text is read as a token of a kind, with nothing found, whatever stands behind a blank after it. -/
def ReadsAs (cs : List Char) (kind : TokenKind) : Prop :=
  ∃ c cs', cs = c :: cs' ∧ ∀ rest, Bounded rest → ∃ seen, Lexeme.read c (cs' ++ rest) = ⟨.token kind, cs'.length, seen, []⟩

/-! ## Runs of characters -/

section Runs

variable {p : Char → Bool} {cs rest : List Char}

theorem isBlank_cases {a : Char} (h : isBlank a = true) : a = ' ' ∨ a = '\t' ∨ a = '\r' := by
  simpa [isBlank, or_assoc] using h

/-- What no blank has, the first character behind a token does not have. -/
theorem Bounded.head_eq_false (h : Bounded rest) (hspace : p ' ' = false) (htab : p '\t' = false) (hreturn : p '\r' = false) :
    ∀ a ∈ rest.head?, p a = false := fun a ha => by
  rcases isBlank_cases (h a ha) with rfl | rfl | rfl
  · exact hspace
  · exact htab
  · exact hreturn

theorem takeWhile_append_of_head (hcs : ∀ c ∈ cs, p c = true) (hrest : ∀ a ∈ rest.head?, p a = false) : (cs ++ rest).takeWhile p = cs := by
  rw [List.takeWhile_append_of_pos hcs]
  cases rest with
  | nil => exact List.append_nil _
  | cons a rest => rw [List.takeWhile_cons_of_neg (by rw [hrest a rfl]; exact Bool.false_ne_true), List.append_nil]

theorem dropWhile_append_of_head (hcs : ∀ c ∈ cs, p c = true) (hrest : ∀ a ∈ rest.head?, p a = false) :
    (cs ++ rest).dropWhile p = rest := by
  rw [List.dropWhile_append_of_pos hcs]
  cases rest with
  | nil => rfl
  | cons a rest => rw [List.dropWhile_cons_of_neg (by rw [hrest a rfl]; exact Bool.false_ne_true)]

theorem Bounded.takeWhile_isPart (h : Bounded rest) : rest.takeWhile Identifier.isPart = [] := by
  have hnone : ([] ++ rest).takeWhile Identifier.isPart = [] :=
    takeWhile_append_of_head nofun (h.head_eq_false (by decide +kernel) (by decide +kernel) (by decide +kernel))
  exact hnone

end Runs

/-! ## Words and symbols -/

namespace Lexeme

theorem read_of_isStart {c : Char} (h : Identifier.isStart c = true) (cs : List Char) : read c cs = word c cs := by
  have hne : ∀ {a}, Identifier.isStart a = false → c ≠ a := fun ha hc => by
    rw [hc, ha] at h
    nomatch h
  have hblank : isBlank c = false := Bool.eq_false_iff.2 fun hblank => by
    rcases isBlank_cases hblank with rfl | rfl | rfl <;> exact absurd h (by decide +kernel)
  have hslash : decide (c = '/') = false := decide_eq_false (hne (by decide +kernel))
  rw [read, if_neg (hne (by decide +kernel)), hblank, hslash, h]
  rfl

/-- A word with a blank or nothing behind it. -/
theorem readsAs_word {c : Char} {cs : List Char} (hc : Identifier.isStart c = true) (hcs : ∀ d ∈ cs, Identifier.isPart d = true) :
    ReadsAs (c :: cs) (wordKind (String.ofList (c :: cs))) := by
  refine ⟨c, cs, rfl, fun rest hrest => ⟨cs.length + 2, ?_⟩⟩
  have hword := takeWhile_append_of_head hcs (hrest.head_eq_false (by decide +kernel) (by decide +kernel) (by decide +kernel))
  rw [read_of_isStart hc, word]
  simp only [hword]

theorem readsAs_keyword (k : Keyword) : ReadsAs k.spelling.toList (.keyword k) := by
  have hall : ∀ k ∈ Keyword.all, k.spelling.toList.all Identifier.isStart = true := by decide +kernel
  have hne : ∀ k ∈ Keyword.all, k.spelling.toList ≠ [] := by decide +kernel
  obtain ⟨c, cs, hcs⟩ := List.exists_cons_of_ne_nil (hne k (Keyword.mem_all k))
  have hstart := List.all_eq_true.1 (hall k (Keyword.mem_all k))
  rw [hcs] at hstart ⊢
  have hkind : wordKind (String.ofList (c :: cs)) = .keyword k := by
    rw [wordKind, ← hcs, String.ofList_toList, Keyword.ofSpelling?_spelling]
  rw [← hkind]
  exact readsAs_word (hstart c List.mem_cons_self) fun d hd => Identifier.isPart_of_isStart (hstart d (List.mem_cons_of_mem _ hd))

/-- The first character of a text with a blank or nothing behind it is its own, or a blank. -/
theorem head?_append_cases {cs rest : List Char} (hrest : Bounded rest) {a : Char} (h : (cs ++ rest).head? = some a) :
    cs.head? = some a ∨ isBlank a = true := by
  cases cs with
  | nil => exact .inr (hrest a h)
  | cons c cs => exact .inl h

theorem startsWithDigit_append {cs rest : List Char} (hrest : Bounded rest) (h : startsWithDigit cs = false) :
    startsWithDigit (cs ++ rest) = false := by
  cases cs with
  | nil =>
    cases rest with
    | nil => rfl
    | cons a rest => exact hrest.head_eq_false (p := Char.isDigit) (by decide) (by decide) (by decide) a rfl
  | cons c cs => exact h

/-- What a text starts with is left to the symbols. -/
def IsSymbolic (c : Char) (cs : List Char) : Prop :=
  c ≠ '\n' ∧ isBlank c = false ∧ (c = '/' → cs.head? ≠ some '/' ∧ cs.head? ≠ some '*') ∧ Identifier.isStart c = false ∧ c.isDigit = false
    ∧ (c = '.' → startsWithDigit cs = false) ∧ c ≠ '"' ∧ c ≠ '\x60' ∧ c ≠ '\''

instance (c : Char) (cs : List Char) : Decidable (IsSymbolic c cs) := inferInstanceAs (Decidable (_ ∧ _))

theorem read_of_isSymbolic {c : Char} {cs rest : List Char} (h : IsSymbolic c cs) (hrest : Bounded rest) :
    read c (cs ++ rest) = symbol c (cs ++ rest) := by
  obtain ⟨hbreak, hblank, hcomment, hstart, hdigit, hdot, hstring, hraw, hrune⟩ := h
  have hslash : ∀ a, isBlank a = false → (c = '/' → cs.head? ≠ some a) → ¬(c = '/' && (cs ++ rest).head? == some a) = true := by
    intro a ha hcs heq
    obtain ⟨hc, hhead⟩ := Bool.and_eq_true_iff.1 heq
    rcases head?_append_cases hrest (eq_of_beq hhead) with hhead | hhead
    · exact hcs (of_decide_eq_true hc) hhead
    · nomatch ha.symm.trans hhead
  have hnumeral : ¬(c.isDigit || (c = '.' && startsWithDigit (cs ++ rest))) = true := by
    rw [hdigit, Bool.false_or]
    intro heq
    obtain ⟨hc, hfraction⟩ := Bool.and_eq_true_iff.1 heq
    nomatch (startsWithDigit_append hrest (hdot (of_decide_eq_true hc))).symm.trans hfraction
  rw [read, if_neg hbreak, hblank, if_neg (hslash _ (by decide) fun hc => (hcomment hc).1),
    if_neg (hslash _ (by decide) fun hc => (hcomment hc).2), hstart, if_neg hnumeral, if_neg hstring, if_neg hraw, if_neg hrune]
  rfl

/-- Symbols are told from all else by how they start, and are no part of a longer one. -/
theorem symbol_spelling (s : Symbol) : ∃ c cs, s.spelling.toList = c :: cs ∧ IsSymbolic c cs
    ∧ symbol c cs = ⟨.token s.tokenKind, cs.length, Symbol.maxLength, []⟩ := by
  have hall : ∀ s ∈ Symbol.all, s.spelling.toList.any (fun c => s.spelling.toList = c :: s.spelling.toList.tail
      ∧ IsSymbolic c s.spelling.toList.tail
      ∧ symbol c s.spelling.toList.tail = ⟨.token s.tokenKind, s.spelling.toList.tail.length, Symbol.maxLength, []⟩)
        = true := by decide +kernel
  obtain ⟨c, -, hs⟩ := List.any_iff_exists_prop.1 (hall s (Symbol.mem_all s))
  exact ⟨c, _, hs⟩

theorem readsAs_symbol (s : Symbol) : ReadsAs s.spelling.toList s.tokenKind := by
  obtain ⟨c, cs, hcs, hsymbolic, hsymbol⟩ := symbol_spelling s
  refine ⟨c, cs, hcs, fun rest hrest => ⟨Symbol.maxLength, ?_⟩⟩
  rw [read_of_isSymbolic hsymbolic hrest, ← hsymbol]
  cases rest with
  | nil => rw [List.append_nil]
  | cons a rest =>
    refine symbol_append c cs rest ?_
    rcases isBlank_cases (hrest a rfl) with rfl | rfl | rfl <;> decide +kernel

end Lexeme

/-! ## Numerals -/

theorem isDigit_cases {c : Char} (h : c.isDigit = true) : c ∈ "0123456789".toList := by
  have hrange : 48 ≤ c.toNat ∧ c.toNat ≤ 57 := by
    obtain ⟨hlow, hhigh⟩ := Bool.and_eq_true_iff.1 h
    exact ⟨UInt32.le_iff_toNat_le.1 (of_decide_eq_true hlow), UInt32.le_iff_toNat_le.1 (of_decide_eq_true hhigh)⟩
  have hall : ∀ n < 58, 48 ≤ n → Char.ofNat n ∈ "0123456789".toList := by decide
  rw [← Char.ofNat_toNat c]
  exact hall c.toNat (by omega) hrange.1

namespace Lexeme

theorem read_of_isDigit {c : Char} (h : c.isDigit = true) (cs : List Char) : read c cs = Numeral.lexeme (c :: cs) := by
  have hall : "0123456789".toList.all (fun c => c ≠ '\n' ∧ isBlank c = false ∧ c ≠ '/' ∧ Identifier.isStart c = false) = true := by
    decide +kernel
  obtain ⟨hbreak, hblank, hslash, hstart⟩ := List.all_iff_forall_prop.1 hall c (isDigit_cases h)
  rw [read, if_neg hbreak, hblank, decide_eq_false hslash, hstart, h]
  rfl

end Lexeme

namespace Numeral

variable {ds rest tail : List Char}

/-- Digits make a numeral in base ten, if they are not the zero of a prefix. -/
theorem read_of_digits (hds : ∀ c ∈ ds, c.isDigit = true) (hrest : ∀ a ∈ rest.head?, a.isDigit = false ∧ a ≠ 'x' ∧ a ≠ 'X') :
    read (ds ++ rest) = readDecimal (ds ++ rest) := by
  have hnoMark : ∀ a tail, a = 'x' ∨ a = 'X' → ds ++ rest ≠ '0' :: a :: tail := by
    intro a tail ha heq
    match ds, hds, heq with
    | [], _, heq =>
      rw [List.nil_append] at heq
      exact absurd (hrest '0' (heq ▸ rfl)).1 (by decide)
    | [d], _, heq =>
      obtain rfl : rest = a :: tail := (List.cons.inj heq).2
      exact ha.elim (hrest a rfl).2.1 (hrest a rfl).2.2
    | d :: d' :: ds, hds, heq =>
      obtain rfl : d' = a := (List.cons.inj (List.cons.inj heq).2).1
      have hdigit := hds d' (List.mem_cons_of_mem _ List.mem_cons_self)
      rcases ha with rfl | rfl <;> exact absurd hdigit (by decide)
  unfold read
  split
  · next heq => exact absurd heq (hnoMark _ _ (.inl rfl))
  · next heq => exact absurd heq (hnoMark _ _ (.inr rfl))
  · rfl

theorem readFraction_of_head (h : ∀ a ∈ rest.head?, a ≠ '.') : readFraction rest = (none, rest) := by
  unfold readFraction
  split
  · exact absurd rfl (h '.' rfl)
  · rfl

theorem readSign_of_isDigit (hne : ds ≠ []) (hds : ∀ c ∈ ds, c.isDigit = true) (tail : List Char) :
    readSign (ds ++ tail) = (none, ds ++ tail) := by
  obtain ⟨d, ds, rfl⟩ := List.exists_cons_of_ne_nil hne
  have hdigit := hds d List.mem_cons_self
  unfold readSign
  split
  · next heq => exact absurd ((List.cons.inj heq).1 ▸ hdigit) (by decide)
  · next heq => exact absurd ((List.cons.inj heq).1 ▸ hdigit) (by decide)
  · rfl

theorem readExponent_of_head (h : ∀ a ∈ rest.head?, a ≠ 'e' ∧ a ≠ 'E') : readExponent rest = (none, rest) := by
  unfold readExponent
  split
  · next c cs =>
    obtain ⟨he, hE⟩ := h c rfl
    rw [if_neg (by simp [he, hE])]
  · rfl

/-- A mark, a sign and digits make an exponent. -/
theorem readExponent_of_mark {mark : Char} (hmark : mark = 'e' ∨ mark = 'E') {cs : List Char} {sign : Option Char}
    (hsign : readSign (cs ++ tail) = (sign, ds ++ tail)) (hds : ∀ c ∈ ds, c.isDigit = true) (htail : ∀ a ∈ tail.head?, a.isDigit = false) :
    readExponent (mark :: cs ++ tail) = (some ⟨sign, ds⟩, tail) := by
  have hcond : (mark = 'e' || mark = 'E') = true := by simpa using hmark
  simp only [List.cons_append, readExponent, hcond, if_true, hsign, takeWhile_append_of_head hds htail, dropWhile_append_of_head hds htail]

/-- Digits and what is read as an exponent make a numeral, of an imaginary number if `i` follows. -/
theorem readDecimal_of_digits (hds : ∀ c ∈ ds, c.isDigit = true) (hrest : ∀ a ∈ rest.head?, a.isDigit = false ∧ a ≠ '.')
    {exponent : Option Exponent} (hexponent : readExponent rest = (exponent, tail)) :
    readDecimal (ds ++ rest) = if tail.head? = some 'i' then (decimal ds none exponent true, tail.tail) else (decimal ds none exponent false, tail) := by
  simp only [readDecimal, takeWhile_append_of_head hds fun a ha => (hrest a ha).1, dropWhile_append_of_head hds fun a ha => (hrest a ha).1,
    readFraction_of_head fun a ha => (hrest a ha).2, hexponent]
  split
  · rfl
  · next hi =>
    refine (if_neg fun hhead => ?_).symm
    obtain ⟨tail, rfl⟩ := List.head?_eq_some_iff.1 hhead
    exact hi tail rfl

/-- A numeral with no letter or digit behind it. -/
theorem lexeme_of_read {cs : List Char} {n : Numeral} (hread : read (cs ++ rest) = (n, rest))
    (hrest : rest.takeWhile Identifier.isPart = []) :
    lexeme (cs ++ rest) = ⟨.token (.literal n.value), cs.length - 1, cs.length + 1, n.findings⟩ := by
  have hwidth := width_read (cs ++ rest)
  rw [hread, List.length_append] at hwidth
  have hwidth : n.width = cs.length := Nat.add_right_cancel hwidth
  simp only [lexeme, hread, hrest, hwidth, List.isEmpty_nil, if_true, List.append_nil]
  rfl

end Numeral

/-- Digits that make a numeral are read back as a token. -/
theorem readsAs_numeral {ds : List Char} (more : List Char) (hne : ds ≠ []) (hds : ∀ c ∈ ds, c.isDigit = true) {n : Numeral}
    (hfound : n.findings = [])
    (hread : ∀ rest, Bounded rest → Numeral.read (ds ++ more ++ rest) = (n, rest)) : ReadsAs (ds ++ more) (.literal n.value) := by
  obtain ⟨d, ds, rfl⟩ := List.exists_cons_of_ne_nil hne
  refine ⟨d, ds ++ more, rfl, fun rest hrest => ⟨(d :: ds ++ more).length + 1, ?_⟩⟩
  rw [Lexeme.read_of_isDigit (hds d List.mem_cons_self), ← hfound]
  exact Numeral.lexeme_of_read (hread rest hrest) hrest.takeWhile_isPart

/-- Digits without a superfluous zero in front are an integer in base ten. -/
theorem Numeral.integer_of_noZero {ds : List Char} (hzero : ds.head? = some '0' → ds = ['0']) :
    (decimal ds none none false).value = .int (ofDigits 10 ds) ∧ (decimal ds none none false).findings = [] := by
  have hoctal : isOctal ds = false := by
    unfold isOctal
    split
    · cases hzero rfl
    · rfl
  constructor
  · rw [value, integerValue, hoctal]
    rfl
  · rw [findings, misusesOctal, hoctal]
    rfl

theorem readsAs_int {ds : List Char} {n : Nat} (hds : DecimalDigits ds n) (hzero : ds.head? = some '0' → ds = ['0']) :
    ReadsAs ds (.literal (.int n)) := by
  obtain ⟨hvalue, hfound⟩ := Numeral.integer_of_noZero hzero
  rw [hds.value] at hvalue
  have hnumeral := readsAs_numeral [] hds.ne_nil hds.isDigit hfound fun rest hrest => ?_
  · rwa [List.append_nil, hvalue] at hnumeral
  · have hne : ∀ {b}, isBlank b = false → ∀ a ∈ rest.head?, a ≠ b := fun hb a ha heq => by
      rw [← heq, hrest a ha] at hb
      cases hb
    have hdigit := hrest.head_eq_false (p := Char.isDigit) (by decide) (by decide) (by decide)
    have hexponent := Numeral.readExponent_of_head fun a ha =>
      ⟨hne (by decide : isBlank 'e' = false) a ha, hne (by decide : isBlank 'E' = false) a ha⟩
    rw [List.append_nil, Numeral.read_of_digits hds.isDigit fun a ha => ⟨hdigit a ha, hne (by decide) a ha, hne (by decide) a ha⟩,
      Numeral.readDecimal_of_digits hds.isDigit (fun a ha => ⟨hdigit a ha, hne (by decide) a ha⟩) hexponent]
    exact if_neg fun hi => hne (by decide) 'i' hi rfl

/-- Digits without a fraction are scaled by the exponent alone. -/
theorem DecimalDigits.floatValue? {ds : List Char} {m : Nat} (hm : DecimalDigits ds m) {exponent : Exponent} {k : Int}
    (hk : Numeral.exponentValue (some exponent) = k) (hbound : k.natAbs ≤ Numeral.maxScale) :
    Numeral.floatValue? ds none (some exponent) = some ((m : Rat) * 10 ^ k) := by
  have hscale : Numeral.floatValue? ds none (some exponent) = Numeral.scale? m k := by
    rw [Numeral.floatValue?, hk, ← hm.value]
    simp
  rw [hscale, Numeral.scale?_eq_some_iff]
  exact ⟨hbound, rfl⟩

/-- The parts of digits with an exponent: what is read of them, whatever stands behind them, if it is no digit. -/
theorem Scientific.exists_parts {cs : List Char} {v : Rat} (h : Scientific cs v) :
    ∃ ds mark more exponent, cs = ds ++ mark :: more ∧ ds ≠ []
    ∧ (∀ c ∈ ds, c.isDigit = true) ∧ (mark = 'e' ∨ mark = 'E') ∧ exponent.digits ≠ [] ∧ Numeral.floatValue? ds none (some exponent) = some v
    ∧ ∀ tail : List Char, (∀ a ∈ tail.head?, a.isDigit = false) → Numeral.readExponent (mark :: more ++ tail) = (some exponent, tail) := by
  cases h with
  | @positive ds es m e mark sign hm he hmark hsign hbound =>
    obtain ⟨s, hs, hread⟩ : ∃ s, s ≠ some '-' ∧ ∀ tail, Numeral.readSign (sign ++ es ++ tail) = (s, es ++ tail) := by
      rcases hsign with rfl | rfl
      · exact ⟨none, nofun, Numeral.readSign_of_isDigit he.ne_nil he.isDigit⟩
      · exact ⟨some '+', by decide, fun _ => rfl⟩
    have hk : Numeral.exponentValue (some ⟨s, es⟩) = e := by
      rw [Numeral.exponentValue, if_neg hs, he.value]
    exact ⟨ds, mark, sign ++ es, ⟨s, es⟩, rfl, hm.ne_nil, hm.isDigit, hmark, he.ne_nil, hm.floatValue? hk hbound,
      fun tail htail => Numeral.readExponent_of_mark hmark (hread tail) he.isDigit htail⟩
  | @negative ds es m e mark hm he hmark hbound =>
    have hk : Numeral.exponentValue (some ⟨some '-', es⟩) = -e := by
      rw [Numeral.exponentValue, if_pos rfl, he.value]
    exact ⟨ds, mark, '-' :: es, ⟨some '-', es⟩, rfl, hm.ne_nil, hm.isDigit, hmark, he.ne_nil, hm.floatValue? hk (by rwa [Int.natAbs_neg]),
      fun tail htail => Numeral.readExponent_of_mark hmark rfl he.isDigit htail⟩

/-- Digits with an exponent are a numeral without a fault. -/
theorem Scientific.exists_numeral {cs : List Char} {v : Rat} (h : Scientific cs v) : ∃ ds more exponent, cs = ds ++ more ∧ ds ≠ []
    ∧ (∀ c ∈ ds, c.isDigit = true)
    ∧ (∀ imaginary, (Numeral.decimal ds none (some exponent) imaginary).findings = []
      ∧ (Numeral.decimal ds none (some exponent) imaginary).value = if imaginary then .imaginary v else .float v)
    ∧ ∀ tail : List Char, (∀ a ∈ tail.head?, a.isDigit = false) → Numeral.read (ds ++ more ++ tail)
      = if tail.head? = some 'i' then (.decimal ds none (some exponent) true, tail.tail) else (.decimal ds none (some exponent) false, tail) := by
  obtain ⟨ds, mark, more, exponent, hcs, hne, hds, hmark, hdigits, hvalue, hread⟩ := h.exists_parts
  refine ⟨ds, mark :: more, exponent, hcs, hne, hds, fun imaginary => ⟨?_, ?_⟩, fun tail htail => ?_⟩
  · obtain ⟨sign, digits⟩ := exponent
    obtain ⟨d, digits, rfl⟩ := List.exists_cons_of_ne_nil hdigits
    cases imaginary <;> simp [Numeral.findings, hvalue]
  · cases imaginary <;> simp [Numeral.value, hvalue]
  · have hhead : ∀ a ∈ (mark :: more ++ tail).head?, a = 'e' ∨ a = 'E' := fun a ha => by
      obtain rfl : mark = a := Option.some.inj ha
      exact hmark
    rw [List.append_assoc, Numeral.read_of_digits hds fun a ha => ?_, Numeral.readDecimal_of_digits hds (fun a ha => ?_) (hread tail htail)]
    · rcases hhead a ha with rfl | rfl <;> decide
    · rcases hhead a ha with rfl | rfl <;> decide

theorem readsAs_float {cs : List Char} {v : Rat} (hcs : Scientific cs v) : ReadsAs cs (.literal (.float v)) := by
  obtain ⟨ds, more, exponent, rfl, hne, hds, hnumeral, hread⟩ := hcs.exists_numeral
  obtain ⟨hfound, hvalue⟩ := hnumeral false
  have hreads := readsAs_numeral more hne hds hfound fun rest hrest => ?_
  · rwa [hvalue] at hreads
  · rw [hread rest (hrest.head_eq_false (by decide) (by decide) (by decide))]
    refine if_neg fun hi => ?_
    nomatch hrest 'i' hi

theorem readsAs_imaginary {cs : List Char} {v : Rat} (hcs : Scientific cs v) : ReadsAs (cs ++ ['i']) (.literal (.imaginary v)) := by
  obtain ⟨ds, more, exponent, rfl, hne, hds, hnumeral, hread⟩ := hcs.exists_numeral
  obtain ⟨hfound, hvalue⟩ := hnumeral true
  have hreads := readsAs_numeral (more ++ ['i']) hne hds hfound fun rest hrest => ?_
  · rwa [hvalue, ← List.append_assoc] at hreads
  · have hi : ∀ a ∈ ('i' :: rest).head?, a.isDigit = false := fun a ha => by
      obtain rfl : 'i' = a := Option.some.inj ha
      decide
    rw [← List.append_assoc, List.append_assoc _ ['i'], List.singleton_append, hread ('i' :: rest) hi]
    rfl

/-! ## Quoted literals -/

namespace Escape

/-- A form takes the digits it needs, whatever stands behind them. -/
theorem readForm_of_digits (form : Form) (hbase : form.base = 16) {ds : List Char} {n : Nat} (hds : HexDigits form.count ds n)
    (skipped : Nat)
    (rest : List Char) : readForm form skipped (ds ++ rest) = ⟨form.denotes n, skipped + form.count, skipped + form.count⟩ := by
  have htake : ((ds ++ rest).take form.count).takeWhile (isDigitOf form.base) = ds := by
    have hall : (ds ++ []).takeWhile (isDigitOf 16) = ds := takeWhile_append_of_head hds.isDigit nofun
    rw [List.append_nil] at hall
    rwa [← hds.length, List.take_left, hbase]
  simp only [readForm, htake, hds.length, if_true]
  rw [hbase, hds.value]

/-- An escape of one byte. -/
theorem read_byte (quote : Char) (hquote : quote ≠ 'x') {ds : List Char} {b : UInt8} (hds : HexDigits 2 ds b.toNat) (rest : List Char) :
    read quote ('x' :: (ds ++ rest)) = ⟨some (.byte b), 3, 3⟩ := by
  have hletter : letter? quote 'x' = none := if_neg hquote.symm
  have hform := readForm_of_digits (byteForm 2 16) rfl hds 1 rest
  have hdenotes : (byteForm 2 16).denotes b.toNat = some (.byte b) := by
    change (if b.toNat ≤ 255 then some (Escaped.byte (UInt8.ofNat b.toNat)) else none) = _
    rw [if_pos (Nat.le_of_lt_succ b.toNat_lt), UInt8.ofNat_toNat]
  rw [hdenotes] at hform
  rw [read, if_neg (by decide), hletter]
  exact hform

/-- An escape of one character. -/
theorem read_char (quote : Char) (hquote : quote ≠ 'U') {ds : List Char} {c : Char} (hds : HexDigits 8 ds c.toNat) (rest : List Char) :
    read quote ('U' :: (ds ++ rest)) = ⟨some (.char c), 9, 9⟩ := by
  have hletter : letter? quote 'U' = none := if_neg hquote.symm
  have hform := readForm_of_digits (charForm 8) rfl hds 1 rest
  have hdenotes : (charForm 8).denotes c.toNat = some (.char c) := by
    change (Utf8.scalar? 0 c.toNat).map Escaped.char = _
    rw [Utf8.scalar?, dif_pos ⟨Nat.zero_le _, c.valid⟩]
    rfl
  rw [hdenotes] at hform
  rw [read, if_neg (by decide), hletter]
  exact hform

end Escape

namespace QuotedItem

theorem read_quote {quote : Char} (hquote : quote ≠ '\n') (rest : List Char) : read quote (quote :: rest) = ([], true) := by
  rw [read, if_neg hquote, if_pos rfl]

theorem read_escape {quote : Char} (hquote : quote ≠ '\\') (cs : List Char) : read quote ('\\' :: cs)
    = (escape (Escape.read quote cs) :: (read quote (cs.drop (Escape.read quote cs).width)).1,
      (read quote (cs.drop (Escape.read quote cs).width)).2) := by
  rw [read, if_neg (by decide), if_neg hquote.symm, if_pos rfl]

/-- The escapes of bytes, up to the closing quote. -/
theorem read_bytes {dss : List (List Char)} {bytes : List UInt8} (hdss : List.Forall₂ (fun ds b => HexDigits 2 ds b.toNat) dss bytes)
    (rest : List Char) : read '"' (dss.flatMap (fun ds => '\\' :: 'x' :: ds) ++ '"' :: rest)
      = (bytes.map fun b => escape ⟨some (.byte b), 3, 3⟩, true) := by
  induction hdss with
  | nil => exact read_quote (by decide) rest
  | @cons ds b dss bytes hds _ ih =>
    have hescape := Escape.read_byte '"' (by decide) hds (dss.flatMap (fun ds => '\\' :: 'x' :: ds) ++ '"' :: rest)
    have hdrop : ('x' :: (ds ++ (dss.flatMap (fun ds => '\\' :: 'x' :: ds) ++ '"' :: rest))).drop 3
        = dss.flatMap (fun ds => '\\' :: 'x' :: ds) ++ '"' :: rest := by
      rw [List.drop_succ_cons, ← hds.length, List.drop_left]
    simp only [List.flatMap_cons, List.cons_append, List.append_assoc]
    rw [read_escape (by decide), hescape, hdrop, ih]
    rfl

theorem findings_of_byte (n : Nat) (bytes : List UInt8) : findings n (bytes.map fun b => escape ⟨some (.byte b), 3, 3⟩) = [] := by
  induction bytes generalizing n with
  | nil => rfl
  | cons b bytes ih => exact ih _

theorem totalWidth_of_bytes {dss : List (List Char)} {bytes : List UInt8}
    (hdss : List.Forall₂ (fun ds b => HexDigits 2 ds b.toNat) dss bytes) :
    totalWidth (bytes.map fun b => escape ⟨some (.byte b), 3, 3⟩) = (dss.flatMap fun ds => '\\' :: 'x' :: ds).length := by
  induction hdss with
  | nil => rfl
  | cons hds _ ih =>
    rw [List.flatMap_cons, List.length_append, List.length_cons, List.length_cons, hds.length, ← ih]
    rfl

end QuotedItem

/-- What stands between quotes is read as soon as nothing else is: no quote begins a blank, a comment, a word or a numeral. -/
theorem Lexeme.read_doubleQuote (cs : List Char) : read '"' cs = Quoted.string cs := by
  have hstart : Identifier.isStart '"' = false := by decide +kernel
  simp [read, hstart, show isBlank '"' = false by decide, show Char.isDigit '"' = false by decide]

theorem Lexeme.read_singleQuote (cs : List Char) : read '\'' cs = Quoted.rune cs := by
  have hstart : Identifier.isStart '\'' = false := by decide +kernel
  simp [read, hstart, show isBlank '\'' = false by decide, show Char.isDigit '\'' = false by decide]

theorem readsAs_string {dss : List (List Char)} {bytes : List UInt8} (hdss : List.Forall₂ (fun ds b => HexDigits 2 ds b.toNat) dss bytes) :
    ReadsAs ('"' :: (dss.flatMap (fun ds => '\\' :: 'x' :: ds) ++ ['"'])) (.literal (.string bytes)) := by
  refine ⟨'"', _, rfl, fun rest _ => ⟨(dss.flatMap fun ds => '\\' :: 'x' :: ds).length + 2, ?_⟩⟩
  have hbytes : (bytes.map fun b => QuotedItem.escape ⟨some (.byte b), 3, 3⟩).flatMap QuotedItem.bytes = bytes := by
    rw [List.flatMap_map]
    exact List.flatMap_singleton' bytes
  rw [Lexeme.read_doubleQuote, List.append_assoc, List.singleton_append, Quoted.string, QuotedItem.read_bytes hdss rest]
  dsimp only
  rw [hbytes, QuotedItem.findings_of_byte, QuotedItem.totalWidth_of_bytes hdss, List.length_append]
  rfl

/-- A rune of one escape. -/
theorem readsAs_runeOf (cs : List Char) {e : Escaped} {width seen : Nat} (hwidth : width = cs.length)
    (hescape : ∀ rest, Escape.read '\'' (cs ++ '\'' :: rest) = ⟨some e, width, seen⟩) :
    ReadsAs ('\'' :: '\\' :: (cs ++ ['\''])) (.literal (Quoted.runeValue [.escape ⟨some e, width, seen⟩])) := by
  refine ⟨'\'', _, rfl, fun rest _ => ⟨width + 1 + 2, ?_⟩⟩
  have hread : QuotedItem.read '\'' ('\\' :: (cs ++ '\'' :: rest)) = ([.escape ⟨some e, width, seen⟩], true) := by
    rw [QuotedItem.read_escape (by decide), hescape]
    dsimp only
    rw [hwidth, List.drop_left, QuotedItem.read_quote (by decide)]
  rw [Lexeme.read_singleQuote, List.cons_append, List.append_assoc, List.singleton_append, Quoted.rune, hread, List.length_cons,
    List.length_append,
    ← hwidth]
  rfl

theorem readsAs_byteRune {ds : List Char} {n : Nat} (hds : HexDigits 2 ds n) (hn : n < 256) :
    ReadsAs ('\'' :: '\\' :: 'x' :: (ds ++ ['\''])) (.literal (.rune n true)) := by
  have hb : (UInt8.ofNat n).toNat = n := Utf8.toNat_ofNat hn
  have hdigits : HexDigits 2 ds (UInt8.ofNat n).toNat := by rwa [hb]
  have hescape := Escape.read_byte '\'' (by decide) hdigits
  have hreads := readsAs_runeOf ('x' :: ds) (by rw [List.length_cons, hds.length]) fun rest => hescape ('\'' :: rest)
  rwa [Quoted.runeValue, List.head?_cons, Option.bind_some, QuotedItem.rune?, hb] at hreads

theorem readsAs_rune {ds : List Char} {n : Nat} (hds : HexDigits 8 ds n) (hn : n.isValidChar) :
    ReadsAs ('\'' :: '\\' :: 'U' :: (ds ++ ['\''])) (.literal (.rune n false)) := by
  have hdigits : HexDigits 8 ds (Char.ofNatAux n hn).toNat := hds
  have hescape := Escape.read_char '\'' (by decide) hdigits
  exact readsAs_runeOf ('U' :: ds) (by rw [List.length_cons, hds.length]) fun rest => hescape ('\'' :: rest)

/-! ## All tokens -/

/-- What is written out as a token that can be emitted is read back as this token. -/
theorem readsAs_of_spells {cs : List Char} {kind : TokenKind} (hspells : Spells cs kind) (hemitted : kind.Emitted) : ReadsAs cs kind := by
  cases hspells with
  | keyword k => exact Lexeme.readsAs_keyword k
  | operator o => exact Lexeme.readsAs_symbol (.operator o)
  | punctuation p => exact Lexeme.readsAs_symbol (.punctuation p)
  | ident name =>
    obtain ⟨c, cs, hc, hcs, rfl, hword⟩ := hemitted
    have hreads := Lexeme.readsAs_word hc hcs
    rw [Lexeme.wordKind, hword] at hreads
    rwa [String.toList_ofList]
  | int hds hzero => exact readsAs_int hds hzero
  | float hcs => exact readsAs_float hcs
  | imaginary hcs => exact readsAs_imaginary hcs
  | byteRune hds =>
    obtain ⟨n, hn, hlt⟩ := hemitted
    exact readsAs_byteRune hds (Int.ofNat.inj hn ▸ hlt)
  | rune hds =>
    obtain ⟨n, hn, hvalid⟩ := hemitted
    exact readsAs_rune hds (Int.ofNat.inj hn ▸ hvalid)
  | string hdss => exact readsAs_string hdss

end GoSyntax
