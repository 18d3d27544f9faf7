import Mathlib.Data.List.TakeWhile
import GoSyntax.Proofs.Lexical.Lines
import GoSyntax.Proofs.Lexical.Numerals

/-!
# Escapes

What may stand behind a backslash between quotes, and what it stands for, written down by itself. An escape is read as what it stands for,
what is read as an escape is one, and whatever stands behind a backslash, no more of it is taken than a character and some digits.
-/

namespace GoSyntax

/-- The quotes that items stand between. -/
def IsQuote (quote : Char) : Prop := quote = '"' ∨ quote = '\''

theorem IsQuote.ne_lineFeed {quote : Char} (hq : IsQuote quote) : quote ≠ '\n' := by
  rcases hq with rfl | rfl <;> decide

theorem IsQuote.ne_backslash {quote : Char} (hq : IsQuote quote) : quote ≠ '\\' := by
  rcases hq with rfl | rfl <;> decide

theorem IsQuote.isDigitOf {quote : Char} (hq : IsQuote quote) : isDigitOf 16 quote = false := by
  rcases hq with rfl | rfl <;> decide

/-! ## Digits in front of something else -/

theorem isDigitOf_of_le {base base' : Nat} (h : base ≤ base') {c : Char} (hc : isDigitOf base c = true) : isDigitOf base' c = true := by
  obtain ⟨d, hd⟩ := Option.isSome_iff_exists.1 hc
  obtain ⟨hvalue, hlt⟩ := Option.filter_eq_some_iff.1 hd
  refine Option.isSome_iff_exists.2 ⟨d, Option.filter_eq_some_iff.2 ⟨hvalue, ?_⟩⟩
  exact decide_eq_true (Nat.lt_of_lt_of_le (of_decide_eq_true hlt) h)

/-- What comes next is no digit. -/
def NoDigit (rest : List Char) : Prop := ∀ a ∈ rest.head?, isDigitOf 16 a = false

/-- Digits at the start of a text are those in front of what is no digit. -/
theorem exists_of_append_eq {cs rest ds more : List Char} (h : cs ++ rest = ds ++ more) (hrest : NoDigit rest)
    (hds : ∀ d ∈ ds, isDigitOf 16 d = true) : ∃ cs', cs = ds ++ cs' ∧ more = cs' ++ rest := by
  rcases List.append_eq_append_iff.1 h with ⟨as, rfl, rfl⟩ | ⟨cs', hcs, hmore⟩
  · cases as with
    | nil => exact ⟨[], by simp, rfl⟩
    | cons a as =>
      have hno := hrest a rfl
      rw [hds a (List.mem_append_right cs List.mem_cons_self)] at hno
      nomatch hno
  · exact ⟨cs', hcs, hmore⟩

/-! ## Escapes -/

/-- The letters that are escapes, with the characters they stand for: the backslash and the quote stand for themselves. -/
def Escape.letters (quote : Char) : List (Char × Char) :=
  [('a', '\x07'), ('b', '\x08'), ('f', '\x0c'), ('n', '\n'), ('r', '\r'), ('t', '\t'), ('v', '\x0b'), ('\\', '\\'), (quote, quote)]

/-- What may stand behind a backslash between quotes, and what it stands for. -/
inductive IsEscape (quote : Char) : List Char → Escaped → Prop
  | letter {c d : Char} (h : (c, d) ∈ Escape.letters quote) : IsEscape quote [c] (.char d)
  | octal {ds : List Char} {b : UInt8} (hlength : ds.length = 3) (hds : ∀ d ∈ ds, isDigitOf 8 d = true)
    (hvalue : positional 8 ds = b.toNat) :
    IsEscape quote ds (.byte b)
  | hexadecimal {ds : List Char} {b : UInt8} (hlength : ds.length = 2) (hds : ∀ d ∈ ds, isDigitOf 16 d = true)
    (hvalue : positional 16 ds = b.toNat) : IsEscape quote ('x' :: ds) (.byte b)
  | codePoint {mark : Char} {ds : List Char} {c : Char} (hlength : (mark, ds.length) ∈ [('u', 4), ('U', 8)])
    (hds : ∀ d ∈ ds, isDigitOf 16 d = true) (hvalue : positional 16 ds = c.toNat) : IsEscape quote (mark :: ds) (.char c)

/-- No escape stands at the start of the text. -/
def Illegal (quote : Char) (cs : List Char) : Prop := ∀ text v, IsEscape quote text v → ¬text <+: cs

namespace Escape

variable {quote : Char} {cs : List Char}

theorem letter?_eq_some_iff (hq : IsQuote quote) {c d : Char} : letter? quote c = some d ↔ (c, d) ∈ letters quote := by
  constructor
  · intro h
    unfold letter? at h
    split at h
    case h_9 =>
      obtain ⟨rfl, rfl⟩ : c = quote ∧ c = d := by simpa using h
      simp [letters]
    all_goals
      obtain rfl := Option.some.inj h
      simp [letters]
  · intro h
    simp only [letters, List.mem_cons, List.not_mem_nil, or_false, Prod.mk.injEq] at h
    rcases hq with rfl | rfl
    all_goals
      rcases h with ⟨rfl, rfl⟩ | ⟨rfl, rfl⟩ | ⟨rfl, rfl⟩ | ⟨rfl, rfl⟩ | ⟨rfl, rfl⟩ | ⟨rfl, rfl⟩ | ⟨rfl, rfl⟩ | ⟨rfl, rfl⟩ | ⟨rfl, rfl⟩
      all_goals rfl

theorem letter?_of_isDigitOf (hq : IsQuote quote) {c : Char} (hc : isDigitOf 8 c = true) : letter? quote c = none := by
  have hletters : ∀ p ∈ letters quote, isDigitOf 8 p.1 = false := by
    rcases hq with rfl | rfl <;> decide
  cases hletter : letter? quote c with
  | none => rfl
  | some d =>
    have hno := hletters _ ((letter?_eq_some_iff hq).1 hletter)
    rw [hc] at hno
    nomatch hno

/-- The forms that have a mark, by the mark. -/
def marks : List (Char × Form) := [('x', byteForm 2 16), ('u', charForm 4), ('U', charForm 8)]

theorem read_letter (hq : IsQuote quote) {c d : Char} (h : (c, d) ∈ letters quote) (cs : List Char) :
    read quote (c :: cs) = ⟨some (.char d), 1, 1⟩ := by
  have hline : c ≠ '\n' := by
    rintro rfl
    rcases hq with rfl | rfl <;> exact absurd h (by simp [letters])
  rw [read, if_neg hline, (letter?_eq_some_iff hq).2 h]

theorem read_octal (hq : IsQuote quote) {c : Char} (hc : isDigitOf 8 c = true) (cs : List Char) :
    read quote (c :: cs) = readForm (byteForm 3 8) 0 (c :: cs) := by
  have hline : c ≠ '\n' := by
    rintro rfl
    exact absurd hc (by decide)
  rw [read, if_neg hline, letter?_of_isDigitOf hq hc]
  exact if_pos hc

theorem read_mark (hq : IsQuote quote) {c : Char} {form : Form} (h : (c, form) ∈ marks) (cs : List Char) :
    read quote (c :: cs) = readForm form 1 cs := by
  simp only [marks, List.mem_cons, List.not_mem_nil, or_false, Prod.mk.injEq] at h
  rcases hq with rfl | rfl <;> rcases h with ⟨rfl, rfl⟩ | ⟨rfl, rfl⟩ | ⟨rfl, rfl⟩ <;> rfl

/-- All that the character behind a backslash can do. -/
theorem read_cases (hq : IsQuote quote) {c : Char} (hc : c ≠ '\n') (cs : List Char) :
    (∃ d, (c, d) ∈ letters quote ∧ read quote (c :: cs) = ⟨some (.char d), 1, 1⟩)
      ∨ (isDigitOf 8 c = true ∧ read quote (c :: cs) = readForm (byteForm 3 8) 0 (c :: cs))
      ∨ (∃ form, (c, form) ∈ marks ∧ read quote (c :: cs) = readForm form 1 cs)
      ∨ read quote (c :: cs) = ⟨none, 1, 1⟩ := by
  cases hletter : letter? quote c with
  | some d =>
    have hmem := (letter?_eq_some_iff hq).1 hletter
    exact .inl ⟨d, hmem, read_letter hq hmem cs⟩
  | none =>
    refine .inr ?_
    by_cases hoctal : isDigitOf 8 c = true
    · exact .inl ⟨hoctal, read_octal hq hoctal cs⟩
    · refine .inr ?_
      by_cases hmark : ∃ form, (c, form) ∈ marks
      · obtain ⟨form, hmark⟩ := hmark
        exact .inl ⟨form, hmark, read_mark hq hmark cs⟩
      · refine .inr ?_
        have hx : c ≠ 'x' := fun h => hmark ⟨byteForm 2 16, by simp [marks, h]⟩
        have hu : c ≠ 'u' := fun h => hmark ⟨charForm 4, by simp [marks, h]⟩
        have hU : c ≠ 'U' := fun h => hmark ⟨charForm 8, by simp [marks, h]⟩
        rw [read, if_neg hc, hletter]
        simp only [if_neg hoctal, if_neg hx, if_neg hu, if_neg hU]

/-! ### Digits -/

/-- The digits that a form takes. -/
def Form.digits (form : Form) (cs : List Char) : List Char := (cs.take form.count).takeWhile (GoSyntax.isDigitOf form.base)

theorem Form.exists_digits (form : Form) (cs : List Char) :
    ∃ rest, cs = form.digits cs ++ rest ∧ ∀ d ∈ form.digits cs, isDigitOf form.base d = true := by
  obtain ⟨rest, hrest⟩ := (List.takeWhile_prefix (isDigitOf form.base)).trans (List.take_prefix form.count cs)
  exact ⟨rest, hrest.symm, fun d hd => List.mem_takeWhile_imp hd⟩

theorem readForm_eq (form : Form) (skipped : Nat) (cs : List Char) : readForm form skipped cs
    = if (form.digits cs).length = form.count then ⟨form.denotes (positional form.base (form.digits cs)), skipped + form.count, skipped + form.count⟩
      else ⟨none, skipped + (form.digits cs).length, skipped + (form.digits cs).length + 1⟩ := by
  rw [← ofDigits_eq_positional]
  rfl

/-- What digits in the right number stand for, whatever stands behind them. -/
theorem readForm_digits (form : Form) {ds : List Char} (hlength : ds.length = form.count) (hds : ∀ d ∈ ds, isDigitOf form.base d = true)
    (skipped : Nat) (rest : List Char) :
    readForm form skipped (ds ++ rest) = ⟨form.denotes (positional form.base ds), skipped + form.count, skipped + form.count⟩ := by
  have hdigits : form.digits (ds ++ rest) = ds := by
    rw [Form.digits, ← hlength, List.take_left, List.takeWhile_eq_self_iff]
    exact hds
  rw [readForm_eq, hdigits, if_pos hlength]

/-- A form takes its digits and looks at one character more at most. -/
theorem width_readForm (form : Form) (skipped : Nat) (cs : List Char) : (readForm form skipped cs).width = skipped + (form.digits cs).length
    ∧ (readForm form skipped cs).seen ≤ skipped + (form.digits cs).length + 1 := by
  rw [readForm_eq]
  by_cases hlength : (form.digits cs).length = form.count
  · rw [if_pos hlength, hlength]
    exact ⟨rfl, Nat.le_succ _⟩
  · rw [if_neg hlength]
    exact ⟨rfl, Nat.le_refl _⟩

theorem of_readForm {form : Form} {skipped : Nat} {v : Escaped} (h : (readForm form skipped cs).value = some v) :
    (form.digits cs).length = form.count ∧ form.denotes (positional form.base (form.digits cs)) = some v := by
  rw [readForm_eq] at h
  by_cases hlength : (form.digits cs).length = form.count
  · rw [if_pos hlength] at h
    exact ⟨hlength, h⟩
  · rw [if_neg hlength] at h
    nomatch h

theorem byteForm_denotes_iff {count base n : Nat} {v : Escaped} :
    (byteForm count base).denotes n = some v ↔ ∃ b : UInt8, v = .byte b ∧ n = b.toNat := by
  constructor
  · intro h
    have hbound : n ≤ 255 := Decidable.by_contra fun hbound => by
      have hnone : (byteForm count base).denotes n = none := if_neg hbound
      rw [hnone] at h
      nomatch h
    have hsome : (byteForm count base).denotes n = some (.byte (UInt8.ofNat n)) := if_pos hbound
    rw [hsome] at h
    exact ⟨UInt8.ofNat n, (Option.some.inj h).symm, (Utf8.toNat_ofNat (Nat.lt_succ_of_le hbound)).symm⟩
  · rintro ⟨b, rfl, rfl⟩
    have hsome : (byteForm count base).denotes b.toNat = some (.byte (UInt8.ofNat b.toNat)) := if_pos (Nat.le_of_lt_succ b.toNat_lt)
    rw [hsome, UInt8.ofNat_toNat]

theorem charForm_denotes_iff {count n : Nat} {v : Escaped} :
    (charForm count).denotes n = some v ↔ ∃ c : Char, v = .char c ∧ n = c.toNat := by
  constructor
  · intro h
    obtain ⟨c, hc, rfl⟩ := Option.map_eq_some_iff.1 h
    exact ⟨c, rfl, (Utf8.scalar?_eq_some_iff.1 hc).2.symm⟩
  · rintro ⟨c, rfl, rfl⟩
    exact Option.map_eq_some_iff.2 ⟨c, Utf8.scalar?_eq_some_iff.2 ⟨Nat.zero_le _, rfl⟩, rfl⟩

/-! ### Escapes are read as what they stand for -/

/-- An escape is read whole, and no character behind it is looked at. -/
theorem read_of_isEscape (hq : IsQuote quote) {text : List Char} {v : Escaped} (h : IsEscape quote text v) (rest : List Char) :
    read quote (text ++ rest) = ⟨some v, text.length, text.length⟩ := by
  cases h with
  | letter h => exact read_letter hq h rest
  | @octal _ b hlength hds hvalue =>
    have hform := readForm_digits (byteForm 3 8) hlength hds 0 rest
    have hdenotes : (byteForm 3 8).denotes (positional 8 text) = some (.byte b) := byteForm_denotes_iff.2 ⟨b, rfl, hvalue⟩
    cases text with
    | nil => nomatch hlength
    | cons c ds =>
      rw [List.cons_append] at hform ⊢
      rw [read_octal hq (hds c List.mem_cons_self), hform, hlength]
      exact congrArg (fun v => (⟨v, 3, 3⟩ : Escape)) hdenotes
  | @hexadecimal ds b hlength hds hvalue =>
    have hdenotes : (byteForm 2 16).denotes (positional 16 ds) = some (.byte b) := byteForm_denotes_iff.2 ⟨b, rfl, hvalue⟩
    rw [List.cons_append, read_mark hq (by simp [marks] : ('x', byteForm 2 16) ∈ marks), readForm_digits (byteForm 2 16) hlength hds,
      List.length_cons, hlength]
    exact congrArg (fun v => (⟨v, 3, 3⟩ : Escape)) hdenotes
  | @codePoint mark ds c hlength hds hvalue =>
    have hdenotes : (charForm ds.length).denotes (positional 16 ds) = some (.char c) := charForm_denotes_iff.2 ⟨c, rfl, hvalue⟩
    have hmark : (mark, charForm ds.length) ∈ marks := by
      rcases List.mem_pair.1 hlength with h | h
      all_goals
        obtain ⟨rfl, hcount⟩ := Prod.mk.inj h
        rw [hcount]
        simp [marks]
    rw [List.cons_append, read_mark hq hmark, readForm_digits (charForm ds.length) rfl hds, List.length_cons, Nat.add_comm ds.length]
    exact congrArg (fun v => (⟨v, 1 + ds.length, 1 + ds.length⟩ : Escape)) hdenotes

/-- What is read as an escape is one. -/
theorem exists_isEscape (hq : IsQuote quote) {v : Escaped} (h : (read quote cs).value = some v) :
    ∃ text, text <+: cs ∧ IsEscape quote text v := by
  cases cs with
  | nil => exact absurd h.symm (Option.some_ne_none v)
  | cons c cs =>
    have hline : c ≠ '\n' := by
      rintro rfl
      rw [read, if_pos rfl] at h
      exact absurd h.symm (Option.some_ne_none v)
    rcases read_cases hq hline cs with ⟨d, hd, hread⟩ | ⟨hoctal, hread⟩ | ⟨form, hmark, hread⟩ | hread
    · rw [hread] at h
      obtain rfl := Option.some.inj h
      exact ⟨[c], ⟨cs, rfl⟩, .letter hd⟩
    · rw [hread] at h
      obtain ⟨hlength, hdenotes⟩ := of_readForm h
      obtain ⟨rest, hsplit, hds⟩ := (byteForm 3 8).exists_digits (c :: cs)
      obtain ⟨b, rfl, hvalue⟩ := byteForm_denotes_iff.1 hdenotes
      exact ⟨_, ⟨rest, hsplit.symm⟩, .octal hlength hds hvalue⟩
    · rw [hread] at h
      obtain ⟨hlength, hdenotes⟩ := of_readForm h
      obtain ⟨rest, hsplit, hds⟩ := form.exists_digits cs
      have hfront : c :: form.digits cs <+: c :: cs := ⟨rest, congrArg (c :: ·) hsplit.symm⟩
      simp only [marks, List.mem_cons, List.not_mem_nil, or_false, Prod.mk.injEq] at hmark
      rcases hmark with ⟨rfl, rfl⟩ | ⟨rfl, rfl⟩ | ⟨rfl, rfl⟩
      · obtain ⟨b, rfl, hvalue⟩ := byteForm_denotes_iff.1 hdenotes
        exact ⟨_, hfront, .hexadecimal hlength hds hvalue⟩
      · obtain ⟨d, rfl, hvalue⟩ := charForm_denotes_iff.1 hdenotes
        exact ⟨_, hfront, .codePoint (by rw [hlength]; exact List.mem_cons_self) hds hvalue⟩
      · obtain ⟨d, rfl, hvalue⟩ := charForm_denotes_iff.1 hdenotes
        exact ⟨_, hfront, .codePoint (by rw [hlength]; exact List.mem_cons_of_mem _ List.mem_cons_self) hds hvalue⟩
    · rw [hread] at h
      exact absurd h.symm (Option.some_ne_none v)

/-- What is read as no escape starts with none. -/
theorem value_eq_none_iff (hq : IsQuote quote) : (read quote cs).value = none ↔ Illegal quote cs := by
  constructor
  · rintro h text v hescape ⟨rest, rfl⟩
    rw [read_of_isEscape hq hescape] at h
    nomatch h
  · intro h
    cases hvalue : (read quote cs).value with
    | none => rfl
    | some v =>
      obtain ⟨text, hfront, hescape⟩ := exists_isEscape hq hvalue
      exact absurd hfront (h text v hescape)

/-! ### How far an escape goes -/

/-- Behind a backslash a character is taken, unless it is a line feed, and behind it only digits are; one more character is looked at. -/
theorem exists_taken (hq : IsQuote quote) {c : Char} (hc : c ≠ '\n') (cs : List Char) :
    ∃ ds rest, cs = ds ++ rest ∧ (∀ d ∈ ds, isDigitOf 16 d = true) ∧ (read quote (c :: cs)).width = ds.length + 1
      ∧ (read quote (c :: cs)).seen ≤ ds.length + 2 := by
  rcases read_cases hq hc cs with ⟨d, -, hread⟩ | ⟨hoctal, hread⟩ | ⟨form, hmark, hread⟩ | hread
  · rw [hread]
    exact ⟨[], cs, rfl, fun _ hd => absurd hd List.not_mem_nil, rfl, Nat.le_succ _⟩
  · obtain ⟨hwidth, hseen⟩ := width_readForm (byteForm 3 8) 0 (c :: cs)
    have hdigits : (byteForm 3 8).digits (c :: cs) = c :: (cs.take 2).takeWhile (GoSyntax.isDigitOf 8) := List.takeWhile_cons_of_pos hoctal
    obtain ⟨rest, hrest⟩ := (List.takeWhile_prefix (GoSyntax.isDigitOf 8)).trans (List.take_prefix 2 cs)
    rw [hdigits, Nat.zero_add, List.length_cons] at hwidth hseen
    rw [hread]
    exact ⟨_, rest, hrest.symm, fun d hd => isDigitOf_of_le (by decide) (List.mem_takeWhile_imp hd), hwidth, hseen⟩
  · obtain ⟨hwidth, hseen⟩ := width_readForm form 1 cs
    obtain ⟨rest, hsplit, hds⟩ := form.exists_digits cs
    have hbase : form.base = 16 := by
      simp only [marks, List.mem_cons, List.not_mem_nil, or_false, Prod.mk.injEq] at hmark
      rcases hmark with ⟨-, rfl⟩ | ⟨-, rfl⟩ | ⟨-, rfl⟩ <;> rfl
    rw [hbase] at hds
    rw [Nat.add_comm 1] at hwidth hseen
    rw [hread]
    exact ⟨_, rest, hsplit, hds, hwidth, hseen⟩
  · rw [hread]
    exact ⟨[], cs, rfl, fun _ hd => absurd hd List.not_mem_nil, rfl, Nat.le_succ _⟩

/-- An escape is a character and digits. -/
theorem exists_digits {text : List Char} {v : Escaped} (h : IsEscape quote text v) :
    ∃ c ds, text = c :: ds ∧ ∀ d ∈ ds, isDigitOf 16 d = true := by
  cases h with
  | letter => exact ⟨_, [], rfl, fun _ hd => absurd hd List.not_mem_nil⟩
  | octal hlength hds =>
    obtain ⟨c, ds, rfl⟩ := List.exists_cons_of_length_eq_add_one hlength
    exact ⟨c, ds, rfl, fun d hd => isDigitOf_of_le (by decide) (hds d (List.mem_cons_of_mem c hd))⟩
  | hexadecimal _ hds => exact ⟨_, _, rfl, hds⟩
  | codePoint _ hds => exact ⟨_, _, rfl, hds⟩

/-- An escape looks at one character more than it takes, at most. -/
theorem seen_le (hq : IsQuote quote) (cs : List Char) : (read quote cs).seen ≤ (read quote cs).width + 1 := by
  cases cs with
  | nil => exact Nat.le_refl _
  | cons c cs =>
    by_cases hline : c = '\n'
    · rw [hline, read, if_pos rfl]
    · obtain ⟨ds, rest, -, -, hwidth, hseen⟩ := exists_taken hq hline cs
      rw [hwidth]
      exact hseen

end Escape

theorem IsEscape.lineFeed_notMem {quote : Char} (hq : IsQuote quote) {text : List Char} {v : Escaped} (h : IsEscape quote text v) :
    '\n' ∉ text := by
  have hdigits : ∀ {base : Nat} {ds : List Char}, base ≤ 16 → (∀ d ∈ ds, isDigitOf base d = true) → '\n' ∉ ds :=
    fun hbase hds hmem => absurd (isDigitOf_of_le hbase (hds _ hmem)) (by decide)
  cases h with
  | letter h =>
    intro hmem
    obtain rfl := List.mem_singleton.1 hmem
    rcases hq with rfl | rfl <;> exact absurd h (by simp [Escape.letters])
  | octal _ hds => exact hdigits (by decide) hds
  | hexadecimal _ hds => exact List.not_mem_cons_of_ne_of_not_mem (by decide) (hdigits (Nat.le_refl _) hds)
  | codePoint hlength hds =>
    refine List.not_mem_cons_of_ne_of_not_mem ?_ (hdigits (Nat.le_refl _) hds)
    rintro rfl
    exact absurd hlength (by simp)

instance (cs : List Char) : Decidable (Illegal '"' cs) := decidable_of_iff _ (Escape.value_eq_none_iff (.inl rfl))

/-- Whether an escape is legal does not depend on what stands behind its digits. -/
theorem illegal_append_iff {quote c : Char} {cs rest : List Char} (hrest : NoDigit rest) :
    Illegal quote (c :: cs ++ rest) ↔ Illegal quote (c :: cs) := by
  constructor
  · intro h text v hescape hfront
    exact h text v hescape (hfront.trans (List.prefix_append _ rest))
  · rintro h text v hescape ⟨more, hmore⟩
    obtain ⟨d, ds, rfl, hds⟩ := Escape.exists_digits hescape
    obtain ⟨rfl, htail⟩ := List.cons.inj hmore
    obtain ⟨cs', rfl, -⟩ := exists_of_append_eq htail.symm hrest hds
    exact h _ v hescape ⟨cs', rfl⟩

theorem illegal_nil (quote : Char) : Illegal quote [] := by
  intro text v hescape hfront
  obtain ⟨c, ds, rfl, -⟩ := Escape.exists_digits hescape
  exact absurd (List.prefix_nil.1 hfront) (List.cons_ne_nil _ _)

end GoSyntax
