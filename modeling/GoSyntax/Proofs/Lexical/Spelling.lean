import Mathlib.Algebra.Order.Field.Rat
import Mathlib.Data.Bool.AllAny
import Mathlib.Data.List.Basic
import GoSyntax.Proofs.Lexical.Terminators

/-!
# Tokens written out

A token can be written as a text of its own: a word or a symbol by its spelling, a number by digits, what stands between quotes by numeric
escapes. Not every kind of token can: no numeral is negative, and no escape denotes what is no character. But the tokens of a source can all
be written, also those of a source with faults, since the value that a faulty literal is given is always that of some literal without fault.
-/

namespace GoSyntax

/-! ## Digits -/

/-- Digits that denote a number in base ten. -/
structure DecimalDigits (ds : List Char) (n : Nat) : Prop where
  ne_nil : ds ≠ []
  isDigit : ∀ c ∈ ds, c.isDigit = true
  value : ofDigits 10 ds = n

/-- So many hexadecimal digits that denote a number. -/
structure HexDigits (count : Nat) (ds : List Char) (n : Nat) : Prop where
  length : ds.length = count
  isDigit : ∀ c ∈ ds, isDigitOf 16 c = true
  value : ofDigits 16 ds = n

theorem ofDigits_concat (base : Nat) (ds : List Char) (c : Char) :
    ofDigits base (ds ++ [c]) = ofDigits base ds * base + (digit? base c).getD 0 := by
  rw [ofDigits, List.foldl_append]
  rfl

/-- Each number below ten has a digit. -/
theorem exists_digit {d : Nat} (h : d < 10) : ∃ c : Char, c.isDigit = true ∧ digit? 10 c = some d ∧ (c = '0' → d = 0) := by
  have hall : ∀ d < 10, "0123456789".toList.any (fun c => c.isDigit = true ∧ digit? 10 c = some d ∧ (c = '0' → d = 0)) = true := by
    decide +kernel
  obtain ⟨c, -, hc⟩ := List.any_iff_exists_prop.1 (hall d h)
  exact ⟨c, hc⟩

theorem exists_hexDigit {d : Nat} (h : d < 16) : ∃ c, digit? 16 c = some d := by
  have hall : ∀ d < 16, "0123456789abcdef".toList.any (fun c => digit? 16 c = some d) = true := by decide +kernel
  obtain ⟨c, -, hc⟩ := List.any_iff_exists_prop.1 (hall d h)
  exact ⟨c, hc⟩

/-- Each number can be written in base ten, without a zero in front. -/
theorem exists_decimalDigits (n : Nat) : ∃ ds, DecimalDigits ds n ∧ (ds.head? = some '0' → ds = ['0']) := by
  have hhead : ∃ ds, DecimalDigits ds n ∧ (ds.head? = some '0' → ds = ['0'] ∧ n = 0) := by
    induction n using Nat.strongRecOn with
    | ind n ih =>
      rcases Nat.lt_or_ge n 10 with hn | hn
      · obtain ⟨c, hc, hd, hzero⟩ := exists_digit hn
        refine ⟨[c], ⟨List.cons_ne_nil _ _, fun a ha => List.mem_singleton.1 ha ▸ hc, ?_⟩, fun h => ?_⟩
        · rw [ofDigits, List.foldl_cons, List.foldl_nil, hd, Nat.zero_mul, Nat.zero_add, Option.getD_some]
        · obtain rfl := Option.some.inj h
          exact ⟨rfl, hzero rfl⟩
      · obtain ⟨ds, ⟨hne, hds, hvalue⟩, hhead⟩ := ih (n / 10) (by omega)
        obtain ⟨c, hc, hd, -⟩ := exists_digit (Nat.mod_lt n (by decide : 0 < 10))
        refine ⟨ds ++ [c], ⟨List.append_ne_nil_of_left_ne_nil hne _, fun a ha => ?_, ?_⟩, fun h => ?_⟩
        · exact (List.mem_append.1 ha).elim (hds a) fun ha => List.mem_singleton.1 ha ▸ hc
        · rw [ofDigits_concat, hvalue, hd, Option.getD_some]
          omega
        · rw [List.head?_append_of_ne_nil _ hne] at h
          have := (hhead h).2
          omega
  obtain ⟨ds, hds, hhead⟩ := hhead
  exact ⟨ds, hds, fun h => (hhead h).1⟩

/-- Each number that is small enough can be written with so many hexadecimal digits. -/
theorem exists_hexDigits (count : Nat) {n : Nat} (h : n < 16 ^ count) : ∃ ds, HexDigits count ds n := by
  induction count generalizing n with
  | zero => exact ⟨[], rfl, nofun, (Nat.lt_one_iff.1 h).symm⟩
  | succ count ih =>
    obtain ⟨ds, hlength, hds, hvalue⟩ := ih (n := n / 16) (by rw [Nat.pow_succ] at h; omega)
    obtain ⟨c, hd⟩ := exists_hexDigit (Nat.mod_lt n (by decide : 0 < 16))
    refine ⟨ds ++ [c], by rw [List.length_append, hlength]; rfl, fun a ha => ?_, ?_⟩
    · exact (List.mem_append.1 ha).elim (hds a) fun ha => by rw [List.mem_singleton.1 ha, isDigitOf, hd]; rfl
    · rw [ofDigits_concat, hvalue, hd, Option.getD_some]
      omega

/-! ## Tokens -/

/-- Digits with an exponent, and the number they denote. No exponent is beyond the bound of a numeral's scale. -/
inductive Scientific : List Char → Rat → Prop
  | positive {ds es : List Char} {m e : Nat} {mark : Char} {sign : List Char} (hm : DecimalDigits ds m) (he : DecimalDigits es e)
    (hmark : mark = 'e' ∨ mark = 'E') (hsign : sign = [] ∨ sign = ['+']) (hbound : e ≤ Numeral.maxScale) :
    Scientific (ds ++ mark :: (sign ++ es)) (m * 10 ^ (e : Int))
  | negative {ds es : List Char} {m e : Nat} {mark : Char} (hm : DecimalDigits ds m) (he : DecimalDigits es e)
    (hmark : mark = 'e' ∨ mark = 'E') (hbound : e ≤ Numeral.maxScale) :
    Scientific (ds ++ mark :: '-' :: es) (m * 10 ^ (-(e : Int)))

/-- A token written out: the text and what it is. An integer has no superfluous zero in front, which would make it octal. -/
inductive Spells : List Char → TokenKind → Prop
  | keyword (k : Keyword) : Spells k.spelling.toList (.keyword k)
  | operator (o : Operator) : Spells o.spelling.toList (.operator o)
  | punctuation (p : Punctuation) : Spells p.spelling.toList (.punctuation p)
  | ident (name : String) : Spells name.toList (.ident name)
  | int {ds : List Char} {n : Nat} (hds : DecimalDigits ds n) (hzero : ds.head? = some '0' → ds = ['0']) : Spells ds (.literal (.int n))
  | float {cs : List Char} {v : Rat} (hcs : Scientific cs v) : Spells cs (.literal (.float v))
  | imaginary {cs : List Char} {v : Rat} (hcs : Scientific cs v) : Spells (cs ++ ['i']) (.literal (.imaginary v))
  | byteRune {ds : List Char} {n : Nat} (hds : HexDigits 2 ds n) : Spells ('\'' :: '\\' :: 'x' :: (ds ++ ['\''])) (.literal (.rune n true))
  | rune {ds : List Char} {n : Nat} (hds : HexDigits 8 ds n) : Spells ('\'' :: '\\' :: 'U' :: (ds ++ ['\''])) (.literal (.rune n false))
  | string {dss : List (List Char)} {bytes : List UInt8} (hdss : List.Forall₂ (fun ds b => HexDigits 2 ds b.toNat) dss bytes) :
    Spells ('"' :: (dss.flatMap (fun ds => '\\' :: 'x' :: ds) ++ ['"'])) (.literal (.string bytes))

/-! ## What a token can be -/

/-- The kinds of token that a scan can make, but for the end of the input: a name is a word that is not reserved, and a literal has a
value that some literal without fault has. -/
def TokenKind.Emitted : TokenKind → Prop
  | .eof => False
  | .ident name => ∃ c cs, Identifier.isStart c = true ∧ (∀ d ∈ cs, Identifier.isPart d = true) ∧ name = String.ofList (c :: cs)
    ∧ Keyword.ofSpelling? name = none
  | .literal (.int n) => 0 ≤ n
  | .literal (.float v) => ∃ m k, Numeral.scale? m k = some v
  | .literal (.complex re im) => re = 0 ∧ ∃ m k, Numeral.scale? m k = some im
  | .literal (.rune value byteEscape) => ∃ n : Nat, value = n ∧ if byteEscape then n < 256 else n.isValidChar
  | .literal (.string _) => True
  | .literal _ => False
  | _ => True

namespace Numeral

/-- A pass leaves what the result and the power that is left make together. -/
theorem powerLoop_eq (result base exponent : Nat) : powerLoop result base exponent = result * base ^ exponent := by
  fun_induction powerLoop result base exponent with
  | case1 result base => rw [Nat.pow_zero, Nat.mul_one]
  | case2 result base exponent hne ih =>
    have hsplit : base ^ exponent = base ^ (exponent % 2) * (base * base) ^ (exponent / 2) := by
      rw [← Nat.pow_two, ← Nat.pow_mul, ← Nat.pow_add, Nat.mod_add_div]
    have hsquare : (if 0 < exponent / 2 then base * base else base) ^ (exponent / 2) = (base * base) ^ (exponent / 2) := by
      by_cases hleft : 0 < exponent / 2
      · rw [if_pos hleft]
      · rw [Nat.eq_zero_of_not_pos hleft, Nat.pow_zero, Nat.pow_zero]
    simp only [dite_eq_ite] at ih
    rw [ih, hsquare, hsplit, ← Nat.mul_assoc]
    by_cases hodd : exponent % 2 = 1
    · rw [if_pos hodd, hodd, Nat.pow_one]
    · have heven : exponent % 2 = 0 := by omega
      rw [if_neg hodd, heven, Nat.pow_zero, Nat.mul_one]

theorem powerOfTen_eq (exponent : Nat) : powerOfTen exponent = 10 ^ exponent := by rw [powerOfTen, powerLoop_eq, Nat.one_mul]

/-- A mantissa scaled by a power of ten within bounds. -/
theorem scale?_eq_some_iff {m : Nat} {k : Int} {v : Rat} : scale? m k = some v ↔ k.natAbs ≤ maxScale ∧ v = m * 10 ^ k := by
  rw [scale?]
  by_cases hbound : maxScale < k.natAbs
  · rw [if_pos hbound]
    exact iff_of_false nofun fun h => by omega
  · rw [if_neg hbound]
    have hscaled : (if 0 ≤ k then some ((m * powerOfTen k.natAbs : Nat) : Rat) else some (mkRat m (powerOfTen k.natAbs)))
        = some ((m : Rat) * 10 ^ k) := by
      split
      · next hk =>
        obtain ⟨n, rfl⟩ := Int.eq_ofNat_of_zero_le hk
        rw [zpow_natCast, Int.natAbs_natCast, Nat.cast_mul, powerOfTen_eq, Nat.cast_pow]
        rfl
      · next hk =>
        obtain ⟨n, rfl⟩ := Int.exists_eq_neg_ofNat (Int.le_of_lt (Int.not_le.1 hk))
        rw [Rat.mkRat_eq_div, zpow_neg, zpow_natCast, Int.natAbs_neg, Int.natAbs_natCast, powerOfTen_eq, Nat.cast_pow, div_eq_mul_inv]
        rfl
    rw [hscaled, Option.some_inj, and_iff_right (Nat.le_of_not_lt hbound), eq_comm]

/-- The value of a numeral is a scaled mantissa, also when its own scale is out of bounds. -/
theorem exists_scale? (whole : List Char) (fraction : Option (List Char)) (exponent : Option Exponent) :
    ∃ m k, scale? m k = some ((floatValue? whole fraction exponent).getD 0) := by
  rw [floatValue?]
  cases hvalue : scale? (ofDigits 10 (whole ++ fraction.getD [])) (exponentValue exponent - (fraction.getD []).length) with
  | some v => exact ⟨_, _, hvalue⟩
  | none =>
    have hzero : (0 : Rat) = ((0 : Nat) : Rat) * 10 ^ (0 : Int) := by rw [Nat.cast_zero, zero_mul]
    exact ⟨0, 0, scale?_eq_some_iff.2 ⟨Nat.zero_le _, hzero⟩⟩

theorem integerValue_nonneg (digits : List Char) : 0 ≤ integerValue digits := by
  rw [integerValue]
  split <;> exact Int.natCast_nonneg _

theorem emitted_value (n : Numeral) : (TokenKind.literal n.value).Emitted := by
  unfold value
  split
  · exact Int.natCast_nonneg _
  · exact integerValue_nonneg _
  · exact exists_scale? _ _ _
  · exact ⟨rfl, exists_scale? _ _ _⟩

end Numeral

namespace Lexeme

/-- The kind of token that a lexeme makes, if it makes one, is one that can be emitted. -/
def Emits (l : Lexeme) : Prop := ∀ kind, l.kind = .token kind → kind.Emitted

theorem Emits.ite {φ : Prop} [Decidable φ] {l l' : Lexeme} (h : φ → l.Emits) (h' : l'.Emits) : (if φ then l else l').Emits := by
  split
  · next hφ => exact h hφ
  · exact h'

theorem emits_of_literal {l : Lexeme} {value : Constant} (h : l.kind = .token (.literal value))
    (hvalue : (TokenKind.literal value).Emitted) :
    l.Emits := by
  intro kind hkind
  rwa [← LexemeKind.token.inj (h.symm.trans hkind)]

theorem emits_blockComment (cs : List Char) : (blockComment cs).Emits := by
  rw [blockComment]
  split <;> rintro _ ⟨⟩

theorem emits_word {c : Char} (hc : Identifier.isStart c = true) (cs : List Char) : (word c cs).Emits := by
  rintro kind ⟨⟩
  rw [wordKind]
  split
  · trivial
  · next hword => exact ⟨c, _, hc, fun d hd => List.all_eq_true.1 List.all_takeWhile d hd, rfl, hword⟩

theorem emits_symbol (c : Char) (cs : List Char) : (symbol c cs).Emits := by
  intro kind h
  unfold symbol at h
  split at h
  · next s _ _ =>
    obtain rfl := LexemeKind.token.inj h
    cases s <;> trivial
  · nomatch h

/-- An item of a rune is a byte or a character. -/
theorem emitted_runeValue (items : List QuotedItem) : (TokenKind.literal (Quoted.runeValue items)).Emitted := by
  cases hitem : items.head?.bind QuotedItem.rune? with
  | none =>
    rw [Quoted.runeValue, hitem]
    exact ⟨0, rfl, .inl (by decide)⟩
  | some found =>
    obtain ⟨n, byteEscape⟩ := found
    rw [Quoted.runeValue, hitem]
    refine ⟨n, rfl, ?_⟩
    obtain ⟨item, -, hitem⟩ := Option.bind_eq_some_iff.1 hitem
    match item, hitem with
    | .plain c, rfl => exact c.valid
    | .escape ⟨some (.char c), _, _⟩, rfl => exact c.valid
    | .escape ⟨some (.byte b), _, _⟩, rfl => exact b.toNat_lt

/-- Whatever a text starts with, its first lexeme makes a token that can be emitted, if it makes one. -/
theorem emits_read (c : Char) (cs : List Char) : (read c cs).Emits := by
  unfold read
  refine .ite (fun _ _ h => nomatch h) (.ite (fun _ _ h => nomatch h) (.ite (fun _ _ h => nomatch h)
    (.ite (fun _ => emits_blockComment _) (.ite (fun h => emits_word h cs) ?_))))
  exact .ite (fun _ => emits_of_literal rfl (Numeral.emitted_value _)) (.ite (fun _ => emits_of_literal rfl trivial)
    (.ite (fun _ => emits_of_literal rfl trivial) (.ite (fun _ => emits_of_literal rfl (emitted_runeValue _)) (emits_symbol c cs))))

end Lexeme

theorem emits_of_mem_lexemes (text : List Char) : ∀ l ∈ lexemes text, l.Emits := by
  fun_induction lexemes text with
  | case1 => rintro _ ⟨⟩
  | case2 c cs ih =>
    intro l hl
    rcases List.mem_cons.1 hl with rfl | hl
    · exact Lexeme.emits_read c cs
    · exact ih l hl

/-- A scaled mantissa can be written out. -/
theorem exists_scientific {m : Nat} {k : Int} {v : Rat} (h : Numeral.scale? m k = some v) : ∃ cs, Scientific cs v := by
  obtain ⟨hbound, rfl⟩ := Numeral.scale?_eq_some_iff.1 h
  obtain ⟨ds, hds, -⟩ := exists_decimalDigits m
  obtain ⟨es, hes, -⟩ := exists_decimalDigits k.natAbs
  rcases Int.natAbs_eq k with hk | hk
  · rw [hk]
    exact ⟨_, .positive hds hes (.inl rfl) (.inl rfl) hbound⟩
  · rw [hk]
    exact ⟨_, .negative hds hes (.inl rfl) hbound⟩

/-- What can be emitted can be written out. -/
theorem exists_spells {kind : TokenKind} (h : kind.Emitted) : ∃ cs, Spells cs kind := by
  cases kind with
  | keyword k => exact ⟨_, .keyword k⟩
  | operator o => exact ⟨_, .operator o⟩
  | punctuation p => exact ⟨_, .punctuation p⟩
  | ident name => exact ⟨_, .ident name⟩
  | eof => exact h.elim
  | literal value =>
    cases value with
    | int n =>
      obtain ⟨n, rfl⟩ := Int.eq_ofNat_of_zero_le h
      obtain ⟨ds, hds, hzero⟩ := exists_decimalDigits n
      exact ⟨ds, .int hds hzero⟩
    | float v =>
      obtain ⟨m, k, hscale⟩ := h
      obtain ⟨cs, hcs⟩ := exists_scientific hscale
      exact ⟨cs, .float hcs⟩
    | complex re im =>
      obtain ⟨rfl, m, k, hscale⟩ := h
      obtain ⟨cs, hcs⟩ := exists_scientific hscale
      exact ⟨cs ++ ['i'], .imaginary hcs⟩
    | rune value byteEscape =>
      obtain ⟨n, rfl, hn⟩ := h
      cases byteEscape with
      | true =>
        obtain ⟨ds, hds⟩ := exists_hexDigits 2 hn
        exact ⟨_, .byteRune hds⟩
      | false =>
        have hlt : n < 16 ^ 8 := by
          rcases hn with hn | ⟨-, hn⟩ <;> omega
        obtain ⟨ds, hds⟩ := exists_hexDigits 8 hlt
        exact ⟨_, .rune hds⟩
    | string bytes =>
      have hdss : ∃ dss, List.Forall₂ (fun ds (b : UInt8) => HexDigits 2 ds b.toNat) dss bytes := by
        induction bytes with
        | nil => exact ⟨[], .nil⟩
        | cons b bytes ih =>
          obtain ⟨dss, hdss⟩ := ih trivial
          obtain ⟨ds, hds⟩ := exists_hexDigits 2 b.toNat_lt
          exact ⟨ds :: dss, .cons hds hdss⟩
      obtain ⟨dss, hdss⟩ := hdss
      exact ⟨_, .string hdss⟩
    | bool _ | error | uninit => exact h.elim

end GoSyntax
