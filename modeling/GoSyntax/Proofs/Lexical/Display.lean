import GoSyntax.Proofs.Lexical.Strings

/-!
# String constants as they are shown

A string constant is shown between double quotes, byte by byte in ASCII. Every byte is shown as an item that denotes it, but for the
apostrophe: it is shown behind a backslash, and this is no escape between double quotes. So what is shown is read back without the
apostrophes.
-/

namespace GoSyntax

open Quotation (escapeByte hexDigit)

/-! ## Bytes as they are shown -/

theorem digit?_hexDigit (n : Nat) : digit? 16 (hexDigit n) = some (n % 16) := by
  have hall : ∀ m < 16, digit? 16 (Nat.digitChar m) = some m := by decide
  exact hall _ (Nat.mod_lt n (by decide))

/-- Two hexadecimal digits show a byte. -/
theorem isEscape_hexDigits (b : UInt8) : IsEscape '"' ['x', hexDigit (b.toNat / 16), hexDigit b.toNat] (.byte b) := by
  refine .hexadecimal rfl (fun d hd => ?_) ?_
  · have hdigit : ∀ n, isDigitOf 16 (hexDigit n) = true := fun n => by
      rw [isDigitOf, digit?_hexDigit]
      rfl
    rcases List.mem_pair.1 hd with rfl | rfl <;> exact hdigit _
  · have hvalue : ofDigits 16 [hexDigit (b.toNat / 16), hexDigit b.toNat] = (0 * 16 + b.toNat / 16 % 16) * 16 + b.toNat % 16 := by
      simp only [ofDigits, List.foldl_cons, List.foldl_nil, digit?_hexDigit, Option.getD_some]
    have hlt := b.toNat_lt
    rw [← ofDigits_eq_positional, hvalue]
    omega

/-- A byte that is an ASCII character is that character alone. -/
theorem exists_ascii {b : UInt8} (hb : b.toNat < 0x80) :
    (Char.ofNat b.toNat).toNat = b.toNat ∧ String.utf8EncodeChar (Char.ofNat b.toNat) = [b] := by
  have hnat : (Char.ofNat b.toNat).toNat = b.toNat := by
    have hvalid : b.toNat.isValidChar := .inl (by omega)
    rw [Char.ofNat, dif_pos hvalid]
    rfl
  refine ⟨hnat, ?_⟩
  rw [Utf8.encode_of_lt (by rwa [hnat]), hnat, UInt8.ofNat_toNat]

/-- Every byte but the apostrophe is shown as an item that denotes it. -/
theorem exists_shown {b : UInt8} (hb : b ≠ 39) : ∃ w : WrittenItem '"', w.text = escapeByte b ∧ w.denotes.bytes = [b] := by
  have hletter : ∀ c d : Char, (c, d) ∈ Escape.letters '"' → String.utf8EncodeChar d = [b] →
      ∃ w : WrittenItem '"', w.text = ['\\', c] ∧ w.denotes.bytes = [b] := fun _ _ h hbytes => ⟨.escape _ _ (.letter h), rfl, hbytes⟩
  unfold escapeByte
  by_cases htab : b = 9
  · subst htab
    exact hletter 't' '\t' (by simp [Escape.letters]) rfl
  by_cases hreturn : b = 13
  · subst hreturn
    exact hletter 'r' '\r' (by simp [Escape.letters]) rfl
  by_cases hfeed : b = 10
  · subst hfeed
    exact hletter 'n' '\n' (by simp [Escape.letters]) rfl
  by_cases hquote : b = 34
  · subst hquote
    exact hletter '"' '"' (by simp [Escape.letters]) rfl
  by_cases hbackslash : b = 92
  · subst hbackslash
    exact hletter '\\' '\\' (by simp [Escape.letters]) rfl
  rw [if_neg htab, if_neg hreturn, if_neg hfeed, if_neg (by simp [hquote, hb, hbackslash])]
  by_cases hascii : (32 ≤ b && b ≤ 126) = true
  · rw [if_pos hascii]
    obtain ⟨hlow, hhigh⟩ : 32 ≤ b.toNat ∧ b.toNat ≤ 126 := by
      simpa [UInt8.le_iff_toNat_le] using hascii
    obtain ⟨hnat, hbytes⟩ := exists_ascii (by omega : b.toNat < 0x80)
    have hne : ∀ (c : Char) (n : UInt8), c.toNat = n.toNat → b ≠ n → Char.ofNat b.toNat ≠ c := by
      intro c n hc hn heq
      rw [← heq, hnat] at hc
      exact hn (UInt8.toNat_inj.1 hc)
    exact ⟨.plain (Char.ofNat b.toNat) (hne _ 10 rfl hfeed) (hne _ 34 rfl hquote) (hne _ 92 rfl hbackslash), rfl, hbytes⟩
  · rw [if_neg hascii]
    exact ⟨.escape _ _ (isEscape_hexDigits b), rfl, rfl⟩

/-! ## Strings as they are shown -/

namespace QuotedItem

/-- An apostrophe is shown as an escape that is none between double quotes. -/
theorem read_apostrophe (rest : List Char) :
    read '"' (escapeByte 39 ++ rest) = (escape ⟨none, 1, 1⟩ :: (read '"' rest).1, (read '"' rest).2) := by
  have hescape : Escape.read '"' ('\'' :: rest) = ⟨none, 1, 1⟩ := rfl
  have hshown : escapeByte 39 = ['\\', '\''] := by decide
  rw [hshown, List.cons_append, List.singleton_append, read_escape (by decide), hescape]
  rfl

/-- Shown bytes are read as items that denote them, but for the apostrophes, each of which is an illegal escape. -/
theorem exists_read_shown (bs : List UInt8) :
    ∃ items, (∀ rest, read '"' (bs.flatMap escapeByte ++ rest) = (items ++ (read '"' rest).1, (read '"' rest).2))
    ∧ items.flatMap bytes = bs.filter (· != 39) ∧ illegals items = bs.count 39 ∧ totalWidth items = (bs.flatMap escapeByte).length
    ∧ '\n' ∉ bs.flatMap escapeByte := by
  induction bs with
  | nil => exact ⟨[], fun _ => rfl, rfl, rfl, rfl, List.not_mem_nil⟩
  | cons b bs ih =>
    obtain ⟨items, hread, hbytes, hcount, hwidth, hline⟩ := ih
    by_cases hb : b = 39
    · subst hb
      refine ⟨escape ⟨none, 1, 1⟩ :: items, fun rest => ?_, ?_, ?_, ?_, ?_⟩
      · rw [List.flatMap_cons, List.append_assoc, read_apostrophe, hread]
        rfl
      · rw [List.filter_cons, if_neg (by decide), ← hbytes]
        rfl
      · rw [List.count_cons_self, ← hcount, illegals_cons]
        rfl
      · rw [List.flatMap_cons, List.length_append, ← hwidth]
        rfl
      · rw [List.flatMap_cons, List.mem_append, not_or]
        exact ⟨by decide, hline⟩
    · obtain ⟨w, htext, hdenotes⟩ := exists_shown hb
      refine ⟨w.item :: items, fun rest => ?_, ?_, ?_, ?_, ?_⟩
      · rw [List.flatMap_cons, List.append_assoc, ← htext, read_item (.inl rfl), hread]
        rfl
      · rw [List.filter_cons, if_pos (bne_iff_ne.2 hb), List.flatMap_cons, w.bytes_item, hdenotes, hbytes]
        rfl
      · rw [List.count_cons_of_ne hb, ← hcount, illegals_cons, w.isNone_item]
        rfl
      · have htotal : totalWidth (w.item :: items) = w.item.width + totalWidth items := rfl
        rw [List.flatMap_cons, List.length_append, ← htext, ← w.width_item, ← hwidth, htotal]
      · rw [List.flatMap_cons, List.mem_append, not_or, ← htext]
        exact ⟨w.lineFeed_notMem_text (.inl rfl), hline⟩

end QuotedItem

theorem toList_ofBytes (bs : List UInt8) : (Quotation.ofBytes bs).toList = '"' :: (bs.flatMap escapeByte ++ ['"']) := String.toList_ofList

/-- A string constant is shown on one line. -/
theorem lineFeed_notMem_ofBytes (bs : List UInt8) : '\n' ∉ (Quotation.ofBytes bs).toList := by
  obtain ⟨-, -, -, -, -, hline⟩ := QuotedItem.exists_read_shown bs
  rw [toList_ofBytes]
  intro hmem
  rcases List.mem_cons.1 hmem with heq | hmem
  · nomatch heq
  · rcases List.mem_append.1 hmem with hmem | hmem
    · exact hline hmem
    · nomatch List.mem_singleton.1 hmem

/-- The text of a string constant is one literal wherever it stands, of the bytes of the constant without the apostrophes; these are
reported. -/
theorem readsBefore_shown (bs : List UInt8) : ReadsBefore (fun _ => True) (Quotation.ofBytes bs).toList (.string (bs.filter (· != 39)))
    (List.replicate (bs.count 39) .illegalEscape) := by
  obtain ⟨items, hread, hbytes, hcount, hwidth, -⟩ := QuotedItem.exists_read_shown bs
  have hline := lineFeed_notMem_ofBytes bs
  have hlength : (bs.flatMap escapeByte ++ ['"']).length = QuotedItem.totalWidth items + 1 := by
    rw [List.length_append, hwidth]
    rfl
  have hlegal : ∀ e, QuotedItem.escape e ∈ items → e.seen ≤ e.width + 1 := fun e he => by
    have hmem : QuotedItem.escape e ∈ (QuotedItem.read '"' (bs.flatMap escapeByte ++ [])).1 := by
      rw [hread]
      exact List.mem_append_left _ he
    exact QuotedItem.seen_le_of_mem_read (.inl rfl) hmem
  rw [toList_ofBytes] at hline ⊢
  rw [← hbytes, ← hcount, ← QuotedItem.faults_findings 1 items]
  refine readsBefore_of_read known_any (by decide) (fun rest _ => ?_) fun f hf => ?_
  · refine ⟨QuotedItem.totalWidth items + 2, by rw [hlength], ?_⟩
    have hclosed : QuotedItem.read '"' (bs.flatMap escapeByte ++ '"' :: rest) = (items, true) := by
      rw [hread, QuotedItem.read_quote (by decide), List.append_nil]
    rw [Lexeme.read_doubleQuote, List.append_assoc, List.singleton_append, (Quoted.string_of_read hclosed).1, hlength]
    exact congrArg (Lexeme.mk _ _ _) (List.append_nil _)
  · have hseen := QuotedItem.seen_le_of_mem_findings hlegal hf
    have hoffset := QuotedItem.offset_le_of_mem_findings hf
    rw [hlength]
    exact ⟨by omega, by omega, fun hmem => hline (List.mem_of_mem_take hmem)⟩

/-- The text of a string constant is read back as one literal, which ends the statement and the input. Its value is the constant without
the apostrophes, and each of these is reported; so what is read back is the constant, and nothing is reported, exactly if there is no
apostrophe in it. -/
theorem tokenize_display (path : SourcePath) (bs : List UInt8) :
    tokenize path (Utf8.encode (Constant.string bs).display.toList)
        = ([⟨.literal (.string (bs.filter (· != 39))), ⟨path, 1⟩⟩, ⟨.punctuation .semicolon, ⟨path, 1⟩⟩, ⟨.eof, ⟨path, 1⟩⟩],
          List.replicate (bs.count 39) ⟨.illegalEscape, ⟨path, 1⟩⟩)
      ∧ (tokenize path (Utf8.encode (Constant.string bs).display.toList)
          = ([⟨.literal (.string bs), ⟨path, 1⟩⟩, ⟨.punctuation .semicolon, ⟨path, 1⟩⟩, ⟨.eof, ⟨path, 1⟩⟩], []) ↔ 39 ∉ bs) := by
  have hscan : tokenize path (Utf8.encode (Constant.string bs).display.toList)
      = ([⟨.literal (.string (bs.filter (· != 39))), ⟨path, 1⟩⟩, ⟨.punctuation .semicolon, ⟨path, 1⟩⟩, ⟨.eof, ⟨path, 1⟩⟩],
        List.replicate (bs.count 39) ⟨.illegalEscape, ⟨path, 1⟩⟩) := by
    have hend : Undecoded.tokensFrom true ⟨path, [], 1, false⟩ = ⟨[⟨⟨.punctuation .semicolon, ⟨path, 1⟩⟩, []⟩], ⟨⟨.eof, ⟨path, 1⟩⟩, []⟩⟩ := by
      have hnone : Undecoded.nextRune ⟨path, [], 1, false⟩ = (0, none) := (Undecoded.nextRune_behind _ _ _).trans Utf8.next_nil
      rw [Undecoded.tokensFrom, Feed.ofUndecoded_of_none hnone, Feed.chars, List.filterMap_nil, lexemes_nil]
      rfl
    have htokens := readsBefore_shown bs path [] 1 false true trivial
    rw [List.append_nil, List.count_eq_zero_of_not_mem (lineFeed_notMem_ofBytes bs), hend] at htokens
    have hfeed : Feed.tokens path (Utf8.encode (Constant.string bs).display.toList) = _ := htokens
    rw [tokenize, hfeed, Feed.values_cons, Feed.pending_cons, List.map_replicate]
    exact congrArg (Prod.mk _) (List.append_nil _)
  refine ⟨hscan, ?_⟩
  rw [hscan]
  constructor
  · intro h hmem
    have hnone := (List.replicate_eq_nil_iff _).1 (Prod.mk.inj h).2
    exact absurd hmem (List.count_eq_zero.1 hnone)
  · intro h
    have hsame : bs.filter (· != 39) = bs := by
      refine List.filter_eq_self.2 fun b hb => bne_iff_ne.2 ?_
      rintro rfl
      exact h hb
    rw [List.count_eq_zero_of_not_mem h, hsame]
    rfl

end GoSyntax
