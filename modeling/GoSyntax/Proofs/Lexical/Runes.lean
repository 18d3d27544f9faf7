import GoSyntax.Proofs.Lexical.Quotes

/-!
# Runes denote one character or byte

Items between single quotes are one token, however many there are, and its value is that of the first of them. That there is not exactly
one item, or no closing quote, is reported once.
-/

namespace GoSyntax

/-- The value of a rune of items is that of the first, and zero if there is none. -/
def firstRune (ws : List (WrittenItem '\'')) : Constant := (ws.head?.map fun w => w.denotes.rune).getD (.rune 0 false)

theorem runeValue_items (ws : List (WrittenItem '\'')) : Quoted.runeValue (ws.map WrittenItem.item) = firstRune ws := by
  cases ws with
  | nil => rfl
  | cons w ws =>
    cases w with
    | plain => rfl
    | escape text v h => cases v <;> rfl

/-- The value says of bytes that they are written as such: by octal digits or behind an `x`. -/
theorem WrittenItem.isByte_iff {quote : Char} (hq : IsQuote quote) (w : WrittenItem quote) :
    (∃ n, w.denotes.rune = .rune n true) ↔ ∃ c cs, w.text = '\\' :: c :: cs ∧ (isDigitOf 8 c = true ∨ c = 'x') := by
  cases w with
  | plain c hline hquote hbackslash =>
    refine ⟨nofun, ?_⟩
    rintro ⟨d, cs, htext, -⟩
    nomatch htext
  | escape text v h =>
    cases h with
    | @letter c d h =>
      refine ⟨nofun, ?_⟩
      rintro ⟨c', cs, htext, hbyte⟩
      obtain ⟨rfl, -⟩ : c = c' ∧ [] = cs := by simpa [WrittenItem.text] using htext
      rcases hbyte with hoctal | rfl
      · have hnone := Escape.letter?_of_isDigitOf hq hoctal
        rw [(Escape.letter?_eq_some_iff hq).2 h] at hnone
        exact absurd hnone (Option.some_ne_none d)
      · rcases hq with rfl | rfl <;> exact absurd h (by simp [Escape.letters])
    | @octal _ b hlength hds =>
      obtain ⟨c, ds, rfl⟩ := List.exists_cons_of_length_eq_add_one hlength
      exact ⟨fun _ => ⟨c, ds, rfl, .inl (hds c List.mem_cons_self)⟩, fun _ => ⟨b.toNat, rfl⟩⟩
    | @hexadecimal ds b => exact ⟨fun _ => ⟨'x', ds, rfl, .inr rfl⟩, fun _ => ⟨b.toNat, rfl⟩⟩
    | @codePoint mark ds c hlength =>
      constructor
      · rintro ⟨n, hn⟩
        exact absurd (Constant.rune.inj hn).2 Bool.false_ne_true
      rintro ⟨c', cs, htext, hbyte⟩
      obtain ⟨rfl, -⟩ : mark = c' ∧ ds = cs := by simpa [WrittenItem.text] using htext
      rcases List.mem_pair.1 hlength with h | h
      all_goals
        obtain ⟨rfl, -⟩ := Prod.mk.inj h
        exact absurd hbyte (by decide)

/-- A rune of items is one literal, which ends with its closing quote; nothing is found in it but that it has no item or more than one. -/
theorem readsBefore_rune (ws : List (WrittenItem '\'')) : ReadsBefore (fun _ => True) (quoted '\'' ws) (firstRune ws)
    ((Quoted.runeCount ws.length (ws.flatMap WrittenItem.text).length).map Finding.fault) := by
  have hlength : (ws.flatMap WrittenItem.text ++ ['\'']).length = (ws.flatMap WrittenItem.text).length + 1 := List.length_append
  refine readsBefore_of_read known_any (by decide) (fun rest _ => ?_) fun f hf => ?_
  · refine ⟨(ws.flatMap WrittenItem.text).length + 2, by rw [hlength], ?_⟩
    rw [Lexeme.read_singleQuote, Quoted.rune, List.append_assoc, List.singleton_append, QuotedItem.read_closed (.inr rfl)]
    dsimp only
    rw [runeValue_items, QuotedItem.findings_items, QuotedItem.totalWidth_items, List.length_map, hlength]
    rfl
  · have hseen : f.seen = (ws.flatMap WrittenItem.text).length + 2 := by
      unfold Quoted.runeCount at hf
      split at hf
      · rw [List.mem_singleton.1 hf]
      · exact absurd hf List.not_mem_nil
      · rw [List.mem_singleton.1 hf]
    rw [hseen, hlength, Lexeme.offset_of_mem_runeCount hf]
    exact ⟨Nat.le_refl _, Nat.zero_le _, List.not_mem_nil⟩

/-- A rune whose line ends in front of a closing quote is one literal, which ends there; that it is not closed is all that is found. -/
theorem readsBefore_openRune (ws : List (WrittenItem '\'')) :
    ReadsBefore StartsLine ('\'' :: ws.flatMap WrittenItem.text) (firstRune ws) [.unterminatedLiteral "rune"] := by
  have hreads : ReadsBefore StartsLine ('\'' :: ws.flatMap WrittenItem.text) (firstRune ws)
      ([Quoted.cutOff "rune" (ws.flatMap WrittenItem.text).length].map Finding.fault) := by
    refine readsBefore_of_read known_startsLine (by decide) (fun rest hrest => ?_) fun f hf => ?_
    · refine ⟨(ws.flatMap WrittenItem.text).length + 2, Nat.le_refl _, ?_⟩
      rw [Lexeme.read_singleQuote, Quoted.rune, QuotedItem.read_cut (.inr rfl) ws hrest]
      dsimp only
      rw [runeValue_items, QuotedItem.findings_items, QuotedItem.totalWidth_items]
      rfl
    · obtain rfl := List.mem_singleton.1 hf
      exact ⟨Nat.le_refl _, Nat.zero_le _, List.not_mem_nil⟩
  exact hreads

/-- Between single quotes there is one item. A rune of one item has the value of that item, a code point or a byte that is written as one,
and nothing is wrong with it; a rune of no item is zero, and one of more items has the value of the first, and this is reported once. If
the line ends in front of the closing quote, it is only this that is reported, the value is the same, and the line break is not part of
the rune. -/
theorem runes_exact :
    (∀ w : WrittenItem '\'', ReadsBefore (fun _ => True) (quoted '\'' [w]) w.denotes.rune [])
      ∧ (∀ w : WrittenItem '\'', (∃ n, w.denotes.rune = .rune n true) ↔ ∃ c cs, w.text = '\\' :: c :: cs ∧ (isDigitOf 8 c = true ∨ c = 'x'))
      ∧ ReadsBefore (fun _ => True) (quoted '\'' []) (.rune 0 false) [.malformedRune "empty rune literal"]
      ∧ (∀ (w w' : WrittenItem '\'') (ws : List (WrittenItem '\'')), ReadsBefore (fun _ => True) (quoted '\'' (w :: w' :: ws)) w.denotes.rune
        [.malformedRune "more than one character in rune literal"])
      ∧ ReadsBefore StartsLine ['\''] (.rune 0 false) [.unterminatedLiteral "rune"]
      ∧ ∀ (w : WrittenItem '\'') (ws : List (WrittenItem '\'')), ReadsBefore StartsLine ('\'' :: (w :: ws).flatMap WrittenItem.text) w.denotes.rune
        [.unterminatedLiteral "rune"] :=
  ⟨fun w => readsBefore_rune [w], WrittenItem.isByte_iff (.inr rfl), readsBefore_rune [], fun w w' ws => readsBefore_rune (w :: w' :: ws),
    readsBefore_openRune [], fun w ws => readsBefore_openRune (w :: ws)⟩

end GoSyntax
