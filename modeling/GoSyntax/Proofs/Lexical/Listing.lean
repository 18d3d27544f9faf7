import GoSyntax.Proofs.Lexical.Payloads
import GoSyntax.Proofs.Lines.Source

/-!
# A listing of tokens has lines and fields

The listing of a source has a line for each token, and tabs on a line keep its fields apart. What a token carries comes from the text,
where a string may go over lines and a rune may be a tab; but nothing of this is shown as it is. Numbers are shown by their digits,
runes and strings are quoted with escapes, and a name has only letters, digits and underscores. So no field has a line feed or a tab in
it, except perhaps a location, whose path is anyone's choice.
-/

namespace GoSyntax

/-! ## Fields -/

/-- A text that stays in one field of one line: it has no line feed and no tab. -/
def IsField (text : List Char) : Prop := '\n' ∉ text ∧ '\t' ∉ text

instance (text : List Char) : Decidable (IsField text) := inferInstanceAs (Decidable (_ ∧ _))

namespace IsField

variable {a b : List Char}

theorem of_subset (h : IsField b) (hab : ∀ c ∈ a, c ∈ b) : IsField a :=
  ⟨fun hline => h.1 (hab _ hline), fun htab => h.2 (hab _ htab)⟩

theorem append (ha : IsField a) (hb : IsField b) : IsField (a ++ b) := by
  rw [IsField, List.mem_append, List.mem_append, not_or, not_or]
  exact ⟨⟨ha.1, hb.1⟩, ha.2, hb.2⟩

theorem flatMap {α : Type} {xs : List α} {f : α → List Char} (h : ∀ x, IsField (f x)) : IsField (xs.flatMap f) := by
  induction xs with
  | nil => exact ⟨List.not_mem_nil, List.not_mem_nil⟩
  | cons x xs ih => exact (h x).append ih

/-- Characters of a class that has neither of the two. -/
theorem of_forall {p : Char → Bool} (hline : p '\n' = false) (htab : p '\t' = false) (h : ∀ c ∈ a, p c = true) : IsField a :=
  ⟨fun hmem => Bool.false_ne_true (hline.symm.trans (h _ hmem)), fun hmem => Bool.false_ne_true (htab.symm.trans (h _ hmem))⟩

end IsField

/-! ## Numbers -/

theorem isField_digitChar : ∀ n < 16, IsField [Nat.digitChar n] := by decide

theorem isField_toDigits {base : Nat} (hbase : 1 < base) (hhex : base ≤ 16) (n : Nat) : IsField (Nat.toDigits base n) := by
  induction n using Nat.strongRecOn with
  | ind n ih =>
    rw [Nat.toDigits_eq_if hbase]
    split
    · next hn => exact isField_digitChar n (Nat.lt_of_lt_of_le hn hhex)
    · next hn =>
      have hlast : n % base < 16 := Nat.lt_of_lt_of_le (Nat.mod_lt n (by omega)) hhex
      exact (ih _ (Nat.div_lt_self (by omega) hbase)).append (isField_digitChar _ hlast)

theorem isField_nat (n : Nat) : IsField (toString n).toList := by
  rw [Nat.toString_eq_ofList_toDigits, String.toList_ofList]
  exact isField_toDigits (by decide) (by decide) n

theorem isField_int (i : Int) : IsField (toString i).toList := by
  rw [Int.toString_eq_repr, Int.repr_eq_if]
  split
  · exact isField_nat _
  · rw [String.toList_append]
    exact IsField.append (by decide) (isField_nat _)

theorem isField_places (k n : Nat) : IsField (Decimal.places k n) := by
  induction k generalizing n with
  | zero => exact isField_digitChar _ (Nat.lt_of_lt_of_le (Nat.mod_lt n (by decide)) (by decide))
  | succ k ih => exact (ih _).append (ih _)

theorem isField_decimal (n : Nat) : IsField (Decimal.ofNat n).toList := by
  rw [Decimal.ofNat, String.toList_ofList, Decimal.digits]
  split
  · decide
  · exact (isField_places _ n).of_subset fun c hc => (List.dropWhile_sublist _).subset hc

theorem isField_ofInt (i : Int) : IsField (Decimal.ofInt i).toList := by
  rw [Decimal.ofInt]
  split
  · rw [String.toList_append]
    exact IsField.append (by decide) (isField_decimal _)
  · exact isField_decimal _

namespace Binary64

theorem isField_scientific (digits : Nat) (power : Int) : IsField (scientific digits power).toList := by
  unfold scientific
  cases htext : Nat.toDigits 10 digits with
  | nil => exact absurd htext Nat.toDigits_ne_nil
  | cons first rest =>
    have hdigits : IsField (first :: rest) := htext ▸ isField_toDigits (by decide) (by decide) digits
    have hfirst : IsField [first] := hdigits.of_subset (by simp)
    have hexponent := isField_int (power + ((first :: rest).length - 1 : Nat))
    dsimp only [List.tail_cons]
    cases hfraction : rest.reverse.dropWhile (· == '0') with
    | nil =>
      simp only [String.toList_append, String.toList_ofList]
      exact (hfirst.append (by decide)).append hexponent
    | cons d ds =>
      have hrest : IsField (d :: ds).reverse := hdigits.of_subset fun c hc => by
        have hmem : c ∈ rest.reverse.dropWhile (· == '0') := hfraction ▸ List.mem_reverse.1 hc
        exact List.mem_cons_of_mem first (List.mem_reverse.1 ((List.dropWhile_sublist _).subset hmem))
      simp only [String.toList_append, String.toList_ofList]
      exact ((hfirst.append (IsField.append (a := ['.']) (by decide) hrest)).append (by decide)).append hexponent

theorem isField_toText (b : Binary64) : IsField b.toText.toList := by
  cases b with
  | infinite negative => cases negative <;> decide
  | finite negative mantissa exponent =>
    rw [toText]
    dsimp only
    rw [String.toList_append]
    refine IsField.append ?_ (isField_scientific _ _)
    cases negative <;> decide

end Binary64

namespace Constant

theorem isField_showRational (q : Rat) : IsField (showRational q).toList := by
  unfold showRational
  dsimp only
  split
  · exact isField_ofInt _
  · split
    · exact Binary64.isField_toText _
    · rw [String.toList_append, String.toList_append]
      exact ((isField_ofInt _).append (by decide)).append (isField_decimal _)

end Constant

namespace Quotation

/-- A character is quoted without line feeds and tabs: these two have escapes of their own. -/
theorem isField_escape (quote c : Char) : IsField (escape quote c) := by
  have hchar : c ≠ '\n' → c ≠ '\t' → IsField [c] := fun hline htab =>
    ⟨fun h => hline (List.mem_singleton.1 h).symm, fun h => htab (List.mem_singleton.1 h).symm⟩
  unfold escape
  by_cases hnul : c = '\x00'
  · rw [if_pos hnul]
    decide
  by_cases htab : c = '\t'
  · rw [if_neg hnul, if_pos htab]
    decide
  by_cases hreturn : c = '\r'
  · rw [if_neg hnul, if_neg htab, if_pos hreturn]
    decide
  by_cases hline : c = '\n'
  · rw [if_neg hnul, if_neg htab, if_neg hreturn, if_pos hline]
    decide
  rw [if_neg hnul, if_neg htab, if_neg hreturn, if_neg hline]
  split
  · exact IsField.append (a := ['\\']) (by decide) (hchar hline htab)
  · split
    · exact hchar hline htab
    · exact (IsField.append (by decide) (isField_toDigits (by decide) (by decide) _)).append (by decide)

theorem isField_ofChar (c : Char) : IsField (ofChar c).toList := by
  rw [ofChar, String.toList_ofList]
  exact IsField.append (a := ['\'']) (by decide) ((isField_escape '\'' c).append (by decide))

theorem isField_escapeByte (b : UInt8) : IsField (escapeByte b) := by
  have hall : ∀ n < 256, IsField (escapeByte (UInt8.ofNat n)) := by decide +kernel
  have hb := hall b.toNat b.toNat_lt
  rwa [UInt8.ofNat_toNat] at hb

theorem isField_ofBytes (bytes : List UInt8) : IsField (ofBytes bytes).toList := by
  rw [ofBytes, String.toList_ofList]
  exact IsField.append (a := ['"']) (by decide) ((IsField.flatMap isField_escapeByte).append (by decide))

end Quotation

theorem Constant.isField_display (value : Constant) : IsField value.display.toList := by
  cases value with
  | bool b => cases b <;> decide
  | int i => exact isField_ofInt i
  | rune value byteEscape =>
    rw [display, showRune]
    by_cases hchar : 0 ≤ value ∧ value.toNat.isValidChar
    · rw [dif_pos hchar]
      exact Quotation.isField_ofChar _
    · rw [dif_neg hchar, String.toList_append, String.toList_append]
      exact (IsField.append (by decide) (isField_ofInt value)).append (by decide)
  | float q => exact isField_showRational q
  | complex re im =>
    simp only [display, String.toList_append]
    have hre := IsField.append (a := ['(']) (by decide) (isField_showRational re)
    exact ((hre.append (by decide)).append (isField_showRational im)).append (by decide)
  | string bytes => exact Quotation.isField_ofBytes bytes
  | error | uninit => decide

/-! ## Names -/

theorem isField_of_emitted {name : String} (h : (TokenKind.ident name).Emitted) : IsField name.toList := by
  obtain ⟨c, cs, hc, hcs, rfl, -⟩ := h
  rw [String.toList_ofList]
  exact .of_forall (by decide +kernel) (by decide +kernel) (List.forall_mem_cons.2 ⟨Identifier.isPart_of_isStart hc, hcs⟩)

/-! ## Tokens -/

theorem isField_location {l : Location} (h : IsField l.path.text.toList) : IsField l.display.toList := by
  rw [Location.display, String.toList_append, String.toList_append]
  exact (h.append (by decide)).append (isField_nat l.line)

theorem isField_keyword : ∀ k ∈ Keyword.all, IsField k.spelling.toList := by decide +kernel

theorem isField_symbol : ∀ s ∈ Symbol.all, IsField s.spelling.toList := by decide +kernel

/-- A token is named in one field, whatever it carries, if a name it carries fits into one. -/
theorem TokenKind.isField_display {kind : TokenKind} (h : ∀ name, kind = .ident name → IsField name.toList) :
    IsField kind.display.toList := by
  have hmarked : ∀ {front word : String}, IsField front.toList → IsField word.toList → IsField (front ++ word ++ "\x60").toList := by
    intro front word hfront hword
    rw [String.toList_append, String.toList_append]
    exact (hfront.append hword).append (by decide)
  cases kind with
  | keyword k => exact hmarked (by decide) (isField_keyword k k.mem_all)
  | operator o => exact hmarked (by decide) (isField_symbol (.operator o) (Symbol.mem_all _))
  | punctuation p => exact hmarked (by decide) (isField_symbol (.punctuation p) (Symbol.mem_all _))
  | ident name => exact hmarked (by decide) (h name rfl)
  | literal value =>
    rw [display, String.toList_append]
    refine IsField.append ?_ (by decide)
    cases value <;> (dsimp only [Constant.kindName]; decide)
  | eof => decide

/-- This is a literal. -/
def TokenKind.isLiteral : TokenKind → Bool
  | literal _ => true
  | _ => false

/-- The fields of the line of a token in a listing. -/
def Token.fields (t : Token) : List (List Char) :=
  match t.kind with
  | .literal value => [t.loc.display.toList, t.kind.display.toList, value.display.toList]
  | kind => [t.loc.display.toList, kind.display.toList]

namespace Token

/-- The line of a token in a listing, without its end. -/
def line (t : Token) : List Char := ['\t'].intercalate t.fields

theorem toList_dumpLine (t : Token) : t.dumpLine.toList = t.line ++ ['\n'] := by
  obtain ⟨kind, loc⟩ := t
  have htab : "\t".toList = ['\t'] := rfl
  have hend : "\n".toList = ['\n'] := rfl
  cases kind <;> simp only [dumpLine, line, fields, List.intercalate_cons_cons, List.intercalate_singleton, String.toList_append,
    List.append_assoc, htab, hend]

theorem length_fields (t : Token) : t.fields.length = if t.kind.isLiteral then 3 else 2 := by
  obtain ⟨kind, loc⟩ := t
  cases kind <;> rfl

theorem fields_ne_nil (t : Token) : t.fields ≠ [] := by
  rw [← List.length_pos_iff, length_fields]
  split <;> decide

theorem toList_dump_cons (t : Token) (ts : List Token) : (dump (t :: ts)).toList = t.line ++ '\n' :: (dump ts).toList := by
  rw [dump, dump, List.map_cons, String.join_cons, String.toList_append, toList_dumpLine, List.append_assoc]
  rfl

end Token

/-! ## Lines -/

section Fields

variable {fields : List (List Char)}

theorem lineFeed_notMem_intercalate (h : ∀ f ∈ fields, IsField f) : '\n' ∉ ['\t'].intercalate fields := by
  induction fields with
  | nil => exact List.not_mem_nil
  | cons f fields ih =>
    obtain ⟨hf, hfields⟩ := List.forall_mem_cons.1 h
    cases fields with
    | nil =>
      rw [List.intercalate_singleton]
      exact hf.1
    | cons f' fields =>
      rw [List.intercalate_cons_cons, List.mem_append, List.mem_append, not_or, not_or]
      exact ⟨⟨hf.1, by decide⟩, ih hfields⟩

theorem count_tab_intercalate (h : ∀ f ∈ fields, IsField f) : (['\t'].intercalate fields).count '\t' = fields.length - 1 := by
  induction fields with
  | nil => rfl
  | cons f fields ih =>
    obtain ⟨hf, hfields⟩ := List.forall_mem_cons.1 h
    have hnone : f.count '\t' = 0 := List.count_eq_zero_of_not_mem hf.2
    cases fields with
    | nil =>
      rw [List.intercalate_singleton]
      exact hnone
    | cons f' fields =>
      rw [List.intercalate_cons_cons, List.count_append, List.count_append, ih hfields, hnone, List.count_singleton_self]
      simp only [List.length_cons]
      omega

end Fields

namespace Token

variable {t : Token} {ts : List Token}

theorem lineFeed_notMem_line (h : ∀ f ∈ t.fields, IsField f) : '\n' ∉ t.line := lineFeed_notMem_intercalate h

theorem count_tab_line (h : ∀ f ∈ t.fields, IsField f) : t.line.count '\t' = if t.kind.isLiteral then 2 else 1 := by
  rw [line, count_tab_intercalate h, length_fields]
  split <;> rfl

theorem splitOn_line (h : ∀ f ∈ t.fields, IsField f) : t.line.splitOn '\t' = t.fields :=
  List.splitOn_intercalate '\t' (fun f hf => (h f hf).2) t.fields_ne_nil

theorem count_lineFeed_dump (h : ∀ t ∈ ts, ∀ f ∈ t.fields, IsField f) : (dump ts).toList.count '\n' = ts.length := by
  induction ts with
  | nil => rfl
  | cons t ts ih =>
    obtain ⟨ht, hts⟩ := List.forall_mem_cons.1 h
    rw [toList_dump_cons, List.count_append, List.count_eq_zero_of_not_mem (lineFeed_notMem_line ht), List.count_cons_self, ih hts,
      Nat.zero_add, List.length_cons]

/-- Cut at its line feeds, a listing gives the lines of its tokens, and nothing behind the last of them. -/
theorem splitOn_dump (h : ∀ t ∈ ts, ∀ f ∈ t.fields, IsField f) : (dump ts).toList.splitOn '\n' = ts.map line ++ [[]] := by
  induction ts with
  | nil => rfl
  | cons t ts ih =>
    obtain ⟨ht, hts⟩ := List.forall_mem_cons.1 h
    rw [toList_dump_cons, List.splitOn_append_cons_self_of_not_mem (lineFeed_notMem_line ht), ih hts]
    rfl

end Token

/-- What stands on the line of a token are fields, if its path and its name fit into one. -/
theorem Token.isField_of_mem_fields {t : Token} (hpath : IsField t.loc.path.text.toList)
    (hname : ∀ name, t.kind = .ident name → IsField name.toList) : ∀ f ∈ t.fields, IsField f := by
  obtain ⟨kind, loc⟩ := t
  have hloc := isField_location hpath
  have hkind := TokenKind.isField_display hname
  cases kind with
  | literal value =>
    exact List.forall_mem_cons.2 ⟨hloc, List.forall_mem_cons.2 ⟨hkind, List.forall_mem_singleton.2 value.isField_display⟩⟩
  | _ => exact List.forall_mem_cons.2 ⟨hloc, List.forall_mem_singleton.2 hkind⟩

theorem isField_of_mem_tokenize {path : SourcePath} (hpath : IsField path.text.toList) (bytes : List UInt8) :
    ∀ t ∈ (tokenize path bytes).1, ∀ f ∈ t.fields, IsField f := by
  intro t ht
  have hloc : t.loc.path = path := (isLineOf_token path bytes t.loc (List.mem_map_of_mem ht)).path_eq
  refine Token.isField_of_mem_fields (hloc ▸ hpath) fun name hname => ?_
  change t ∈ (Feed.tokens path bytes).items.map Noted.value ++ [(Feed.tokens path bytes).last.value] at ht
  rcases List.mem_append.1 ht with ht | ht
  · have hemitted := Feed.forall_kind_ofLexemes path trivial (emits_of_mem_lexemes _) false _ t ht
    rw [hname] at hemitted
    exact isField_of_emitted hemitted
  · rw [List.mem_singleton.1 ht, (Feed.scanned_tokens path bytes).1] at hname
    nomatch hname

/-- The tokens of a source are listed line by line. If the path has no line feed and no tab, there is one line feed for each token, at
the end of its line, and in the line stand one tab, or two if the token is a literal, whatever the names and values of the tokens are.
So whoever cuts the listing into lines at the line feeds, and the lines into fields at the tabs, is given what is shown of each token:
its location, its kind and, of a literal, the value. -/
theorem tokenize_dump (path : SourcePath) (bytes : List UInt8) (hpath : IsField path.text.toList) :
    (Token.dump (tokenize path bytes).1).toList.count '\n' = (tokenize path bytes).1.length
      ∧ (∀ t ∈ (tokenize path bytes).1, ∃ line, t.dumpLine.toList = line ++ ['\n'] ∧ '\n' ∉ line
        ∧ line.count '\t' = if t.kind.isLiteral then 2 else 1)
      ∧ ((Token.dump (tokenize path bytes).1).toList.splitOn '\n').map (·.splitOn '\t')
        = (tokenize path bytes).1.map Token.fields ++ [[[]]] := by
  have hfields := isField_of_mem_tokenize hpath bytes
  refine ⟨Token.count_lineFeed_dump hfields, fun t ht => ⟨t.line, t.toList_dumpLine, ?_, ?_⟩, ?_⟩
  · exact Token.lineFeed_notMem_line (hfields t ht)
  · exact Token.count_tab_line (hfields t ht)
  · rw [Token.splitOn_dump hfields, List.map_append, List.map_map]
    refine congrArg (· ++ _) (List.map_congr_left fun t ht => ?_)
    exact Token.splitOn_line (hfields t ht)

/-- A raw string over two lines with a tab in it, and a rune that is a tab, are shown in one field each. -/
theorem tokenize_dump_rawString :
    IsField "p.go".toList
      ∧ (Token.dump (tokenize ⟨0, "p.go"⟩ (Utf8.encode "x \x60a\n\tb\x60 '\t'".toList)).1).toList.count '\n' = 5
      ∧ ((Token.dump (tokenize ⟨0, "p.go"⟩ (Utf8.encode "x \x60a\n\tb\x60 '\t'".toList)).1).toList.splitOn '\n').map (·.splitOn '\t')
        = [["p.go:1".toList, "identifier \x60x\x60".toList], ["p.go:1".toList, "string literal".toList, "\"a\\n\\tb\"".toList],
          ["p.go:2".toList, "rune literal".toList, "'\\t'".toList], ["p.go:2".toList, "\x60;\x60".toList],
          ["p.go:2".toList, "end of input".toList], [[]]] := by
  have hpath : IsField "p.go".toList := by decide
  obtain ⟨hcount, -, hfields⟩ := tokenize_dump ⟨0, "p.go"⟩ (Utf8.encode "x \x60a\n\tb\x60 '\t'".toList) hpath
  exact ⟨hpath, hcount.trans (by decide +kernel), hfields.trans (by decide +kernel)⟩

end GoSyntax
