import GoSyntax.Lexeme.Text
import GoSyntax.Proofs.Lexical.Munch

/-!
# A line break keeps lexemes apart

A lexeme that runs to the end of the text depends on what comes behind it. But one that ends before a line break is the same as it would
be at the end of the text, whatever is wrong with it: nothing but a comment or a raw string goes over a line break, and these are cut off
at the end of the text, which is found. So the lexemes of a text in front of a line break and those from the line break on are the lexemes
of the two texts.
-/

namespace GoSyntax

/-- What a list starts with ends before an element that does not satisfy the condition. -/
theorem takeWhile_append_of_neg {α : Type} {p : α → Bool} {a : α} (h : p a = false) (xs ys : List α) :
    (xs ++ a :: ys).takeWhile p = xs.takeWhile p := by
  rw [List.takeWhile_append]
  split
  · next hlength =>
    rw [List.takeWhile_cons_of_neg (by rw [h]; exact Bool.false_ne_true), List.append_nil]
    exact ((List.takeWhile_prefix p).eq_of_length hlength).symm
  · rfl

theorem dropWhile_append_of_neg {α : Type} {p : α → Bool} {a : α} (h : p a = false) (xs ys : List α) :
    (xs ++ a :: ys).dropWhile p = xs.dropWhile p ++ a :: ys := by
  rw [List.dropWhile_append]
  split
  · next hempty =>
    rw [List.dropWhile_cons_of_neg (by rw [h]; exact Bool.false_ne_true), List.isEmpty_iff.1 hempty, List.nil_append]
  · rfl

/-! ## Numerals -/

namespace Numeral

variable (cs ds : List Char)

theorem isDigit_lineBreak : Char.isDigit '\n' = false := by decide

theorem readFraction_append : readFraction (cs ++ '\n' :: ds) = ((readFraction cs).1, (readFraction cs).2 ++ '\n' :: ds) := by
  cases cs with
  | nil => rfl
  | cons c cs =>
    by_cases hc : c = '.'
    · subst hc
      simp only [readFraction, List.cons_append, takeWhile_append_of_neg isDigit_lineBreak, dropWhile_append_of_neg isDigit_lineBreak]
    · simp [readFraction, hc]

theorem readSign_append : readSign (cs ++ '\n' :: ds) = ((readSign cs).1, (readSign cs).2 ++ '\n' :: ds) := by
  cases cs with
  | nil => rfl
  | cons c cs =>
    by_cases hminus : c = '-'
    · subst hminus
      rfl
    · by_cases hplus : c = '+'
      · subst hplus
        rfl
      · simp [readSign, hminus, hplus]

theorem readExponent_append : readExponent (cs ++ '\n' :: ds) = ((readExponent cs).1, (readExponent cs).2 ++ '\n' :: ds) := by
  cases cs with
  | nil => rfl
  | cons c cs =>
    rw [List.cons_append, readExponent, readExponent]
    split
    · simp only [readSign_append, takeWhile_append_of_neg isDigit_lineBreak, dropWhile_append_of_neg isDigit_lineBreak]
    · rfl

theorem readDecimal_append : readDecimal (cs ++ '\n' :: ds) = ((readDecimal cs).1, (readDecimal cs).2 ++ '\n' :: ds) := by
  simp only [readDecimal, takeWhile_append_of_neg isDigit_lineBreak, dropWhile_append_of_neg isDigit_lineBreak, readFraction_append,
    readExponent_append]
  cases (readExponent (readFraction (List.dropWhile Char.isDigit cs)).2).2 with
  | nil => rfl
  | cons c rest =>
    by_cases hc : c = 'i'
    · subst hc
      rfl
    · simp [hc]

/-- A numeral ends before a line break. -/
theorem read_append : read (cs ++ '\n' :: ds) = ((read cs).1, (read cs).2 ++ '\n' :: ds) := by
  have hhex : isDigitOf 16 '\n' = false := by decide
  match cs with
  | [] => exact readDecimal_append [] ds
  | [c] => 
    by_cases hc : c = '0'
    · subst hc
      exact readDecimal_append ['0'] ds
    · simpa [read, hc] using readDecimal_append [c] ds
  | c :: d :: cs =>
    by_cases hzero : c = '0'
    · subst hzero
      by_cases hx : d = 'x'
      · subst hx
        simp only [read, List.cons_append, takeWhile_append_of_neg hhex, dropWhile_append_of_neg hhex]
      · by_cases hX : d = 'X'
        · subst hX
          simp only [read, List.cons_append, takeWhile_append_of_neg hhex, dropWhile_append_of_neg hhex]
        · simpa [read, hx, hX] using readDecimal_append ('0' :: d :: cs) ds
    · simpa [read, hzero] using readDecimal_append (c :: d :: cs) ds

theorem length_takeWhile_add_dropWhile (p : Char → Bool) : (cs.takeWhile p).length + (cs.dropWhile p).length = cs.length := by
  rw [← List.length_append, List.takeWhile_append_dropWhile]

theorem width_readFraction : fractionWidth (readFraction cs).1 + (readFraction cs).2.length = cs.length := by
  unfold readFraction
  split
  · next cs =>
    have hlength := length_takeWhile_add_dropWhile cs Char.isDigit
    simp only [fractionWidth, List.length_cons]
    omega
  · exact Nat.zero_add _

theorem width_readSign : (readSign cs).1.toList.length + (readSign cs).2.length = cs.length := by
  unfold readSign
  split
  · exact Nat.add_comm _ _
  · exact Nat.add_comm _ _
  · exact Nat.zero_add _

theorem width_readExponent : exponentWidth (readExponent cs).1 + (readExponent cs).2.length = cs.length := by
  unfold readExponent
  split
  · next c cs =>
    split
    · have hsign := width_readSign cs
      have hlength := length_takeWhile_add_dropWhile (readSign cs).2 Char.isDigit
      simp only [exponentWidth, List.length_cons]
      omega
    · exact Nat.zero_add _
  · rfl

theorem width_readDecimal : (readDecimal cs).1.width + (readDecimal cs).2.length = cs.length := by
  have hwhole := length_takeWhile_add_dropWhile cs Char.isDigit
  have hfraction := width_readFraction (cs.dropWhile Char.isDigit)
  have hexponent := width_readExponent (readFraction (cs.dropWhile Char.isDigit)).2
  simp only [readDecimal]
  split
  · next rest hrest =>
    rw [hrest, List.length_cons] at hexponent
    simp only [width, if_true]
    omega
  · simp only [width, Bool.false_eq_true, if_false]
    omega

/-- A numeral and what follows are the whole text. -/
theorem width_read : (read cs).1.width + (read cs).2.length = cs.length := by
  unfold read
  split
  · next cs =>
    have hlength := length_takeWhile_add_dropWhile cs (isDigitOf 16)
    simp only [width, List.length_cons]
    omega
  · next cs =>
    have hlength := length_takeWhile_add_dropWhile cs (isDigitOf 16)
    simp only [width, List.length_cons]
    omega
  · exact width_readDecimal cs

/-- What is wrong with a numeral is blamed on its start, and found at its end at the latest. -/
theorem findings_within (n : Numeral) : ∀ f ∈ n.findings, f.seen ≤ n.width + 1 ∧ f.offset = 0 := by
  intro f hf
  unfold findings at hf
  grind

theorem lexeme_append : lexeme (cs ++ '\n' :: ds) = lexeme cs := by
  have hpart : Identifier.isPart '\n' = false := by decide +kernel
  simp only [lexeme, read_append, takeWhile_append_of_neg hpart]

end Numeral

/-! ## Quoted literals -/

theorem Escape.readForm_append (form : Form) (skipped : Nat) (cs ds : List Char) (h : isDigitOf form.base '\n' = false) :
    readForm form skipped (cs ++ '\n' :: ds) = readForm form skipped cs := by
  have hdigits : ((cs ++ '\n' :: ds).take form.count).takeWhile (isDigitOf form.base)
      = (cs.take form.count).takeWhile (isDigitOf form.base) := by
    rw [List.take_append]
    cases form.count - cs.length with
    | zero => rw [List.take_zero, List.append_nil]
    | succ n => rw [List.take_succ_cons, takeWhile_append_of_neg h]
  simp only [readForm, hdigits]

theorem Escape.read_append (quote : Char) (cs ds : List Char) : read quote (cs ++ '\n' :: ds) = read quote cs := by
  cases cs with
  | nil => rfl
  | cons c cs =>
    rw [List.cons_append, read, read]
    have hoctal := readForm_append (byteForm 3 8) 0 (c :: cs) ds (by decide)
    rw [List.cons_append] at hoctal
    rw [hoctal, readForm_append (byteForm 2 16) 1 cs ds (by decide), readForm_append (charForm 4) 1 cs ds (by decide),
      readForm_append (charForm 8) 1 cs ds (by decide)]

theorem Escape.width_readForm_le (form : Form) (skipped : Nat) (cs : List Char) :
    (readForm form skipped cs).width ≤ skipped + cs.length := by
  have hlength := ((List.takeWhile_sublist (isDigitOf form.base)).trans (List.take_sublist form.count cs)).length_le
  simp only [readForm]
  split
  · next hcount =>
    rw [hcount] at hlength
    exact Nat.add_le_add_left hlength skipped
  · exact Nat.add_le_add_left hlength skipped

theorem Escape.width_read_le (quote : Char) (cs : List Char) : (read quote cs).width ≤ cs.length := by
  cases cs with
  | nil => exact Nat.le_refl _
  | cons c cs =>
    have hone : 1 ≤ (c :: cs).length := Nat.succ_le_succ (Nat.zero_le _)
    have hoctal := width_readForm_le (byteForm 3 8) 0 (c :: cs)
    have hrest : ∀ form, (readForm form 1 cs).width ≤ (c :: cs).length := fun form => by
      rw [List.length_cons, Nat.add_comm]
      exact width_readForm_le form 1 cs
    rw [Nat.zero_add] at hoctal
    rw [read]
    split
    · exact Nat.zero_le _
    · split
      · exact hone
      · split
        · exact hoctal
        · split
          · exact hrest _
          · split
            · exact hrest _
            · split
              · exact hrest _
              · exact hone

namespace QuotedItem

/-- What is inside quotes ends before a line break. -/
theorem read_append (quote : Char) (cs ds : List Char) : read quote (cs ++ '\n' :: ds) = read quote cs := by
  fun_induction read quote cs with
  | case1 => rw [List.nil_append, read, if_pos rfl]
  | case2 cs => rw [List.cons_append, read, if_pos rfl]
  | case3 cs hquote => rw [List.cons_append, read, if_neg hquote, if_pos rfl]
  | case4 cs e items closed hitems hbackslash hquote ih =>
    have hdrop : (cs ++ '\n' :: ds).drop e.width = cs.drop e.width ++ '\n' :: ds :=
      List.drop_append_of_le_length (Escape.width_read_le quote cs)
    simp only [List.cons_append, read, if_neg hbackslash, if_neg hquote, if_true, Escape.read_append]
    rw [hdrop, ih, hitems]
  | case5 c cs hbreak hquote hbackslash items closed hitems ih =>
    simp only [List.cons_append, read, if_neg hbreak, if_neg hquote, if_neg hbackslash]
    rw [ih, hitems]

theorem totalWidth_read_le (quote : Char) (cs : List Char) :
    totalWidth (read quote cs).1 + (if (read quote cs).2 then 1 else 0) ≤ cs.length := by
  fun_induction read quote cs with
  | case1 => exact Nat.le_refl _
  | case2 cs => exact Nat.zero_le _
  | case3 cs hquote => exact Nat.succ_le_succ (Nat.zero_le _)
  | case4 cs e items closed hitems hbackslash hquote ih =>
    have hwidth : e.width ≤ cs.length := Escape.width_read_le quote cs
    have htotal : totalWidth (escape e :: items) = e.width + 1 + totalWidth items := rfl
    rw [hitems, List.length_drop] at ih
    rw [htotal, List.length_cons]
    dsimp only at ih ⊢
    omega
  | case5 c cs hbreak hquote hbackslash items closed hitems ih =>
    have htotal : totalWidth (plain c :: items) = 1 + totalWidth items := rfl
    rw [hitems] at ih
    rw [htotal, List.length_cons]
    dsimp only at ih ⊢
    omega

end QuotedItem

/-! ## Lexemes -/

namespace Lexeme

/-- A comment or a raw string is closed; what else may be wrong with a lexeme does not let it run over a line break. -/
def Closed (l : Lexeme) : Prop := ∀ f ∈ l.findings, f.fault ≠ .unterminatedComment ∧ f.fault ≠ .unterminatedLiteral "raw string"

theorem closed_of_findings {l : Lexeme} (h : l.findings = []) : l.Closed := fun f hf => by
  rw [h] at hf
  nomatch hf

variable (c : Char) (cs ds : List Char)

theorem blanks_append : blanks (cs ++ '\n' :: ds) = blanks cs := by
  rw [blanks, blanks, takeWhile_append_of_neg (by decide)]

theorem lineComment_append : lineComment (cs ++ '\n' :: ds) = lineComment cs := by
  rw [lineComment, lineComment, takeWhile_append_of_neg (by decide)]

theorem word_append : word c (cs ++ '\n' :: ds) = word c cs := by
  rw [word, word, takeWhile_append_of_neg (by decide +kernel)]

theorem toCommentEnd?_append {n : Nat} (h : toCommentEnd? cs = some n) : n ≤ cs.length ∧ toCommentEnd? (cs ++ ds) = some n := by
  fun_induction toCommentEnd? cs generalizing n with
  | case1 cs =>
    obtain rfl := Option.some.inj h
    exact ⟨Nat.succ_le_succ (Nat.succ_le_succ (Nat.zero_le _)), rfl⟩
  | case2 c cs hopen ih =>
    obtain ⟨m, hm, rfl⟩ := Option.map_eq_some_iff.1 h
    obtain ⟨hle, happend⟩ := ih hm
    refine ⟨Nat.succ_le_succ hle, ?_⟩
    rw [List.cons_append, toCommentEnd?, happend]
    · rfl
    · intro rest hc hrest
      cases cs with
      | nil => nomatch hm
      | cons d cs =>
        obtain ⟨rfl, rfl⟩ := List.cons.inj hrest
        exact hopen _ hc rfl
  | case3 => nomatch h

/-- A comment that is closed is closed in front of what comes behind it. -/
theorem blockComment_append (h : (blockComment cs).Closed) : blockComment (cs ++ ds) = blockComment cs := by
  unfold blockComment at h ⊢
  cases hend : toCommentEnd? cs with
  | none =>
    rw [hend] at h
    exact absurd rfl (h _ List.mem_cons_self).1
  | some n =>
    obtain ⟨hle, happend⟩ := toCommentEnd?_append cs ds hend
    rw [happend]
    simp only [List.take_append_of_le_length hle]

theorem string_append : Quoted.string (cs ++ '\n' :: ds) = Quoted.string cs := by
  rw [Quoted.string, Quoted.string, QuotedItem.read_append]

theorem rune_append : Quoted.rune (cs ++ '\n' :: ds) = Quoted.rune cs := by
  rw [Quoted.rune, Quoted.rune, QuotedItem.read_append]

/-- A raw string that is closed is closed in front of what comes behind it. -/
theorem rawString_append (h : (Quoted.rawString cs).Closed) : Quoted.rawString (cs ++ ds) = Quoted.rawString cs := by
  have hclosed : (cs.takeWhile (· != '\x60')).length < cs.length := Decidable.byContradiction fun hopen => by
    simp [Closed, Quoted.rawString, Quoted.lexeme, Quoted.cutOff, hopen] at h
  have hcontent : (cs ++ ds).takeWhile (· != '\x60') = cs.takeWhile (· != '\x60') := by
    rw [List.takeWhile_append, if_neg (Nat.ne_of_lt hclosed)]
  have hlt : (cs.takeWhile (· != '\x60')).length < (cs ++ ds).length := by
    rw [List.length_append]
    omega
  simp only [Quoted.rawString, hcontent, hclosed, hlt]

/-- A symbol ends before a character that stands in no spelling. -/
theorem symbol_append {a : Char} (ha : ∀ s ∈ Symbol.all, a ∉ s.spelling.toList) : symbol c (cs ++ a :: ds) = symbol c cs := by
  rw [symbol, symbol, ← List.cons_append, Symbol.longest?_append_cons ha]

/-- The first lexeme of a text ends before a line break, if it does not run to the end of the text. -/
theorem read_append (h : (read c cs).Closed) : read c (cs ++ '\n' :: ds) = read c cs := by
  have hdigit : startsWithDigit (cs ++ '\n' :: ds) = startsWithDigit cs := by
    cases cs with
    | nil => rfl
    | cons d cs => rfl
  have hhead : ∀ a, a ≠ '\n' → ((cs ++ '\n' :: ds).head? == some a) = (cs.head? == some a) := fun a ha => by
    cases cs with
    | nil => exact beq_eq_false_iff_ne.2 fun heq => ha (Option.some.inj heq).symm
    | cons d cs => rfl
  have htail : (cs.head? == some '/') = true ∨ (cs.head? == some '*') = true → (cs ++ '\n' :: ds).tail = cs.tail ++ '\n' :: ds := by
    cases cs with
    | nil => exact fun h => h.elim nofun nofun
    | cons d cs => exact fun _ => rfl
  unfold read at h ⊢
  rw [hhead _ (by decide), hhead _ (by decide), hdigit, blanks_append, word_append, string_append, rune_append,
    symbol_append _ _ _ (by decide +kernel), ← List.cons_append, Numeral.lexeme_append]
  refine ite_congr rfl (fun _ => rfl) fun hbreak => ite_congr rfl (fun _ => rfl) fun hblank => ?_
  rw [if_neg hbreak, if_neg hblank] at h
  refine ite_congr rfl (fun hline => ?_) fun hline => ite_congr rfl (fun hblock => ?_) fun hblock => ?_
  · rw [htail (.inl (Bool.and_eq_true_iff.1 hline).2), lineComment_append]
  · rw [if_neg hline, if_pos hblock] at h
    rw [htail (.inr (Bool.and_eq_true_iff.1 hblock).2), blockComment_append _ _ h]
  rw [if_neg hline, if_neg hblock] at h
  refine ite_congr rfl (fun _ => rfl) fun hword => ite_congr rfl (fun _ => rfl) fun hnumeral => ?_
  refine ite_congr rfl (fun _ => rfl) fun hstring => ite_congr rfl (fun hraw => ?_) fun _ => rfl
  rw [if_neg hword, if_neg hnumeral, if_neg hstring, if_pos hraw] at h
  exact rawString_append _ _ h

/-! ## How far a lexeme looks -/

/-- A lexeme lies within its text, whose first character it takes, and is looked at as a whole; if nothing is wrong with it, at most two
characters behind it are looked at. -/
structure Fits (l : Lexeme) (cs : List Char) : Prop where
  more_le : l.more ≤ cs.length
  width_le : l.width ≤ l.seen
  seen_le : l.findings = [] → l.seen ≤ l.width + 2

variable {c cs}

theorem Fits.ite {φ : Prop} [Decidable φ] {l l' : Lexeme} (h : φ → l.Fits cs) (h' : ¬φ → l'.Fits cs) : (if φ then l else l').Fits cs := by
  split
  · next hφ => exact h hφ
  · next hφ => exact h' hφ

theorem length_takeWhile_le (p : Char → Bool) (cs : List Char) : (cs.takeWhile p).length ≤ cs.length :=
  (List.takeWhile_sublist p).length_le

theorem fits_blockComment (d : Char) : (blockComment cs).Fits (d :: cs) := by
  unfold blockComment
  cases hend : toCommentEnd? cs with
  | none => exact ⟨Nat.le_refl _, Nat.le_succ _, nofun⟩
  | some n => exact ⟨Nat.succ_le_succ (toCommentEnd?_append cs [] hend).1, Nat.le_refl _, fun _ => Nat.le_add_right _ _⟩

theorem fits_quoted (value : Constant) {inside : Nat} (closed : Bool) (within ends : List Finding)
    (h : inside + (if closed then 1 else 0) ≤ cs.length) : (Quoted.lexeme value inside closed within ends).Fits cs := by
  cases closed with
  | true => exact ⟨h, Nat.le_refl _, fun _ => Nat.le_add_right _ _⟩
  | false => exact ⟨h, Nat.le_succ _, fun _ => Nat.le_succ _⟩

theorem fits_rawString : (Quoted.rawString cs).Fits cs := by
  have hlength := length_takeWhile_le (· != '\x60') cs
  refine fits_quoted _ _ _ _ ?_
  split
  · next hclosed => exact of_decide_eq_true hclosed
  · exact hlength

theorem fits_numeral : (Numeral.lexeme (c :: cs)).Fits cs := by
  have hread := Numeral.width_read (c :: cs)
  have hextra := length_takeWhile_le Identifier.isPart (Numeral.read (c :: cs)).2
  rw [List.length_cons] at hread
  refine ⟨?_, ?_, fun _ => ?_⟩
  all_goals
    simp only [Numeral.lexeme, Lexeme.width]
    omega

theorem fits_symbol : (symbol c cs).Fits cs := by
  unfold symbol
  cases hlongest : Symbol.longest? (c :: cs) with
  | none => exact ⟨Nat.zero_le _, Nat.le_add_left 1 2, nofun⟩
  | some found =>
    obtain ⟨s, length⟩ := found
    obtain ⟨rfl, hbegins, -⟩ := Symbol.longest?_eq_some_iff.1 hlongest
    have hpos := s.length_spelling_pos
    have hwithin : s.spelling.length ≤ 3 := s.length_spelling_le
    have hlength := hbegins.length_le
    rw [List.length_cons] at hlength
    refine ⟨?_, ?_, fun _ => ?_⟩
    all_goals
      simp only [Lexeme.width, Symbol.maxLength]
      omega

/-- The first lexeme of a text fits it. -/
theorem fits_read : (read c cs).Fits cs := by
  have hline : (c = '/' && cs.head? == some '/') = true → (lineComment cs.tail).Fits cs := fun h => by
    obtain ⟨cs, rfl⟩ := List.head?_eq_some_iff.1 (eq_of_beq (Bool.and_eq_true_iff.1 h).2)
    exact ⟨Nat.succ_le_succ (length_takeWhile_le _ cs), Nat.le_succ _, fun _ => Nat.le_succ _⟩
  have hblock : (c = '/' && cs.head? == some '*') = true → (blockComment cs.tail).Fits cs := fun h => by
    obtain ⟨cs, rfl⟩ := List.head?_eq_some_iff.1 (eq_of_beq (Bool.and_eq_true_iff.1 h).2)
    exact fits_blockComment _
  unfold read
  refine .ite (fun _ => ⟨Nat.zero_le _, Nat.le_refl _, fun _ => Nat.le_add_right _ _⟩) fun _ => .ite (fun _ => ?_) fun _ =>
    .ite hline fun _ =>
    .ite hblock fun _ => .ite (fun _ => ?_) fun _ => .ite (fun _ => fits_numeral) fun _ => ?_
  · exact ⟨length_takeWhile_le _ cs, Nat.le_refl _, fun _ => Nat.le_add_right _ _⟩
  · exact ⟨length_takeWhile_le _ cs, Nat.le_succ _, fun _ => Nat.le_succ _⟩
  exact .ite (fun _ => fits_quoted _ _ _ _ (QuotedItem.totalWidth_read_le _ cs)) fun _ => .ite (fun _ => fits_rawString) fun _ =>
    .ite (fun _ => fits_quoted _ _ _ _ (QuotedItem.totalWidth_read_le _ cs)) fun _ => fits_symbol

end Lexeme

/-! ## Texts -/

/-- If no lexeme of a text runs to its end, the lexemes of what stands behind it in the next line come after them. -/
theorem lexemes_append {cs : List Char} (h : ∀ l ∈ lexemes cs, l.Closed) (ds : List Char) :
    lexemes (cs ++ '\n' :: ds) = lexemes cs ++ lexemes ('\n' :: ds) := by
  fun_induction lexemes cs with
  | case1 => rfl
  | case2 c cs ih =>
    have hread := Lexeme.read_append c cs ds (h _ List.mem_cons_self)
    rw [List.cons_append, lexemes_cons, hread, List.drop_append_of_le_length Lexeme.fits_read.more_le,
      ih fun l hl => h l (List.mem_cons_of_mem _ hl), List.cons_append]

end GoSyntax
