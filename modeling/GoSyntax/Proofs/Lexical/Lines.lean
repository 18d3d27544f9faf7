import Mathlib.Data.List.Basic
import GoSyntax.Proofs.Lexical.Terminators

/-!
# Lines are scanned one by one

What is reported of a source is what is refused of its bytes and what is found in its lexemes, each once, whatever the order in which the
scan meets them. Both are the same for a text in front of a line break as for the text alone, and the same but for the lines for the text
behind it: so are the tokens. Only a comment or a raw string that is not closed takes a line break, and what is behind it, for its own.
-/

namespace GoSyntax

/-! ## All that is found -/

/-- What is found in lexemes that stand behind so many characters of a text, each on the line of the character it is blamed on. -/
def found (path : SourcePath) (text : List Char) : Nat → List Lexeme → List Diagnostic
  | _, [] => []
  | n, l :: ls => l.findings.map (fun f => ⟨f.fault, lineAt path text (n + f.offset)⟩) ++ found path text (n + l.width) ls

namespace Feed

theorem sameValues_look {α : Type} (f : Feed α) (k : Nat) : SameValues (f.look k).2 f := ⟨map_value_look f k, last_value_look f k⟩

end Feed

namespace Lexeme

variable (path : SourcePath) (text : Feed Place)

/-- The diagnostics of findings and the refusals met before them are all that there is, together with those still to be met. -/
theorem lookFindings_perm (fs : List Finding) : ((lookFindings path fs text).1 ++ (lookFindings path fs text).2.pending).Perm
    (text.pending ++ fs.map fun f => ⟨f.fault, ⟨path, (text.peek f.offset).line⟩⟩) := by
  induction fs generalizing text with
  | nil => simp [lookFindings]
  | cons f fs ih =>
    have hpeek : ∀ i, (text.look f.seen).2.peek i = text.peek i := (text.sameValues_look f.seen).peek
    have hrest := ih (text.look f.seen).2
    simp only [hpeek] at hrest
    rw [← text.look_append_pending f.seen]
    simp only [lookFindings, List.map_cons, List.append_assoc, List.cons_append]
    exact ((hrest.cons _).trans List.perm_middle.symm).append_left _

/-- What is met while a lexeme is read and what is still to be met is what there was and what is found in the lexeme. -/
theorem take_perm {l : Lexeme} (hwidth : l.width ≤ l.seen) : ((l.take path text).1 ++ (l.take path text).2.pending).Perm
    (text.pending ++ l.findings.map fun f => ⟨f.fault, ⟨path, (text.peek f.offset).line⟩⟩) := by
  refine List.Perm.trans ?_ (lookFindings_perm path text l.findings)
  simp only [take, List.append_assoc]
  rw [Feed.pending_drop_look _ hwidth, Feed.look_append_pending]

end Lexeme

namespace Feed

variable {path : SourcePath} {whole : Feed Place} {cs : List Char}

theorem pending_ofLexemes_perm (hlines : ∀ i, (⟨path, (whole.peek i).line⟩ : Location) = lineAt path cs i) {ls : List Lexeme}
    (hls : ∀ l ∈ ls, l.width ≤ l.seen) {armed : Bool} {text : Feed Place} {n : Nat} (htext : SameValues text (whole.drop n))
    (hsum : (ls.map Lexeme.width).sum = text.items.length) :
    (ofLexemes path armed text ls).pending.Perm (text.pending ++ found path cs n ls) := by
  induction ls generalizing armed text n with
  | nil =>
    obtain ⟨items, last⟩ := text
    obtain rfl : items = [] := List.length_eq_zero_iff.1 hsum.symm
    cases armed <;> simp [ofLexemes, pending, look, lookItems, found]
  | cons l ls ih =>
    have hrest : (ls.map Lexeme.width).sum = (l.take path text).2.items.length := by
      rw [Lexeme.length_take_snd, ← hsum, List.map_cons, List.sum_cons, Nat.add_sub_cancel_left]
    have ih : ∀ armed, (ofLexemes path armed (l.take path text).2 ls).pending.Perm ((l.take path text).2.pending ++ found path cs (n + l.width) ls) :=
      fun _ => ih (fun l' hl' => hls l' (List.mem_cons_of_mem l hl')) (htext.take path l) hrest
    have hfound : l.findings.map (fun f => (⟨f.fault, ⟨path, (text.peek f.offset).line⟩⟩ : Diagnostic))
        = l.findings.map fun f => ⟨f.fault, lineAt path cs (n + f.offset)⟩ := by
      refine List.map_congr_left fun f _ => ?_
      rw [htext.peek, ← hlines, peek, peek, drop, List.getElem?_drop]
    have htake := Lexeme.take_perm path text (hls l List.mem_cons_self)
    rw [hfound] at htake
    have hsplit : ∃ armed', (ofLexemes path armed text (l :: ls)).pending
        = (l.take path text).1 ++ (ofLexemes path armed' (l.take path text).2 ls).pending := by
      simp only [ofLexemes]
      split
      · exact ⟨_, pending_cons _ _⟩
      · exact ⟨_, pending_noteFirst _ _⟩
    obtain ⟨armed', hsplit⟩ := hsplit
    rw [hsplit, found, ← List.append_assoc]
    refine ((ih armed').append_left _).trans ?_
    rw [← List.append_assoc]
    exact htake.append_right _

/-- What is reported of a source is what is refused of its bytes and what is found in its lexemes. -/
theorem pending_tokens_perm (path : SourcePath) (bytes : List UInt8) : (tokens path bytes).pending.Perm
    ((ofBytes path bytes).pending ++ found path (ofBytes path bytes).chars 0 (lexemes (ofBytes path bytes).chars)) := by
  refine pending_ofLexemes_perm (fun i => congrArg (Location.mk path) (line_peek_ofUndecoded _ i)) (fun l hl => ?_) ⟨rfl, rfl⟩ ?_
  · obtain ⟨ds, hfits⟩ := exists_fits_of_mem_lexemes hl
    exact hfits.width_le
  · rw [sum_width_lexemes]
    exact length_chars_ofUndecoded _

end Feed

/-- What is found in a lexeme is found in the text. -/
theorem exists_mem_found (path : SourcePath) (text : List Char) {ls : List Lexeme} {l : Lexeme} (hl : l ∈ ls) {f : Finding}
    (hf : f ∈ l.findings) (n : Nat) : ∃ d ∈ found path text n ls, d.fault = f.fault := by
  induction ls generalizing n with
  | nil => nomatch hl
  | cons l' ls ih =>
    rw [found]
    rcases List.mem_cons.1 hl with rfl | hl
    · exact ⟨_, List.mem_append_left _ (List.mem_map_of_mem hf), rfl⟩
    · obtain ⟨d, hd, hfault⟩ := ih hl (n + l'.width)
      exact ⟨d, List.mem_append_right _ hd, hfault⟩

/-! ## Where findings are -/

namespace QuotedItem

/-- What is found inside quotes is blamed on a character inside them, or on the one behind. -/
theorem offset_le_of_mem_findings {n : Nat} {items : List QuotedItem} {f : Finding} (h : f ∈ findings n items) :
    f.offset ≤ n + totalWidth items := by
  have htotal : ∀ item items, totalWidth (item :: items) = item.width + totalWidth items := fun _ _ => rfl
  fun_induction findings n items with
  | case1 => cases h
  | case2 n width seen items ih =>
    rw [htotal, QuotedItem.width]
    rcases List.mem_cons.1 h with rfl | h
    · dsimp only
      omega
    · have := ih h
      dsimp only at this ⊢
      omega
  | case3 n item items hitem ih =>
    rw [htotal]
    have := ih h
    omega

end QuotedItem

namespace Lexeme

/-- What is found in a lexeme is blamed on a character of it, or on the one behind. -/
def Blames (l : Lexeme) : Prop := ∀ f ∈ l.findings, f.offset ≤ l.width

theorem Blames.ite {φ : Prop} [Decidable φ] {l l' : Lexeme} (h : l.Blames) (h' : l'.Blames) : (if φ then l else l').Blames := by
  split
  · exact h
  · exact h'

/-- Most is blamed on the lexeme as a whole. -/
theorem blames_of_offset {l : Lexeme} (h : ∀ f ∈ l.findings, f.offset = 0) : l.Blames := fun f hf => by
  rw [h f hf]
  exact Nat.zero_le _

theorem blames_quoted (value : Constant) (items : List QuotedItem) (closed : Bool) {ends : List Finding}
    (hends : ∀ f ∈ ends, f.offset = 0) :
    (Quoted.lexeme value (QuotedItem.totalWidth items) closed (QuotedItem.findings 1 items) ends).Blames := by
  intro f hf
  have hwidth : QuotedItem.totalWidth items + 1
      ≤ (Quoted.lexeme value (QuotedItem.totalWidth items) closed (QuotedItem.findings 1 items) ends).width := by
    cases closed with
    | true => exact Nat.le_succ _
    | false => exact Nat.le_refl _
  rcases List.mem_append.1 hf with hf | hf
  · have := QuotedItem.offset_le_of_mem_findings hf
    omega
  · rw [hends f hf]
    exact Nat.zero_le _

theorem blames_numeral (cs : List Char) : (Numeral.lexeme cs).Blames := by
  refine blames_of_offset fun f hf => ?_
  simp only [Numeral.lexeme] at hf
  rcases List.mem_append.1 hf with hf | hf
  · exact (Numeral.findings_within _ f hf).2
  · grind

theorem offset_of_mem_runeCount {count inside : Nat} {f : Finding} (h : f ∈ Quoted.runeCount count inside) : f.offset = 0 := by
  unfold Quoted.runeCount at h
  split at h
  · rw [List.mem_singleton.1 h]
  · nomatch h
  · rw [List.mem_singleton.1 h]

theorem blames_read (c : Char) (cs : List Char) : (read c cs).Blames := by
  have hnone : ∀ {kind more seen}, (⟨kind, more, seen, []⟩ : Lexeme).Blames := fun f hf => nomatch hf
  unfold read
  refine .ite hnone (.ite hnone (.ite hnone (.ite ?_ (.ite hnone (.ite (blames_numeral _) (.ite ?_ (.ite ?_ (.ite ?_ ?_))))))))
  · unfold blockComment
    split
    · exact hnone
    · exact blames_of_offset (by simp)
  · exact blames_quoted _ _ _ (by grind [Quoted.cutOff])
  · exact blames_of_offset (by grind [Quoted.rawString, Quoted.lexeme, Quoted.cutOff])
  · refine blames_quoted _ _ _ fun f hf => ?_
    split at hf
    · exact offset_of_mem_runeCount hf
    · rw [List.mem_singleton.1 hf]
      rfl
  · exact blames_of_offset (by grind [Lexeme.symbol])

end Lexeme

theorem blames_of_mem_lexemes {text : List Char} : ∀ l ∈ lexemes text, l.Blames := by
  fun_induction lexemes text with
  | case1 => rintro _ ⟨⟩
  | case2 c cs ih =>
    intro l hl
    rcases List.mem_cons.1 hl with rfl | hl
    · exact Lexeme.blames_read c cs
    · exact ih l hl

/-! ## Texts in lines -/

section Lines

variable (path : SourcePath) {text rest : List Char} {n : Nat} {ls : List Lexeme}

theorem lineAt_of_le (h : n ≤ text.length) (rest : List Char) : lineAt path (text ++ rest) n = lineAt path text n := by
  rw [lineAt, lineAt, List.take_append_of_le_length h]

theorem take_behind (text rest : List Char) (n : Nat) :
    (text ++ '\n' :: rest).take (text.length + 1 + n) = text ++ '\n' :: rest.take n := by
  rw [Nat.add_assoc, List.take_length_add_append, Nat.add_comm 1 n, List.take_succ_cons]

/-- A line break counts for the lines behind it, and so do those before it. -/
theorem lineAt_behind (text rest : List Char) (n : Nat) :
    lineAt path (text ++ '\n' :: rest) (text.length + 1 + n) = (lineAt path rest n).down (1 + text.count '\n') := by
  rw [lineAt, take_behind, List.count_append, List.count_cons_self, lineAt, Location.down]
  exact congrArg (Location.mk path) (show 1 + (_ + (_ + 1)) = 1 + _ + (1 + _) by omega)

theorem spans_append (n : Nat) (ls ls' : List Lexeme) : spans n (ls ++ ls') = spans n ls ++ spans (n + (ls.map Lexeme.width).sum) ls' := by
  induction ls generalizing n with
  | nil => rfl
  | cons l ls ih =>
    rw [List.cons_append, spans, spans, List.map_cons, List.sum_cons, ← Nat.add_assoc, ih]
    split <;> rfl

theorem start_le_stop_of_mem_spans {s : Span} (h : s ∈ spans n ls) : s.start ≤ s.stop ∧ s.stop ≤ n + (ls.map Lexeme.width).sum := by
  induction ls generalizing n with
  | nil => nomatch h
  | cons l ls ih =>
    rw [List.map_cons, List.sum_cons, ← Nat.add_assoc]
    rw [spans] at h
    split at h
    · rcases List.mem_cons.1 h with rfl | h
      · exact ⟨Nat.le_add_right _ _, Nat.le_add_right _ _⟩
      · exact ih h
    · exact ih h

/-- A token that is spelled further on in a text. -/
def Span.after (n : Nat) (s : Span) : Span := ⟨s.kind, n + s.start, n + s.stop⟩

theorem spans_after (m n : Nat) (ls : List Lexeme) : spans (m + n) ls = (spans n ls).map (Span.after m) := by
  induction ls generalizing n with
  | nil => rfl
  | cons l ls ih =>
    rw [spans, spans, Nat.add_assoc, ih]
    split <;> rfl

variable {arms : TokenKind → Bool}

/-- The tokens of the text in front of a line break: the line of the last of them ends there. -/
theorem terminated_append {ss ss' : List Span} (hss : ∀ s ∈ ss, s.start ≤ s.stop ∧ s.stop ≤ text.length)
    (hss' : ∀ s ∈ ss', text.length < s.start) :
    terminated path (text ++ '\n' :: rest) arms (ss ++ ss')
      = terminated path text arms ss ++ terminated path (text ++ '\n' :: rest) arms ss' := by
  induction ss with
  | nil => rfl
  | cons s ss ih =>
    obtain ⟨hstart, hstop⟩ := hss s List.mem_cons_self
    have hends : lineEnds (text ++ '\n' :: rest) s.stop (ss ++ ss') = lineEnds text s.stop ss := by
      cases ss with
      | nil =>
        cases ss' with
        | nil => rfl
        | cons s' ss' =>
          have hlt : text.length < s'.start := hss' s' List.mem_cons_self
          refine List.contains_iff_mem.2 (List.mem_iff_getElem?.2 ⟨text.length - s.stop, ?_⟩)
          rw [List.getElem?_drop, Nat.add_sub_cancel' hstop, List.getElem?_take_of_lt hlt, List.getElem?_append_right (Nat.le_refl _),
            Nat.sub_self]
          rfl
      | cons t ss =>
        obtain ⟨htstart, htstop⟩ := hss t (List.mem_cons_of_mem _ List.mem_cons_self)
        rw [List.cons_append, lineEnds, lineEnds, List.take_append_of_le_length (Nat.le_trans htstart htstop)]
    rw [List.cons_append, terminated, terminated, hends, lineAt_of_le path hstop, lineAt_of_le path (Nat.le_trans hstart hstop),
      ih fun t ht => hss t (List.mem_cons_of_mem _ ht)]
    simp only [List.cons_append, List.append_assoc]

/-- The tokens of the text behind a line break are those it has alone, further down. -/
theorem terminated_behind (text rest : List Char) (ss : List Span) :
    terminated path (text ++ '\n' :: rest) arms (ss.map (Span.after (text.length + 1)))
      = (terminated path rest arms ss).map (Token.move (Location.down (1 + text.count '\n'))) := by
  induction ss with
  | nil => rfl
  | cons s ss ih =>
    have hends : lineEnds (text ++ '\n' :: rest) (text.length + 1 + s.stop) (ss.map (Span.after (text.length + 1))) = lineEnds rest s.stop ss := by
      cases ss with
      | nil => rfl
      | cons t ss =>
        have hdrop : ((text ++ '\n' :: rest).take (text.length + 1 + t.start)).drop (text.length + 1 + s.stop)
          = (rest.take t.start).drop s.stop := by
          rw [take_behind, Nat.add_assoc, List.drop_length_add_append, Nat.add_comm 1, List.drop_succ_cons]
        rw [List.map_cons, lineEnds, lineEnds, ← hdrop]
        rfl
    rw [List.map_cons, terminated, terminated, ih]
    simp only [Span.after, hends, lineAt_behind, List.map_cons, List.map_append]
    split <;> rfl

theorem found_append (n : Nat) (ls ls' : List Lexeme) :
    found path text n (ls ++ ls') = found path text n ls ++ found path text (n + (ls.map Lexeme.width).sum) ls' := by
  induction ls generalizing n with
  | nil => rfl
  | cons l ls ih => rw [List.cons_append, found, found, List.map_cons, List.sum_cons, ih, List.append_assoc, Nat.add_assoc]

theorem found_of_le (hls : ∀ l ∈ ls, l.Blames) (hsum : n + (ls.map Lexeme.width).sum ≤ text.length) (rest : List Char) :
    found path (text ++ rest) n ls = found path text n ls := by
  induction ls generalizing n with
  | nil => rfl
  | cons l ls ih =>
    rw [List.map_cons, List.sum_cons, ← Nat.add_assoc] at hsum
    rw [found, found, ih (fun l' hl' => hls l' (List.mem_cons_of_mem _ hl')) hsum]
    congr 1
    refine List.map_congr_left fun f hf => ?_
    have hle := hls l List.mem_cons_self f hf
    rw [lineAt_of_le path (by omega)]

theorem found_behind (text rest : List Char) (n : Nat) (ls : List Lexeme) :
    found path (text ++ '\n' :: rest) (text.length + 1 + n) ls
      = (found path rest n ls).map (Diagnostic.move (Location.down (1 + text.count '\n'))) := by
  induction ls generalizing n with
  | nil => rfl
  | cons l ls ih =>
    rw [found, found, Nat.add_assoc _ n, ih, List.map_append, List.map_map]
    congr 1
    refine List.map_congr_left fun f _ => ?_
    rw [Nat.add_assoc _ n, lineAt_behind]
    rfl

/-- The lexemes of a text, the line break behind it, and the lexemes of what is behind that. -/
theorem lexemes_lines (h : ∀ l ∈ lexemes text, l.Closed) (rest : List Char) :
    lexemes (text ++ '\n' :: rest) = lexemes text ++ ⟨.lineBreak, 0, 1, []⟩ :: lexemes rest := by
  rw [lexemes_append h, lexemes_cons]
  rfl

theorem terminated_lines (h : ∀ l ∈ lexemes text, l.Closed) (rest : List Char) :
    terminated path (text ++ '\n' :: rest) arms (spans 0 (lexemes (text ++ '\n' :: rest)))
      = terminated path text arms (spans 0 (lexemes text))
        ++ (terminated path rest arms (spans 0 (lexemes rest))).map (Token.move (Location.down (1 + text.count '\n'))) := by
  have hbehind : spans (0 + ((lexemes text).map Lexeme.width).sum) (⟨.lineBreak, 0, 1, []⟩ :: lexemes rest)
      = (spans 0 (lexemes rest)).map (Span.after (text.length + 1)) := by
    rw [← spans_after, Nat.zero_add, sum_width_lexemes]
    rfl
  rw [lexemes_lines h, spans_append, hbehind, terminated_append path (fun s hs => ?_) fun s hs => ?_, terminated_behind]
  · have hle := start_le_stop_of_mem_spans hs
    rwa [Nat.zero_add, sum_width_lexemes] at hle
  · obtain ⟨s, -, rfl⟩ := List.mem_map.1 hs
    exact Nat.le_add_right _ _

theorem found_lines (h : ∀ l ∈ lexemes text, l.Closed) (rest : List Char) :
    found path (text ++ '\n' :: rest) 0 (lexemes (text ++ '\n' :: rest))
      = found path text 0 (lexemes text) ++ (found path rest 0 (lexemes rest)).map (Diagnostic.move (Location.down (1 + text.count '\n'))) := by
  have hsum : 0 + ((lexemes text).map Lexeme.width).sum = text.length := by rw [Nat.zero_add, sum_width_lexemes]
  rw [lexemes_lines h, found_append, found_of_le path blames_of_mem_lexemes (Nat.le_of_eq hsum), hsum, ← found_behind]
  rfl

/-! ## Sources in lines -/

/-- A text has as many line breaks as its bytes have line feeds. -/
theorem count_chars_ofUndecoded (u : Undecoded) : (Feed.ofUndecoded u).chars.count '\n' = u.bytes.count 10 := by
  have hline := Feed.line_peek_ofUndecoded u (Feed.ofUndecoded u).items.length
  have hend : (Feed.ofUndecoded u).peek (Feed.ofUndecoded u).items.length = (Feed.ofUndecoded u).last.value := by
    rw [Feed.peek, List.getElem?_eq_none (Nat.le_refl _)]
  rw [hend, Feed.last_ofUndecoded, ← Feed.length_chars_ofUndecoded, List.take_length] at hline
  exact (Nat.add_left_cancel hline).symm

end Lines

/-- The characters of a source and what is refused of it are those of what is in front of a line feed and those of what is behind it. -/
theorem ofBytes_append (path : SourcePath) (a : List UInt8) {b : List UInt8} (hb : (Utf8.next b).2.map Prod.fst ≠ some byteOrderMark) :
    (Feed.ofBytes path (a ++ 10 :: b)).chars = (Feed.ofBytes path a).chars ++ '\n' :: (Feed.ofBytes path b).chars
      ∧ (Feed.ofBytes path (a ++ 10 :: b)).pending
        = (Feed.ofBytes path a).pending ++ (Feed.ofBytes path b).pending.map (Diagnostic.move (Location.down (1 + a.count 10))) := by
  have hbehind : Feed.ofUndecoded ⟨path, b, 1 + a.count 10 + 1, false⟩
      = (Feed.ofBytes path b).relabel (Place.down (1 + a.count 10)) (Diagnostic.move (Location.down (1 + a.count 10))) := by
    have hshift : ∀ line, Location.down (1 + a.count 10) ⟨path, line⟩ = ⟨path, line + (1 + a.count 10)⟩ := fun _ => rfl
    have hmove := Feed.ofUndecoded_move ⟨path, b, 1, true⟩ hshift
    rw [← Feed.ofUndecoded_atStart path hb _ true, Nat.add_comm (1 + a.count 10) 1]
    exact hmove
  have happend := Feed.ofUndecoded_append path a b 1 true
  rw [hbehind] at happend
  rw [Feed.ofBytes, Undecoded.ofBytes, happend]
  constructor
  · rw [Feed.chars, Feed.behind, List.filterMap_append]
    exact congrArg (fun cs => _ ++ '\n' :: cs) (Feed.chars_down _ _ _)
  · rw [Feed.pending_behind, Feed.pending_cons, Feed.pending_relabel, ← List.append_assoc]
    rfl

/-- Lines are scanned one by one. If no comment and no raw string runs to the end of some bytes, then with a line feed and more bytes behind
them they have the tokens they have alone, and the others have theirs, further down; and the same is reported, in whatever order. -/
theorem tokenize_append (path : SourcePath) {a b : List UInt8}
    (ha : ∀ d ∈ (tokenize path a).2, d.fault ≠ .unterminatedComment ∧ d.fault ≠ .unterminatedLiteral "raw string")
    (hb : (Utf8.next b).2.map Prod.fst ≠ some byteOrderMark) :
    (tokenize path (a ++ 10 :: b)).1
        = (tokenize path a).1.dropLast ++ (tokenize path b).1.map (Token.move (Location.down (1 + a.count 10)))
      ∧ (tokenize path (a ++ 10 :: b)).2.Perm
        ((tokenize path a).2 ++ (tokenize path b).2.map (Diagnostic.move (Location.down (1 + a.count 10)))) := by
  obtain ⟨hchars, hrefused⟩ := ofBytes_append path a hb
  have hcount : (Feed.ofBytes path a).chars.count '\n' = a.count 10 := count_chars_ofUndecoded _
  have htokens := Feed.values_tokens path
  have hpending := Feed.pending_tokens_perm path
  have hclosed : ∀ l ∈ lexemes (Feed.ofBytes path a).chars, l.Closed := fun l hl f hf => by
    obtain ⟨d, hd, hfault⟩ := exists_mem_found path (Feed.ofBytes path a).chars hl hf 0
    rw [← hfault]
    exact ha d ((hpending a).mem_iff.2 (List.mem_append_right _ hd))
  constructor
  · change (Feed.tokens path (a ++ 10 :: b)).values = (Feed.tokens path a).values.dropLast ++ (Feed.tokens path b).values.map _
    have hend := lineAt_behind path (Feed.ofBytes path a).chars (Feed.ofBytes path b).chars (Feed.ofBytes path b).chars.length
    rw [Nat.add_assoc, Nat.add_comm 1, ← List.length_cons, ← List.length_append] at hend
    rw [htokens, htokens, htokens, hchars, terminated_lines path hclosed, hend, hcount, List.dropLast_concat, List.map_append, List.append_assoc]
    rfl
  · refine (hpending (a ++ 10 :: b)).trans (List.Perm.trans ?_ ((hpending a).append ((hpending b).map _)).symm)
    rw [hrefused, hchars, found_lines path hclosed, hcount, List.map_append, List.append_assoc, List.append_assoc]
    refine List.Perm.append_left _ ?_
    rw [← List.append_assoc, ← List.append_assoc]
    exact List.perm_append_comm.append_right _

/-- A rune that is not closed, and in it a character of which a byte is missing, do no harm to the numeral in the next line, which has a
digit that is not octal. -/
theorem tokenize_append_rune :
    (∀ d ∈ (tokenize ⟨0, "p.go"⟩ ([0x78, 0x20, 0x27, 0xE2, 0x82])).2,
        d.fault ≠ .unterminatedComment ∧ d.fault ≠ .unterminatedLiteral "raw string")
      ∧ (Utf8.next [0x30, 0x38]).2.map Prod.fst ≠ some byteOrderMark
      ∧ (tokenize ⟨0, "p.go"⟩ ([0x78, 0x20, 0x27, 0xE2, 0x82] ++ 10 :: [0x30, 0x38])).1
        = (tokenize ⟨0, "p.go"⟩ [0x78, 0x20, 0x27, 0xE2, 0x82]).1.dropLast
          ++ (tokenize ⟨0, "p.go"⟩ [0x30, 0x38]).1.map (Token.move (Location.down (1 + [0x78, 0x20, 0x27, 0xE2, 0x82].count 10)))
      ∧ (tokenize ⟨0, "p.go"⟩ ([0x78, 0x20, 0x27, 0xE2, 0x82] ++ 10 :: [0x30, 0x38])).2.Perm
        ((tokenize ⟨0, "p.go"⟩ [0x78, 0x20, 0x27, 0xE2, 0x82]).2
          ++ (tokenize ⟨0, "p.go"⟩ [0x30, 0x38]).2.map
            (Diagnostic.move (Location.down (1 + [0x78, 0x20, 0x27, 0xE2, 0x82].count 10)))) := by
  have hclosed : ∀ d ∈ (tokenize ⟨0, "p.go"⟩ ([0x78, 0x20, 0x27, 0xE2, 0x82])).2,
      d.fault ≠ .unterminatedComment ∧ d.fault ≠ .unterminatedLiteral "raw string" := by decide +kernel
  have hmark : (Utf8.next [0x30, 0x38]).2.map Prod.fst ≠ some byteOrderMark := by decide +kernel
  exact ⟨hclosed, hmark, tokenize_append ⟨0, "p.go"⟩ hclosed hmark⟩

end GoSyntax
