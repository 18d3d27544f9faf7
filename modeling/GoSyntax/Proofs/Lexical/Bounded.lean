import GoSyntax.Proofs.InRange.Text
import GoSyntax.Proofs.OnDemand
import GoSyntax.Proofs.Context.Scanning

/-!
# Streams of tokens are bounded

A source has at most one token for each of its characters, and at most one `;` more behind each of them; and the end of the input is its
last token and no other. A reader that takes one token after the other is given these tokens and then the end of the input, as often as it
asks, and when it has come to the end there is nothing left to report.
-/

namespace GoSyntax

/-- One token, and the `;` behind it, for each lexeme; a lexeme takes a character at least. -/
theorem Feed.length_ofLexemes_le (path : SourcePath) (armed : Bool) (text : Feed Place) (ls : List Lexeme) :
    (ofLexemes path armed text ls).items.length ≤ 2 * (ls.map Lexeme.width).sum + if armed then 1 else 0 := by
  induction ls generalizing armed text with
  | nil =>
    cases armed
    · exact Nat.le_refl _
    · exact Nat.le_refl _
  | cons l ls ih =>
    have hwidth : 1 ≤ l.width := Nat.succ_le_succ (Nat.zero_le _)
    have harmed : ∀ b : Bool, (if b then 1 else 0) ≤ 1 := by decide
    rw [List.map_cons, List.sum_cons, ofLexemes]
    dsimp only
    cases htoken : l.token? armed with
    | some kind =>
      have hrest := ih kind.endsStatement (l.take path text).2
      have hone := harmed kind.endsStatement
      dsimp only [cons, List.length_cons]
      omega
    | none =>
      have hrest := ih armed (l.take path text).2
      have hsame : ∀ (due : List Diagnostic) (f : Feed Token), (f.noteFirst due).items.length = f.items.length := fun due f => by
        rw [← List.length_map (f := Noted.value), map_value_noteFirst, List.length_map]
      dsimp only
      rw [hsame]
      omega

theorem Feed.length_tokens_le (path : SourcePath) (bytes : List UInt8) : (tokens path bytes).items.length ≤ 2 * bytes.length := by
  have hle := length_ofLexemes_le path false (ofBytes path bytes) (lexemes (ofBytes path bytes).chars)
  have hchars := length_chars_le path bytes
  rw [sum_width_lexemes] at hle
  rw [tokens]
  simp only [Bool.false_eq_true, if_false] at hle
  omega

/-! ## Taking all tokens -/

namespace Places

variable (tokens : List Token)

theorem answers_consume (k j n : Nat) : answers tokens ⟨k, j⟩ (List.replicate n .consume) = (List.range' k n).map (itemAt tokens) := by
  induction n generalizing k j with
  | zero => rfl
  | succ n ih =>
    rw [List.replicate_succ, List.range'_succ, List.map_cons, ← ih (k + 1) (max j (k + 1))]
    rfl

/-- The tokens in turn, and then the last one again and again. -/
theorem map_itemAt_range (m : Nat) :
    (List.range' 0 (tokens.length + m)).map (itemAt tokens) = tokens.map some ++ List.replicate m tokens.getLast? := by
  have hbehind : (List.range' tokens.length m).map (itemAt tokens) = List.replicate m tokens.getLast? := by
    refine List.eq_replicate_iff.2 ⟨by rw [List.length_map, List.length_range'], fun t ht => ?_⟩
    obtain ⟨i, hi, rfl⟩ := List.mem_map.1 ht
    have hle : tokens.length ≤ i := (List.mem_range'_1.1 hi).1
    rw [itemAt, List.getElem?_eq_none hle]
    rfl
  have hfront : (List.range' 0 tokens.length).map (itemAt tokens) = tokens.map some := by
    refine List.ext_getElem (by simp) fun i hi hi' => ?_
    have hlt : i < tokens.length := by simpa using hi'
    simp [itemAt, List.getElem?_eq_getElem hlt]
  rw [← List.range'_append_1, List.map_append, hfront, Nat.zero_add, hbehind]

theorem record_consume (f : Feed Token) (k n : Nat) : record f ⟨k, k⟩ (List.replicate n .consume) = f.notesBetween k (k + n) := by
  induction n generalizing k with
  | zero => exact (f.notesBetween_self k).symm
  | succ n ih =>
    have hask : (⟨k, k⟩ : Places).ask .consume = ⟨k + 1, k + 1⟩ := congrArg (Places.mk (k + 1)) (Nat.max_eq_right (Nat.le_succ k))
    have hnone : TokenRequest.consume.own = [] := rfl
    rw [List.replicate_succ, record, hask, ih, hnone, List.append_nil, f.notesBetween_append (Nat.le_succ k) (Nat.le_add_right _ _),
      Nat.succ_add_eq_add_succ]

end Places

/-- The tokens of a source are bounded by its bytes. The end of the input is the last of them and no other, and before it there are no
more than two for each byte. Who takes one token after the other from a reader is given these tokens, and then the end of the input
however often it goes on; and when the end has been taken, all that is wrong with the source has been reported, and nothing more is. -/
theorem tokenize_bounded (path : SourcePath) (bytes : List UInt8) : ∃ (ts : List Token) (loc : Location),
    (tokenize path bytes).1 = ts ++ [⟨.eof, loc⟩] ∧ (∀ t ∈ ts, t.kind ≠ .eof) ∧ (tokenize path bytes).1.length ≤ 2 * bytes.length + 1
      ∧ ∀ m, ((TokenReader.ofBytes path bytes).askAll (List.replicate ((tokenize path bytes).1.length + m) .consume)).1
          = (tokenize path bytes).1.map some ++ List.replicate m (some ⟨.eof, loc⟩)
        ∧ ((TokenReader.ofBytes path bytes).askAll (List.replicate ((tokenize path bytes).1.length + m) .consume)).2.log.toList
          = (tokenize path bytes).2 := by
  obtain ⟨hlast, hitems⟩ := Feed.scanned_tokens path bytes
  have hvalues : (tokenize path bytes).1
      = (Feed.tokens path bytes).items.map Noted.value ++ [⟨.eof, (Feed.tokens path bytes).last.value.loc⟩] := by
    rw [← hlast]
    rfl
  have hlength : (tokenize path bytes).1.length = (Feed.tokens path bytes).items.length + 1 := by
    rw [hvalues, List.length_append, List.length_map]
    rfl
  refine ⟨_, _, hvalues, fun t ht heof => ?_, ?_, fun m => ?_⟩
  · have hscanned := hitems t ht
    rw [heof] at hscanned
    exact hscanned
  · have hle := Feed.length_tokens_le path bytes
    omega
  · obtain ⟨hanswers, hlog, -⟩ := TokenReader.askAll_eq_cursor path bytes (List.replicate ((tokenize path bytes).1.length + m) .consume)
    have hend : (tokenize path bytes).1.getLast? = some ⟨.eof, (Feed.tokens path bytes).last.value.loc⟩ := by
      rw [hvalues, List.getLast?_concat]
    refine ⟨?_, ?_⟩
    · rw [hanswers, Places.start, Places.answers_consume, Places.map_itemAt_range, hend]
    · rw [hlog, Places.start, Places.record_consume, Nat.zero_add, Feed.notesBetween_eq_pending _ (by omega)]
      rfl

end GoSyntax
