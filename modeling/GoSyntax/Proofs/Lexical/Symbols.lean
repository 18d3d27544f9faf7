import GoSyntax.Lexeme.Text
import GoSyntax.Proofs.Lexical.Munch
import GoSyntax.Proofs.Lexical.Requests

/-!
# Symbols from a reader of characters

A reader of characters finds a symbol by looking three characters ahead, and then takes as many as the longest spelling has. Wherever
the reader stands and whatever it has been asked before, this is the longest symbol of all that is left of its text. If there is none
the reader has looked ahead, but it answers as before: it has taken nothing.
-/

namespace GoSyntax

/-- Answers depend on how many characters have been taken and not on how far was looked ahead. -/
theorem Places.charAnswers_congr (path : SourcePath) (text : List Char) {p q : Places} (h : p.taken = q.taken)
    (qs : List RuneRequest) : p.charAnswers path text qs = q.charAnswers path text qs := by
  induction qs generalizing p q with
  | nil => rfl
  | cons request qs ih =>
    rw [charAnswers, charAnswers]
    cases request with
    | peek k => simp only [charAnswer, h, ih (p := p.askChar (.peek k)) (q := q.askChar (.peek k)) h]
    | consume => simp only [charAnswer, h, ih (p := p.askChar .consume) (q := q.askChar .consume) (congrArg (· + 1) h)]
    | location => simp only [charAnswer, h, ih (p := p.askChar .location) (q := q.askChar .location) h]

namespace RuneReader

/-- The characters from a place ahead on, so many at most and none past the end, and the reader after it has looked at them. -/
def lookFrom (k : Nat) : Nat → RuneReader → List Char × RuneReader
  | 0, r => ([], r)
  | n + 1, r =>
    match r.peek k with
    | (some c, r) => (c :: (lookFrom (k + 1) n r).1, (lookFrom (k + 1) n r).2)
    | (none, r) => ([], r)

/-- Takes the longest symbol that comes next, as a token at a location. -/
def scanSymbol (loc : Location) (r : RuneReader) : Option Token × RuneReader :=
  let (text, r) := lookFrom 0 Symbol.maxLength r
  match Symbol.longest? text with
  | some (s, n) => (some ⟨s.tokenKind, loc⟩, (consumeBy n r).2)
  | none => (none, r)

variable {u : Undecoded} {p : Places} {r : RuneReader}

theorem Follows.lookFrom (h : Follows u p r) (k n : Nat) :
    (lookFrom k n r).1 = ((Feed.ofUndecoded u).chars.drop (p.taken + k)).take n
      ∧ ∃ reached, Follows u ⟨p.taken, reached⟩ (lookFrom k n r).2 := by
  induction n generalizing k p r with
  | zero => exact ⟨List.take_zero.symm, p.reached, h⟩
  | succ n ih =>
    obtain ⟨hat, hafter⟩ := h.peek k
    rcases hpeek : r.peek k with ⟨c, r'⟩
    rw [hpeek] at hat hafter
    dsimp only at hat hafter
    rw [RuneReader.lookFrom, hpeek]
    cases c with
    | none =>
      rw [List.drop_eq_nil_of_le (List.getElem?_eq_none_iff.1 hat.symm), List.take_nil]
      exact ⟨rfl, _, hafter⟩
    | some c =>
      obtain ⟨hrest, reached, hend⟩ := ih hafter (k + 1)
      obtain ⟨hlt, hc⟩ := List.getElem?_eq_some_iff.1 hat.symm
      refine ⟨?_, reached, hend⟩
      rw [List.drop_eq_getElem_cons hlt, List.take_succ_cons, hc]
      exact congrArg (c :: ·) hrest

theorem Follows.consumeBy (h : Follows u p r) (n : Nat) : ∃ reached, Follows u ⟨p.taken + n, reached⟩ (consumeBy n r).2 := by
  induction n generalizing p r with
  | zero => exact ⟨p.reached, h⟩
  | succ n ih =>
    obtain ⟨reached, hend⟩ := ih h.consume.2
    rw [show p.taken + (n + 1) = p.taken + 1 + n by omega]
    exact ⟨reached, hend⟩

/-- A reader takes the longest symbol of what is left of its text: it gives that symbol, and stands behind it. -/
theorem Follows.scanSymbol (h : Follows u p r) (loc : Location) :
    (scanSymbol loc r).1 = (Symbol.longest? ((Feed.ofUndecoded u).chars.drop p.taken)).map (fun found => ⟨found.1.tokenKind, loc⟩)
      ∧ ∃ reached, Follows u ⟨p.taken + ((Symbol.longest? ((Feed.ofUndecoded u).chars.drop p.taken)).map Prod.snd).getD 0, reached⟩
        (scanSymbol loc r).2 := by
  obtain ⟨htext, reached, hlooked⟩ := h.lookFrom 0 Symbol.maxLength
  have hlongest : Symbol.longest? (RuneReader.lookFrom 0 Symbol.maxLength r).1
      = Symbol.longest? ((Feed.ofUndecoded u).chars.drop p.taken) := by
    rw [htext, Nat.add_zero, Symbol.longest?_take]
  rw [← hlongest]
  cases hfound : Symbol.longest? (RuneReader.lookFrom 0 Symbol.maxLength r).1 with
  | some found =>
    obtain ⟨reached', htaken⟩ := hlooked.consumeBy found.2
    simp only [RuneReader.scanSymbol, hfound]
    exact ⟨rfl, reached', htaken⟩
  | none =>
    simp only [RuneReader.scanSymbol, hfound]
    exact ⟨rfl, reached, hlooked⟩

/-- A lexeme that is a symbol is what a reader would take for it; without a symbol it is one character that belongs nowhere. -/
theorem symbol_eq_longest? (c : Char) (cs : List Char) :
    (Lexeme.symbol c cs).kind = ((Symbol.longest? (c :: cs)).map fun found => .token found.1.tokenKind).getD .stray
      ∧ (Lexeme.symbol c cs).width = ((Symbol.longest? (c :: cs)).map Prod.snd).getD 1 := by
  unfold Lexeme.symbol
  cases hfound : Symbol.longest? (c :: cs) with
  | none => exact ⟨rfl, rfl⟩
  | some found =>
    obtain ⟨s, n⟩ := found
    obtain ⟨rfl, -, -⟩ := Symbol.longest?_eq_some_iff.1 hfound
    exact ⟨rfl, Nat.sub_add_cancel s.length_spelling_pos⟩

/-- The longest spelling wins. What is found in a text is a symbol that the text begins with, and it begins with no symbol of a longer
spelling; nothing is found if it begins with no symbol at all. A reader, whatever it has been asked before, takes just that symbol of
the text that is left: it gives a token of it, and answers to all that follows as if the characters of the spelling had been taken,
or none if there is no symbol. The lexemes of a text are found alike. -/
theorem scanSymbol_maximal :
    (∀ text s n, Symbol.longest? text = some (s, n)
      ↔ s.spelling.length = n ∧ s.spelling.toList <+: text ∧ ¬∃ t : Symbol, n < t.spelling.length ∧ t.spelling.toList <+: text)
      ∧ (∀ text, Symbol.longest? text = none ↔ ¬∃ s : Symbol, s.spelling.toList <+: text)
      ∧ (∀ path bytes qs loc,
        let r := ((ofBytes path bytes).askAll qs).2
        ∃ text, (∀ k, (r.peek k).1 = text[k]?)
          ∧ (scanSymbol loc r).1 = (Symbol.longest? text).map (fun found => ⟨found.1.tokenKind, loc⟩)
          ∧ ∀ qs', ((scanSymbol loc r).2.askAll qs').1
            = ((consumeBy (((Symbol.longest? text).map Prod.snd).getD 0) r).2.askAll qs').1)
      ∧ ∀ c cs, (Lexeme.symbol c cs).kind = ((Symbol.longest? (c :: cs)).map fun found => .token found.1.tokenKind).getD .stray
        ∧ (Lexeme.symbol c cs).width = ((Symbol.longest? (c :: cs)).map Prod.snd).getD 1 := by
  refine ⟨fun text s n => ?_, fun text => ?_, fun path bytes qs loc => ?_, symbol_eq_longest?⟩
  · rw [Symbol.longest?_eq_some_iff, not_exists]
    simp only [not_and, Symbol.Begins]
  · rw [Symbol.longest?_eq_none_iff, not_exists]
    simp only [Symbol.Begins]
  · have hfollows := ((follows_ofBytes path bytes).askAll qs).2
    obtain ⟨htoken, reached, hscanned⟩ := hfollows.scanSymbol loc
    refine ⟨(Feed.ofBytes path bytes).chars.drop (Places.start.askChars qs).taken, fun k => ?_, htoken, fun qs' => ?_⟩
    · rw [(hfollows.peek k).1, List.getElem?_drop]
      rfl
    · obtain ⟨reached', htaken⟩ := hfollows.consumeBy
        (((Symbol.longest? ((Feed.ofBytes path bytes).chars.drop (Places.start.askChars qs).taken)).map Prod.snd).getD 0)
      rw [(hscanned.askAll qs').1, (htaken.askAll qs').1]
      refine Places.charAnswers_congr path _ ?_ qs'
      rfl

end RuneReader

end GoSyntax
