import Mathlib.Algebra.GroupWithZero.Nat
import GoSyntax.Token.Stream
import GoSyntax.Proofs.Context.Characters
import GoSyntax.Proofs.Context.Lexemes

/-!
# A line break keeps tokens apart

If nothing is wrong with the text in front of a line break, the tokens of a source are those in front of it and those behind it: a `;` that
ends the first text ends its last line as well. The scan looks at most two characters ahead, so what is wrong behind the line break may be
met a token early, but it is the same.
-/

namespace GoSyntax

/-- The tokens of bytes that stand somewhere in a source. -/
def Undecoded.tokens (u : Undecoded) : Feed Token :=
  .ofLexemes u.path false (.ofUndecoded u) (lexemes (Feed.ofUndecoded u).chars)

namespace Lexeme

/-! ## One lexeme -/

/-- How far the findings of a lexeme look. -/
def reach (found : List Finding) : Nat := found.foldr (fun f n => max f.seen n) 0

variable (path : SourcePath) (l : Lexeme) (text : Feed Place)

theorem lookFindings_snd (found : List Finding) : (lookFindings path found text).2 = (text.look (reach found)).2 := by
  induction found generalizing text with
  | nil => rfl
  | cons f found ih =>
    rw [lookFindings]
    exact (ih (text.look f.seen).2).trans (text.look_look_eq_max _ _)

/-- The text behind a lexeme, which has been looked at as far as the lexeme looks. -/
theorem take_snd : (l.take path text).2 = (text.look (max (reach l.findings) l.seen)).2.drop l.width := by
  rw [take]
  dsimp only
  rw [lookFindings_snd, Feed.look_look_eq_max]

theorem length_take_snd : (l.take path text).2.items.length = text.items.length - l.width := by
  have hlook : ∀ k, (text.look k).2.items.length = text.items.length := fun k => by
    rw [← List.length_map, Feed.map_value_look, List.length_map]
  rw [take_snd, Feed.drop, List.length_drop, hlook]

variable {l}

theorem take_of_findings (h : l.findings = []) : l.take path text = ((text.look l.seen).1, (text.look l.seen).2.drop l.width) := by
  rw [take, h]
  rfl

variable {path text}

/-- Where there is nothing to report, nothing is found and nothing is refused. -/
theorem take_eq_nil_iff (hwidth : l.width ≤ l.seen) :
    (l.take path text).1 = [] ∧ (l.take path text).2.pending = [] ↔ text.pending = [] ∧ l.findings = [] := by
  constructor
  · rintro ⟨hdue, hrest⟩
    have hnone : l.findings = [] := by
      cases hfound : l.findings with
      | nil => rfl
      | cons f found =>
        rw [take, hfound, lookFindings] at hdue
        dsimp only at hdue
        simp at hdue
    rw [take_of_findings path text hnone] at hdue hrest
    rw [Feed.pending_drop_look text hwidth] at hrest
    rw [← text.look_append_pending l.seen, hrest, hdue]
    exact ⟨rfl, hnone⟩
  · rintro ⟨hpending, hnone⟩
    rw [take_of_findings path text hnone, Feed.pending_drop_look text hwidth, text.look_of_pending hpending]
    exact ⟨rfl, hpending⟩

end Lexeme

namespace Feed

variable (path : SourcePath)

/-! ## A text without a diagnostic -/

theorem pending_ofLexemes {armed : Bool} {text : Feed Place} {ls : List Lexeme} (hls : ∀ l ∈ ls, l.width ≤ l.seen)
    (hsum : (ls.map Lexeme.width).sum = text.items.length) :
    (ofLexemes path armed text ls).pending = [] ↔ text.pending = [] ∧ ∀ l ∈ ls, l.findings = [] := by
  induction ls generalizing armed text with
  | nil =>
    obtain ⟨items, last⟩ := text
    obtain rfl : items = [] := List.length_eq_zero_iff.1 hsum.symm
    have hdue : (ofLexemes path armed ⟨[], last⟩ []).pending = last.notes := by cases armed <;> simp [ofLexemes, pending, look, lookItems]
    rw [hdue]
    exact (and_iff_left fun _ hl => absurd hl List.not_mem_nil).symm
  | cons l ls ih =>
    have hrest : (ls.map Lexeme.width).sum = (l.take path text).2.items.length := by
      rw [Lexeme.length_take_snd, ← hsum, List.map_cons, List.sum_cons, Nat.add_sub_cancel_left]
    have ih : ∀ armed, (ofLexemes path armed (l.take path text).2 ls).pending = []
        ↔ (l.take path text).2.pending = [] ∧ ∀ l ∈ ls, l.findings = [] :=
          fun _ => ih (fun l' hl' => hls l' (List.mem_cons_of_mem l hl')) hrest
    have hsplit : (ofLexemes path armed text (l :: ls)).pending = [] ↔ (l.take path text).1 = []
        ∧ ((l.take path text).2.pending = [] ∧ ∀ l ∈ ls, l.findings = []) := by
      simp only [ofLexemes]
      split
      · rw [pending_cons, List.append_eq_nil_iff, ih]
      · rw [pending_noteFirst, List.append_eq_nil_iff, ih]
    rw [hsplit, ← and_assoc, Lexeme.take_eq_nil_iff (hls l List.mem_cons_self), and_assoc, List.forall_mem_cons]

/-! ## Texts in front of one another -/

variable {path}

/-- Who looks at the first token meets what is due to a look at the first character. -/
theorem look_ofLexemes {armed : Bool} {text : Feed Place} {ls : List Lexeme} (hls : ∀ l ∈ ls, 0 < l.seen) :
    ((ofLexemes path armed (text.look 1).2 ls).look 1).2 = ((ofLexemes path armed text ls).look 1).2 := by
  have hline : (text.look 1).2.peek 0 = text.peek 0 := by
    obtain ⟨items, last⟩ := text
    cases items <;> rfl
  cases ls with
  | nil => cases armed <;> simp only [ofLexemes, hline] <;> rfl
  | cons l ls =>
    have hseen := hls l List.mem_cons_self
    have hrest : (l.take path (text.look 1).2).2 = (l.take path text).2 := by
      rw [Lexeme.take_snd, Lexeme.take_snd, text.look_look_eq_max, Nat.max_eq_right (by omega)]
    simp only [ofLexemes, hline, hrest]
    split
    · rfl
    · rw [look_noteFirst, look_noteFirst]

variable (path)

/-- A line break in front of a text: a `;` is put there if one is due, and what is behind it is scanned from its start. -/
theorem exists_ofLexemes_cons_lineBreak (armed : Bool) (line : Nat) (text : Feed Place) (ls : List Lexeme) {j : Nat} (hj : j ≤ 2) :
    ∃ ns due k, k ≤ 1 ∧ ofLexemes path armed (((text.cons ⟨⟨some '\n', line⟩, []⟩).look j).2) (⟨.lineBreak, 0, 1, []⟩ :: ls)
          = ((ofLexemes path false (text.look k).2 ls).noteFirst due).behind ns
      ∧ ns.map Noted.value = if armed then [⟨.punctuation .semicolon, ⟨path, line⟩⟩] else [] := by
  generalize htext : ((text.cons ⟨⟨some '\n', line⟩, []⟩).look j).2 = T
  have hline : T.peek 0 = ⟨some '\n', line⟩ := by
    subst htext
    cases j <;> rfl
  have hrest : (Lexeme.take path ⟨.lineBreak, 0, 1, []⟩ T).2 = (text.look (j - 1)).2 := by
    rw [Lexeme.take_of_findings path T rfl, ← htext]
    change ((((text.cons _).look j).2).look 1).2.drop 1 = _
    rw [look_look_eq_max]
    cases j with
    | zero => rfl
    | succ j =>
      rw [Nat.max_eq_left (Nat.le_add_left 1 j)]
      rfl
  cases armed with
  | true =>
    refine ⟨[⟨⟨.punctuation .semicolon, ⟨path, line⟩⟩, (Lexeme.take path ⟨.lineBreak, 0, 1, []⟩ T).1⟩], [], j - 1, by omega, ?_, rfl⟩
    change (ofLexemes path false (Lexeme.take path ⟨.lineBreak, 0, 1, []⟩ T).2 ls).cons ⟨⟨_, ⟨path, (T.peek 0).line⟩⟩, _⟩ = _
    rw [hrest, hline, noteFirst_nil]
    rfl
  | false =>
    refine ⟨[], (Lexeme.take path ⟨.lineBreak, 0, 1, []⟩ T).1, j - 1, by omega, ?_, rfl⟩
    change (ofLexemes path false (Lexeme.take path ⟨.lineBreak, 0, 1, []⟩ T).2 ls).noteFirst _ = _
    rw [hrest]
    rfl

/-- A lexeme that fits into a text without a diagnostic is taken from it in front of any other text, at whose start it may look. -/
theorem take_behind {xs : List (Noted Place)} (hxs : ∀ n ∈ xs, n.notes = []) {l : Lexeme} (hfound : l.findings = [])
    (hle : l.width ≤ xs.length) (text : Feed Place) (j : Nat) :
    (l.take path ((text.look j).2.behind xs)).2 = (text.look (max j (l.seen - xs.length))).2.behind (xs.drop l.width) := by
  rw [Lexeme.take_of_findings path _ hfound]
  dsimp only
  rw [look_behind_silent _ hxs, drop_behind _ hle, look_look_eq_max]

/-- The lexemes of a text without a diagnostic are scanned alike at its end and in front of a line break: what is looked at behind the line
break is no more than one character. -/
theorem exists_ofLexemes_lineBreak {xs : List (Noted Place)} {last : Noted Place} {ls : List Lexeme} (armed : Bool)
    (hpending : (⟨xs, last⟩ : Feed Place).pending = []) (hsum : (ls.map Lexeme.width).sum = xs.length)
    (hls : ∀ l ∈ ls, l.findings = [] ∧ l.width ≤ l.seen ∧ l.seen ≤ l.width + 2) (text : Feed Place) (ls' : List Lexeme) {j : Nat}
    (hj : j ≤ 2) :
    ∃ ns due k, k ≤ 1 ∧ ofLexemes path armed ((((text.cons ⟨⟨some '\n', last.value.line⟩, []⟩).look j).2).behind xs)
        (ls ++ ⟨.lineBreak, 0, 1, []⟩ :: ls') = ((ofLexemes path false (text.look k).2 ls').noteFirst due).behind ns
      ∧ ns.map Noted.value = (ofLexemes path armed ⟨xs, last⟩ ls).items.map Noted.value := by
  induction ls generalizing armed xs j with
  | nil =>
    obtain rfl : xs = [] := List.length_eq_zero_iff.1 hsum.symm
    obtain ⟨ns, due, k, hk, heq, hvalues⟩ := exists_ofLexemes_cons_lineBreak path armed last.value.line text ls' hj
    refine ⟨ns, due, k, hk, heq, hvalues.trans ?_⟩
    cases armed <;> rfl
  | cons l ls ih =>
    obtain ⟨hfound, hwidth, hseen⟩ := hls l List.mem_cons_self
    have hxs : ∀ n ∈ xs, n.notes = [] := List.flatMap_eq_nil_iff.1 (List.append_eq_nil_iff.1 hpending).1
    have hle : l.width ≤ xs.length := by
      rw [← hsum]
      exact Nat.le_add_right _ _
    obtain ⟨x, xs', rfl⟩ : ∃ x xs', xs = x :: xs' := List.exists_cons_of_length_pos (Nat.lt_of_lt_of_le (Nat.succ_pos l.more) hle)
    have htake : (l.take path ⟨x :: xs', last⟩) = ([], ⟨(x :: xs').drop l.width, last⟩) := by
      rw [Lexeme.take_of_findings path _ hfound, look_of_pending _ hpending]
      rfl
    have hpending' : (⟨(x :: xs').drop l.width, last⟩ : Feed Place).pending = [] := pending_drop_of_pending _ hpending l.width
    have hsum' : (ls.map Lexeme.width).sum = ((x :: xs').drop l.width).length := by
      rw [List.length_drop, ← hsum, List.map_cons, List.sum_cons, Nat.add_sub_cancel_left]
    have hj' : max j (l.seen - (x :: xs').length) ≤ 2 := by omega
    have ih := fun armed => ih armed hpending' hsum' (fun l' hl' => hls l' (List.mem_cons_of_mem l hl')) hj'
    rw [List.cons_append]
    simp only [ofLexemes, htake, take_behind path hxs hfound hle]
    cases hkind : l.token? armed with
    | some kind =>
      obtain ⟨ns, due, k, hk, heq, hvalues⟩ := ih kind.endsStatement
      refine ⟨⟨⟨kind, ⟨path, x.value.line⟩⟩, _⟩ :: ns, due, k, hk, congrArg (Feed.cons _) heq, ?_⟩
      exact congrArg (List.cons _) hvalues
    | none =>
      obtain ⟨ns, due, k, hk, heq, hvalues⟩ := ih armed
      obtain ⟨ns', due', heq', hvalues'⟩ := exists_noteFirst_behind (ofLexemes path false (text.look k).2 ls') _ due ns
      refine ⟨ns', due', k, hk, (congrArg (noteFirst _) heq).trans heq', ?_⟩
      rw [hvalues', hvalues, map_value_noteFirst]

/-! ## The same text elsewhere -/

section Move

variable {path} {path' : SourcePath} {shift : Location → Location} {n : Nat} (hshift : ∀ line, shift ⟨path, line⟩ = ⟨path', line + n⟩)
include hshift

theorem lookFindings_move (found : List Finding) (text : Feed Place) :
    Lexeme.lookFindings path' found (text.relabel (Place.down n) (Diagnostic.move shift))
      = ((Lexeme.lookFindings path found text).1.map (Diagnostic.move shift),
        (Lexeme.lookFindings path found text).2.relabel (Place.down n) (Diagnostic.move shift)) := by
  induction found generalizing text with
  | nil => rfl
  | cons f found ih =>
    simp only [Lexeme.lookFindings, look_relabel, peek_relabel, ih, List.map_append, List.map_cons, Diagnostic.move, hshift]
    rfl

theorem take_move (l : Lexeme) (text : Feed Place) :
    l.take path' (text.relabel (Place.down n) (Diagnostic.move shift))
      = ((l.take path text).1.map (Diagnostic.move shift), (l.take path text).2.relabel (Place.down n) (Diagnostic.move shift)) := by
  simp only [Lexeme.take, lookFindings_move hshift, look_relabel, drop_relabel, List.map_append]

/-- The same text elsewhere makes the same tokens elsewhere. -/
theorem ofLexemes_move (armed : Bool) (text : Feed Place) (ls : List Lexeme) :
    ofLexemes path' armed (text.relabel (Place.down n) (Diagnostic.move shift)) ls = (ofLexemes path armed text ls).move shift := by
  have hline : ∀ text : Feed Place, shift ⟨path, (text.peek 0).line⟩ = ⟨path', (Place.down n (text.peek 0)).line⟩ := fun _ => hshift _
  induction ls generalizing armed text with
  | nil =>
    simp only [ofLexemes, look_relabel, peek_relabel, ← hline]
    cases armed <;> rfl
  | cons l ls ih =>
    simp only [ofLexemes, take_move hshift, peek_relabel, ih, ← hline]
    cases l.token? armed with
    | some kind => rfl
    | none => exact noteFirst_relabel _ _ _ _

end Move

/-! ## The end of a text -/

/-- Either the last token ends no statement, or there is a `;` behind it. -/
theorem getLast?_ofLexemes (armed : Bool) (text : Feed Place) (ls : List Lexeme) :
    (armed :: ((ofLexemes path armed text ls).items.map Noted.value).map fun t => t.kind.endsStatement).getLast? = some false := by
  induction ls generalizing armed text with
  | nil => cases armed <;> rfl
  | cons l ls ih =>
    simp only [ofLexemes]
    split
    · next kind _ =>
      have hlast := ih kind.endsStatement (l.take path text).2
      change (armed :: kind.endsStatement :: _).getLast? = some false
      rwa [List.getLast?_cons_cons]
    · rw [map_value_noteFirst]
      exact ih armed _

end Feed

/-! ## Sources in front of one another -/

theorem sum_width_lexemes (cs : List Char) : ((lexemes cs).map Lexeme.width).sum = cs.length := by
  fun_induction lexemes cs with
  | case1 => rfl
  | case2 c cs ih =>
    have hle : (Lexeme.read c cs).more ≤ cs.length := Lexeme.fits_read.more_le
    rw [List.map_cons, List.sum_cons, ih, List.length_drop, List.length_cons, Lexeme.width]
    omega

theorem exists_fits_of_mem_lexemes {cs : List Char} {l : Lexeme} (h : l ∈ lexemes cs) : ∃ ds, l.Fits ds := by
  fun_induction lexemes cs with
  | case1 => cases h
  | case2 c cs ih =>
    rcases List.mem_cons.1 h with rfl | h
    · exact ⟨cs, Lexeme.fits_read⟩
    · exact ih h

namespace Undecoded

open Feed

variable {path : SourcePath} {a : List UInt8} {line : Nat} {atStart : Bool}

/-- Nothing is to be reported of tokens if no character is refused and nothing is wrong with a lexeme. -/
theorem pending_tokens (u : Undecoded) :
    u.tokens.pending = [] ↔ (ofUndecoded u).pending = [] ∧ ∀ l ∈ lexemes (ofUndecoded u).chars, l.findings = [] := by
  refine pending_ofLexemes u.path (fun l hl => ?_) ?_
  · obtain ⟨ds, hfits⟩ := exists_fits_of_mem_lexemes hl
    exact hfits.width_le
  · rw [sum_width_lexemes, length_chars_ofUndecoded]

theorem lexemes_chars_append (h : ∀ l ∈ lexemes (ofUndecoded ⟨path, a, line, atStart⟩).chars, l.Closed) (b : List UInt8) :
    lexemes (ofUndecoded ⟨path, a ++ 10 :: b, line, atStart⟩).chars
      = lexemes (ofUndecoded ⟨path, a, line, atStart⟩).chars
        ++ ⟨.lineBreak, 0, 1, []⟩ :: lexemes (ofUndecoded ⟨path, b, line + a.count 10 + 1, false⟩).chars := by
  have hchars : (ofUndecoded ⟨path, a ++ 10 :: b, line, atStart⟩).chars = (ofUndecoded ⟨path, a, line, atStart⟩).chars
      ++ '\n' :: (ofUndecoded ⟨path, b, line + a.count 10 + 1, false⟩).chars := by
    rw [ofUndecoded_append, chars, behind, List.filterMap_append]
    rfl
  rw [hchars, lexemes_append h, lexemes_cons]
  rfl

/-- If nothing is wrong with a text, the tokens of what stands behind it in the next line come after its tokens. -/
theorem exists_tokens_append (h : (tokens ⟨path, a, line, atStart⟩).pending = []) (b : List UInt8) :
    ∃ (ns : List (Noted Token)) (rest : Feed Token), tokens ⟨path, a ++ 10 :: b, line, atStart⟩ = rest.behind ns
      ∧ ns.map Noted.value = (tokens ⟨path, a, line, atStart⟩).items.map Noted.value
      ∧ (rest.look 1).2 = ((tokens ⟨path, b, line + a.count 10 + 1, false⟩).look 1).2 := by
  obtain ⟨htext, hfound⟩ := (pending_tokens _).1 h
  have hls : ∀ l ∈ lexemes (ofUndecoded ⟨path, a, line, atStart⟩).chars, l.findings = [] ∧ l.width ≤ l.seen ∧ l.seen ≤ l.width + 2 :=
    fun l hl => by
      obtain ⟨ds, hfits⟩ := exists_fits_of_mem_lexemes hl
      exact ⟨hfound l hl, hfits.width_le, hfits.seen_le (hfound l hl)⟩
  have hsum : ((lexemes (ofUndecoded ⟨path, a, line, atStart⟩).chars).map Lexeme.width).sum
      = (ofUndecoded ⟨path, a, line, atStart⟩).items.length := by
    rw [sum_width_lexemes, length_chars_ofUndecoded]
  obtain ⟨ns, due, k, hk, heq, hvalues⟩ := exists_ofLexemes_lineBreak path false htext hsum hls
    (ofUndecoded ⟨path, b, line + a.count 10 + 1, false⟩) (lexemes (ofUndecoded ⟨path, b, line + a.count 10 + 1, false⟩).chars)
      (Nat.zero_le 2)
  refine ⟨ns, _, Eq.trans ?_ heq, hvalues, ?_⟩
  · rw [last_ofUndecoded, tokens, lexemes_chars_append fun l hl => Lexeme.closed_of_findings (hfound l hl), ofUndecoded_append,
      (List.append_eq_nil_iff.1 htext).2]
    rfl
  · have hpos : ∀ l ∈ lexemes (ofUndecoded ⟨path, b, line + a.count 10 + 1, false⟩).chars, 0 < l.seen := fun l hl => by
      obtain ⟨ds, hfits⟩ := exists_fits_of_mem_lexemes hl
      exact Nat.lt_of_lt_of_le (Nat.succ_pos l.more) hfits.width_le
    rw [look_noteFirst]
    rcases Nat.le_one_iff_eq_zero_or_eq_one.1 hk with rfl | rfl
    · rfl
    · exact look_ofLexemes hpos

/-- If nothing is wrong with a text, something is wrong with it and the text in the next line just if something is wrong with the latter. -/
theorem pending_tokens_append (h : (tokens ⟨path, a, line, atStart⟩).pending = []) (b : List UInt8) :
    (tokens ⟨path, a ++ 10 :: b, line, atStart⟩).pending = [] ↔ (tokens ⟨path, b, line + a.count 10 + 1, false⟩).pending = [] := by
  obtain ⟨htext, hfound⟩ := (pending_tokens _).1 h
  rw [pending_tokens, pending_tokens, lexemes_chars_append fun l hl => Lexeme.closed_of_findings (hfound l hl)]
  refine and_congr ?_ ?_
  · rw [ofUndecoded_append, pending_behind, pending_cons, (List.append_eq_nil_iff.1 htext).1, (List.append_eq_nil_iff.1 htext).2]
    rfl
  · rw [List.forall_mem_append, List.forall_mem_cons]
    exact ⟨fun hall => hall.2.2, fun hrest => ⟨hfound, rfl, hrest⟩⟩

/-- If nothing is wrong with either text, their tokens come one after the other and nothing else. -/
theorem exists_tokens_append_of_pending (h : (tokens ⟨path, a, line, atStart⟩).pending = []) {b : List UInt8}
    (h' : (tokens ⟨path, b, line + a.count 10 + 1, false⟩).pending = []) :
    ∃ ns : List (Noted Token), tokens ⟨path, a ++ 10 :: b, line, atStart⟩ = (tokens ⟨path, b, line + a.count 10 + 1, false⟩).behind ns
      ∧ ns.map Noted.value = (tokens ⟨path, a, line, atStart⟩).items.map Noted.value
      ∧ (tokens ⟨path, a ++ 10 :: b, line, atStart⟩).pending = [] := by
  obtain ⟨ns, rest, htokens, hvalues, hlook⟩ := exists_tokens_append h b
  have hpending : (tokens ⟨path, a ++ 10 :: b, line, atStart⟩).pending = [] := (pending_tokens_append h b).2 h'
  have hrest : rest.pending = [] := by
    rw [htokens, pending_behind] at hpending
    exact (List.append_eq_nil_iff.1 hpending).2
  rw [look_of_pending _ hrest, look_of_pending _ h'] at hlook
  obtain rfl : rest = _ := hlook
  exact ⟨ns, htokens, hvalues, hpending⟩

/-- The same bytes elsewhere make the same tokens elsewhere. -/
theorem tokens_move {shift : Location → Location} {n : Nat} (u : Undecoded) (hshift : ∀ line, shift ⟨u.path, line⟩ = ⟨path, line + n⟩) :
    tokens ⟨path, u.bytes, u.line + n, u.atStart⟩ = u.tokens.move shift := by
  rw [tokens, ofUndecoded_move u hshift, chars_down, ofLexemes_move hshift]
  rfl

/-- It makes no difference whether bytes stand at the start of a source, unless they start with a byte order mark. -/
theorem tokens_atStart {b : List UInt8} (h : (Utf8.next b).2.map Prod.fst ≠ some byteOrderMark) :
    tokens ⟨path, b, line, atStart⟩ = tokens ⟨path, b, line, false⟩ := by
  rw [tokens, ofUndecoded_atStart path h]
  rfl

/-- The last token before the end of the input is none at which a line break ends a statement: else a `;` would stand behind it. -/
theorem endsStatement_of_getLast? (u : Undecoded) {t : Token} (h : (u.tokens.items.map Noted.value).getLast? = some t) :
    t.kind.endsStatement = false := by
  have hlast := getLast?_ofLexemes u.path false (ofUndecoded u) (lexemes (ofUndecoded u).chars)
  change (false :: (u.tokens.items.map Noted.value).map fun t => t.kind.endsStatement).getLast? = some false at hlast
  rw [List.getLast?_cons, List.getLast?_map, h] at hlast
  exact Option.some.inj hlast

end Undecoded

end GoSyntax
