import Mathlib.Data.List.Basic
import GoSyntax.Proofs.Context.Scanning
import GoSyntax.Proofs.Lexical.Decoding

/-!
# Where a `;` is put

A scan puts a `;` behind a token that can end a statement, if a line break or the end of the text comes before the next token. It goes by
single lexemes: a line break or a comment over one, with a flag that says what the last token was. The text says the same in terms of
itself. Without any such `;` the tokens are those spelled in the text, each with the characters it takes; with them, one stands behind
each token after which a line could end and does end, whatever else is between it and the next one.
-/

namespace GoSyntax

/-! ## Scanning with and without terminators -/

/-- The tokens of lexemes that a text is cut into, where the tokens behind which a `;` may be put are those `arms` names. -/
def Feed.ofLexemesBy (arms : TokenKind → Bool) (path : SourcePath) : Bool → Feed Place → List Lexeme → Feed Token
  | armed, text, [] =>
    let due := (text.look 1).1
    let loc := ⟨path, (text.peek 0).line⟩
    if armed then ⟨[⟨⟨.punctuation .semicolon, loc⟩, due⟩], ⟨⟨.eof, loc⟩, []⟩⟩
    else ⟨[], ⟨⟨.eof, loc⟩, due⟩⟩
  | armed, text, l :: ls =>
    let (due, rest) := l.take path text
    match l.token? armed with
    | some kind => (Feed.ofLexemesBy arms path (arms kind) rest ls).cons ⟨⟨kind, ⟨path, (text.peek 0).line⟩⟩, due⟩
    | none => (Feed.ofLexemesBy arms path armed rest ls).noteFirst due

/-- The tokens of a source, where the tokens behind which a `;` may be put are those `arms` names. -/
def Feed.tokensBy (arms : TokenKind → Bool) (path : SourcePath) (bytes : List UInt8) : Feed Token :=
  let text := Feed.ofBytes path bytes
  Feed.ofLexemesBy arms path false text (lexemes text.chars)

/-- A `;` may be put behind the tokens that end a statement: this is the scan of a source. -/
theorem Feed.ofLexemesBy_endsStatement (path : SourcePath) (armed : Bool) (text : Feed Place) (ls : List Lexeme) :
    ofLexemesBy TokenKind.endsStatement path armed text ls = ofLexemes path armed text ls := by
  induction ls generalizing armed text with
  | nil => rfl
  | cons l ls ih =>
    rw [ofLexemesBy, ofLexemes]
    cases l.token? armed <;> simp only [ih]

/-! ## The tokens that are spelled -/

/-- A token that is spelled in a text: the number of characters before it and up to its end. -/
structure Span where
  kind : TokenKind
  start : Nat
  stop : Nat
  deriving DecidableEq, Repr

/-- The tokens spelled by lexemes that stand behind so many characters. -/
def spans : Nat → List Lexeme → List Span
  | _, [] => []
  | n, l :: ls =>
    match l.kind with
    | .token kind => ⟨kind, n, n + l.width⟩ :: spans (n + l.width) ls
    | _ => spans (n + l.width) ls

theorem spans_of_not_token {l : Lexeme} (h : ¬∃ kind, l.kind = .token kind) (n : Nat) (ls : List Lexeme) :
    spans n (l :: ls) = spans (n + l.width) ls := by
  rw [spans]
  split
  · next kind hkind => exact absurd ⟨kind, hkind⟩ h
  · rfl

theorem le_start_of_mem_spans {n : Nat} {ls : List Lexeme} {s : Span} (h : s ∈ spans n ls) : n ≤ s.start := by
  induction ls generalizing n with
  | nil => nomatch h
  | cons l ls ih =>
    have hlater : s ∈ spans (n + l.width) ls → n ≤ s.start := fun h => Nat.le_of_add_right_le (ih h)
    rw [spans] at h
    split at h
    · rcases List.mem_cons.1 h with rfl | h
      · exact Nat.le_refl _
      · exact hlater h
    · exact hlater h

section Text

variable (path : SourcePath) (text : List Char)

/-- The line that a text reaches with so many of its characters. -/
def lineAt (n : Nat) : Location := ⟨path, 1 + (text.take n).count '\n'⟩

/-- A line ends between so many characters of a text and the first of the tokens that follow: there is a line break, or no such token. -/
def lineEnds (n : Nat) : List Span → Bool
  | [] => true
  | s :: _ => ((text.take s.start).drop n).contains '\n'

/-- Tokens that are spelled in a text, with a `;` behind each that `arms` names if a line ends there. -/
def terminated (arms : TokenKind → Bool) : List Span → List Token
  | [] => []
  | s :: ss =>
    ⟨s.kind, lineAt path text s.start⟩ ::
      ((if arms s.kind && lineEnds text s.stop ss then [⟨.punctuation .semicolon, lineAt path text s.stop⟩] else []) ++ terminated arms ss)

end Text

theorem terminated_false (path : SourcePath) (text : List Char) (ss : List Span) :
    terminated path text (fun _ => false) ss = ss.map fun s => ⟨s.kind, lineAt path text s.start⟩ := by
  induction ss with
  | nil => rfl
  | cons s ss ih => exact congrArg (List.cons _) ih

section Gap

variable {before gap after cs : List Char}

/-- No line ends among characters that hold no line break. -/
theorem lineAt_append (path : SourcePath) (hcs : cs = before ++ gap ++ after) (hgap : '\n' ∉ gap) :
    lineAt path cs (before ++ gap).length = lineAt path cs before.length := by
  rw [lineAt, lineAt, hcs, List.take_left, List.append_assoc, List.take_left, List.count_append, List.count_eq_zero_of_not_mem hgap,
    Nat.add_zero]

theorem drop_take_append (hcs : cs = before ++ gap ++ after) : (cs.take (before ++ gap).length).drop before.length = gap := by
  rw [hcs, List.take_left, List.drop_left]

/-- A line that has ended has ended before all tokens that follow. -/
theorem lineEnds_of_mem (hcs : cs = before ++ gap ++ after) (hgap : '\n' ∈ gap) (ls : List Lexeme) :
    lineEnds cs before.length (spans (before ++ gap).length ls) = true := by
  cases hspans : spans (before ++ gap).length ls with
  | nil => rfl
  | cons s ss =>
    have hle : (before ++ gap).length ≤ s.start := le_start_of_mem_spans (hspans ▸ List.mem_cons_self)
    refine List.contains_iff_mem.2 ?_
    have hsub : List.Sublist ((cs.take (before ++ gap).length).drop before.length) ((cs.take s.start).drop before.length) :=
      (List.take_sublist_take_left hle).drop _
    rw [drop_take_append hcs] at hsub
    exact hsub.subset hgap

/-- No line ends in front of a token behind characters that hold no line break. -/
theorem lineEnds_of_not_mem (hcs : cs = before ++ gap ++ after) (hgap : '\n' ∉ gap) (kind : TokenKind) (stop : Nat) (ss : List Span) :
    lineEnds cs before.length (⟨kind, (before ++ gap).length, stop⟩ :: ss) = false := by
  rw [lineEnds, drop_take_append hcs]
  exact eq_false_of_ne_true fun hmem => hgap (List.contains_iff_mem.1 hmem)

end Gap

/-! ## Line breaks in lexemes -/

/-- A lexeme ends a line, whatever it is put behind. -/
def LexemeKind.breaksLine : LexemeKind → Bool
  | lineBreak => true
  | comment spansLines => spansLines
  | _ => false

namespace Lexeme

/-- A lexeme that is no token holds a line break exactly if it ends a line. -/
def Shows (l : Lexeme) (cs : List Char) : Prop :=
  (∃ kind, l.kind = .token kind) ∨ (cs.take l.width).contains '\n' = l.kind.breaksLine

theorem contains_takeWhile {p : Char → Bool} (hp : p '\n' = false) (cs : List Char) : (cs.takeWhile p).contains '\n' = false := by
  refine Bool.eq_false_iff.2 fun hmem => ?_
  have hall := List.all_eq_true.1 (List.all_takeWhile (l := cs) (p := p)) _ (List.contains_iff_mem.1 hmem)
  nomatch hp.symm.trans hall

theorem shows_blockComment (cs : List Char) : (blockComment cs).Shows ('/' :: '*' :: cs) := by
  refine .inr ?_
  rw [blockComment]
  split
  · rfl
  · simp only [width, List.take_succ_cons, List.take_length]
    rfl

theorem Shows.ite {φ : Prop} [Decidable φ] {l l' : Lexeme} {cs : List Char} (h : φ → l.Shows cs) (h' : ¬φ → l'.Shows cs) :
    (if φ then l else l').Shows cs := by
  split
  · next hφ => exact h hφ
  · next hφ => exact h' hφ

/-- What is no token makes a `;`, if it ends a line and the token before it can end a statement. -/
theorem token?_of_not_token {l : Lexeme} (h : ¬∃ kind, l.kind = .token kind) (armed : Bool) :
    l.token? armed = if armed && l.kind.breaksLine then some (.punctuation .semicolon) else none := by
  rw [token?]
  cases hkind : l.kind with
  | token kind => exact absurd ⟨kind, hkind⟩ h
  | comment spansLines => cases spansLines <;> cases armed <;> rfl
  | _ => cases armed <;> rfl

/-- Whatever a text starts with, a line ends there exactly if it is, or goes over, a line break. -/
theorem shows_read (c : Char) (cs : List Char) : (read c cs).Shows (c :: cs) := by
  have hcomment : ∀ {d}, (c = '/' && cs.head? == some d) = true → c :: cs = '/' :: d :: cs.tail := fun h => by
    obtain ⟨hc, hd⟩ := Bool.and_eq_true_iff.1 h
    obtain ⟨cs, rfl⟩ := List.head?_eq_some_iff.1 (eq_of_beq hd)
    rw [of_decide_eq_true hc]
    rfl
  unfold read
  refine .ite (fun hbreak => ?_) fun hbreak => .ite (fun hblank => ?_) fun _ => .ite (fun hline => ?_) fun _ =>
    .ite (fun hblock => ?_) fun _ =>
    .ite (fun _ => .inl ⟨_, rfl⟩) fun _ => .ite (fun _ => .inl ⟨_, rfl⟩) fun _ => .ite (fun _ => .inl ⟨_, rfl⟩) fun _ =>
    .ite (fun _ => .inl ⟨_, rfl⟩) fun _ => .ite (fun _ => .inl ⟨_, rfl⟩) fun _ => ?_
  · subst hbreak
    exact .inr rfl
  · refine .inr ?_
    have htake : cs.take (cs.takeWhile isBlank).length = cs.takeWhile isBlank := (List.prefix_iff_eq_take.1 (List.takeWhile_prefix _)).symm
    have hno := contains_takeWhile (p := isBlank) (by decide) cs
    simp only [blanks, width, List.take_succ_cons, htake, List.contains_cons, hno]
    simpa [LexemeKind.breaksLine] using Ne.symm hbreak
  · rw [hcomment hline]
    refine .inr ?_
    have htake : cs.tail.take (cs.tail.takeWhile (· != '\n')).length = cs.tail.takeWhile (· != '\n') :=
      (List.prefix_iff_eq_take.1 (List.takeWhile_prefix _)).symm
    have hno := contains_takeWhile (p := (· != '\n')) (by decide) cs.tail
    simp only [lineComment, width, List.take_succ_cons, htake, List.contains_cons, hno]
    rfl
  · rw [hcomment hblock]
    exact shows_blockComment cs.tail
  · unfold symbol
    split
    · exact .inl ⟨_, rfl⟩
    · refine .inr ?_
      simpa [width, LexemeKind.breaksLine] using Ne.symm hbreak

end Lexeme

/-! ## Lines of places -/

namespace Feed

/-- The line of a place is that which the characters before it reach. -/
theorem line_peek_ofUndecoded (u : Undecoded) (i : Nat) :
    ((ofUndecoded u).peek i).line = u.line + ((ofUndecoded u).chars.take i).count '\n' := by
  induction u using ofUndecoded.induct generalizing i with
  | case1 u refused c rest hshort hnext ih =>
    rw [ofUndecoded_of_some hnext]
    cases i with
    | zero => rfl
    | succ i =>
      refine (ih i).trans ?_
      change _ = u.line + (List.take (i + 1) (c :: (ofUndecoded _).chars)).count '\n'
      rw [List.take_succ_cons, List.count_cons, lineAfter]
      by_cases hc : c = '\n'
      · simp only [hc, if_true, beq_self_eq_true]
        omega
      · rw [if_neg hc, if_neg (by simpa using hc)]
        rfl
  | case2 u refused hshort hnext =>
    rw [ofUndecoded_of_none hnext]
    simp [peek, chars]

/-- Two feeds differ in nothing but what they have to report. -/
def SameValues {α : Type} (f g : Feed α) : Prop := f.items.map Noted.value = g.items.map Noted.value ∧ f.last.value = g.last.value

theorem SameValues.peek {α : Type} {f g : Feed α} (h : SameValues f g) (i : Nat) : f.peek i = g.peek i := by
  have hf : ∀ f : Feed α, f.peek i = (f.items.map Noted.value)[i]?.getD f.last.value := fun f => by
    rw [Feed.peek, List.getElem?_map]
    cases f.items[i]? <;> rfl
  rw [hf f, hf g, h.1, h.2]

/-- What is left of a text behind a lexeme, what is reported apart. -/
theorem SameValues.take (path : SourcePath) {text whole : Feed Place} {n : Nat} (h : SameValues text (whole.drop n)) (l : Lexeme) :
    SameValues (l.take path text).2 (whole.drop (n + l.width)) := by
  obtain ⟨hitems, hlast⟩ := h
  rw [Lexeme.take_snd]
  refine ⟨?_, (last_value_look _ _).trans hlast⟩
  rw [Feed.drop, List.map_drop, map_value_look, hitems, Feed.drop, Feed.drop, ← List.map_drop, List.drop_drop]

theorem peek_drop_zero {α : Type} (f : Feed α) (n : Nat) : (f.drop n).peek 0 = f.peek n := by
  simp [Feed.peek, Feed.drop]

theorem last_value_noteFirst {α : Type} (due : List Diagnostic) (f : Feed α) : (f.noteFirst due).last.value = f.last.value := by
  obtain ⟨items, last⟩ := f
  cases items <;> rfl

/-! ## A scan -/

section Scan

variable {before gap taken after cs : List Char} {arms : TokenKind → Bool} {path : SourcePath} {whole text : Feed Place} {armed : Bool}
  {l : Lexeme} {ls : List Lexeme}

/-- A scan from some place of a text on gives the tokens spelled there, with a `;` where a line ends behind one of them. Behind the last
token before it there is a gap. If that token is one behind which a `;` may be put, a `;` comes first if a line ends before the next
token. -/
def ScansOn (arms : TokenKind → Bool) (path : SourcePath) (cs : List Char) (armed : Bool) (text : Feed Place) (before gap : List Char)
    (ls : List Lexeme) : Prop :=
  (ofLexemesBy arms path armed text ls).items.map Noted.value
      = (if armed && lineEnds cs before.length (spans (before ++ gap).length ls)
          then [⟨.punctuation .semicolon, lineAt path cs before.length⟩] else [])
        ++ terminated path cs arms (spans (before ++ gap).length ls)
    ∧ (ofLexemesBy arms path armed text ls).last.value = ⟨.eof, lineAt path cs cs.length⟩

theorem scansOn_nil (hcs : cs = before ++ gap ++ []) (hline : (⟨path, (text.peek 0).line⟩ : Location) = lineAt path cs (before ++ gap).length)
    (hgap : armed = true → '\n' ∉ gap) : ScansOn arms path cs armed text before gap [] := by
  have hlength : (before ++ gap).length = cs.length := by rw [hcs, List.append_nil]
  rw [ScansOn, ofLexemesBy, hline]
  cases armed with
  | true =>
    rw [← lineAt_append path hcs (hgap rfl), ← hlength]
    exact ⟨rfl, rfl⟩
  | false =>
    rw [← hlength]
    exact ⟨rfl, rfl⟩

/-- At a token the gap ends, and a new one, with nothing in it, starts behind the token. -/
theorem scansOn_token {kind : TokenKind} (hkind : l.kind = .token kind) (hcs : cs = before ++ gap ++ after)
    (hline : (⟨path, (text.peek 0).line⟩ : Location) = lineAt path cs (before ++ gap).length) (hgap : armed = true → '\n' ∉ gap)
    (hwidth : taken.length = l.width) (hrest : ScansOn arms path cs (arms kind) (l.take path text).2 (before ++ gap ++ taken) [] ls) :
    ScansOn arms path cs armed text before gap (l :: ls) := by
  obtain ⟨hitems, hlast⟩ := hrest
  have hsome : l.token? armed = some kind := by rw [Lexeme.token?, hkind]
  have hends : ∀ stop ss, (armed && lineEnds cs before.length (⟨kind, (before ++ gap).length, stop⟩ :: ss)) = false := by
    intro stop ss
    cases armed with
    | true => exact lineEnds_of_not_mem hcs (hgap rfl) kind stop ss
    | false => rfl
  rw [List.append_nil, List.length_append, hwidth] at hitems
  simp only [ScansOn, ofLexemesBy, hsome, spans, hkind, hends, terminated, hline]
  exact ⟨congrArg (List.cons _) hitems, hlast⟩

/-- At the first line break behind a token that can end a statement a `;` is put. What is to come has none before it any more. -/
theorem scansOn_lineBreak (harms : arms (.punctuation .semicolon) = false) (htoken : ¬∃ kind, l.kind = .token kind)
    (hbreak : l.kind.breaksLine = true) (hcs : cs = before ++ gap ++ (taken ++ after)) (hmem : '\n' ∈ taken)
    (hline : (⟨path, (text.peek 0).line⟩ : Location) = lineAt path cs (before ++ gap).length) (hgap : '\n' ∉ gap)
    (hwidth : taken.length = l.width) (hrest : ScansOn arms path cs false (l.take path text).2 before (gap ++ taken) ls) :
    ScansOn arms path cs true text before gap (l :: ls) := by
  obtain ⟨hitems, hlast⟩ := hrest
  have hmade : l.token? true = some (.punctuation .semicolon) := by rw [Lexeme.token?_of_not_token htoken, hbreak]; rfl
  have hcs' : cs = before ++ (gap ++ taken) ++ after := by rw [hcs]; simp only [List.append_assoc]
  have hlength : (before ++ gap).length + l.width = (before ++ (gap ++ taken)).length := by
    rw [← hwidth, ← List.length_append, List.append_assoc]
  simp only [ScansOn, ofLexemesBy, hmade, harms, hline, lineAt_append path hcs hgap, spans_of_not_token htoken, hlength,
    lineEnds_of_mem hcs' (List.mem_append_right gap hmem)]
  exact ⟨congrArg (List.cons _) hitems, hlast⟩

/-- What is no token and makes no `;` makes the gap longer. -/
theorem scansOn_gap (htoken : ¬∃ kind, l.kind = .token kind) (hdue : (armed && l.kind.breaksLine) = false) (hwidth : taken.length = l.width)
    (hrest : ScansOn arms path cs armed (l.take path text).2 before (gap ++ taken) ls) :
    ScansOn arms path cs armed text before gap (l :: ls) := by
  obtain ⟨hitems, hlast⟩ := hrest
  have hmade : l.token? armed = none := by rw [Lexeme.token?_of_not_token htoken, hdue]; rfl
  have hlength : (before ++ gap).length + l.width = (before ++ (gap ++ taken)).length := by
    rw [← hwidth, ← List.length_append, List.append_assoc]
  simp only [ScansOn, ofLexemesBy, hmade, map_value_noteFirst, last_value_noteFirst, spans_of_not_token htoken, hlength]
  exact ⟨hitems, hlast⟩

/-- A text is scanned to its end, as long as no line has ended in the gap behind a token behind which a `;` may be put. -/
theorem scansOn_lexemes (harms : arms (.punctuation .semicolon) = false)
    (hlines : ∀ i, (⟨path, (whole.peek i).line⟩ : Location) = lineAt path cs i) (hcs : cs = before ++ gap ++ after)
    (htext : SameValues text (whole.drop (before ++ gap).length)) (hgap : armed = true → '\n' ∉ gap) :
    ScansOn arms path cs armed text before gap (lexemes after) := by
  have hline : ∀ {text : Feed Place} {n : Nat}, SameValues text (whole.drop n) →
    (⟨path, (text.peek 0).line⟩ : Location) = lineAt path cs n :=
    fun h => by rw [h.peek, peek_drop_zero, hlines]
  fun_induction lexemes after generalizing armed text before gap with
  | case1 => exact scansOn_nil hcs (hline htext) hgap
  | case2 c after ih =>
    have hshows := Lexeme.shows_read c after
    have hfits : (Lexeme.read c after).width ≤ (c :: after).length := Nat.succ_le_succ Lexeme.fits_read.more_le
    generalize Lexeme.read c after = l at ih hshows hfits ⊢
    obtain ⟨taken, hsplit, htaken⟩ : ∃ taken, c :: after = taken ++ after.drop l.more ∧ (c :: after).take l.width = taken :=
      ⟨_, (List.take_append_drop l.width (c :: after)).symm, rfl⟩
    have hwidth : taken.length = l.width := by rw [← htaken, List.length_take, Nat.min_eq_left hfits]
    have hrest := htext.take path l
    rw [← hwidth, ← List.length_append] at hrest
    by_cases htoken : ∃ kind, l.kind = .token kind
    · obtain ⟨kind, hkind⟩ := htoken
      have hcs' : cs = before ++ gap ++ taken ++ [] ++ after.drop l.more := by rw [hcs, hsplit, List.append_nil, List.append_assoc _ taken]
      exact scansOn_token hkind hcs (hline htext) hgap hwidth (ih hcs' (by rwa [List.append_nil]) fun _ => List.not_mem_nil)
    · have hcontains : '\n' ∈ taken ↔ l.kind.breaksLine = true := by
        rw [← hshows.resolve_left htoken, htaken, List.contains_iff_mem]
      have hcs' : cs = before ++ (gap ++ taken) ++ after.drop l.more := by rw [hcs, hsplit]; simp only [List.append_assoc]
      rw [List.append_assoc] at hrest
      by_cases hdue : armed = true ∧ l.kind.breaksLine = true
      · obtain ⟨rfl, hbreak⟩ := hdue
        exact scansOn_lineBreak harms htoken hbreak (hsplit ▸ hcs) (hcontains.2 hbreak) (hline htext) (hgap rfl) hwidth
          (ih hcs' hrest fun h => absurd h Bool.false_ne_true)
      · refine scansOn_gap htoken (eq_false_of_ne_true fun h => hdue (Bool.and_eq_true_iff.1 h)) hwidth (ih hcs' hrest fun harmed hmem => ?_)
        rcases List.mem_append.1 hmem with hmem | hmem
        · exact hgap harmed hmem
        · exact hdue ⟨harmed, hcontains.1 hmem⟩

end Scan

/-- The tokens of a source, where the tokens behind which a `;` may be put are those `arms` names. -/
theorem values_tokensBy {arms : TokenKind → Bool} (harms : arms (.punctuation .semicolon) = false) (path : SourcePath)
    (bytes : List UInt8) :
    (tokensBy arms path bytes).values
      = terminated path (ofBytes path bytes).chars arms (spans 0 (lexemes (ofBytes path bytes).chars))
        ++ [⟨.eof, lineAt path (ofBytes path bytes).chars (ofBytes path bytes).chars.length⟩] := by
  have hlines : ∀ i, (⟨path, ((ofBytes path bytes).peek i).line⟩ : Location) = lineAt path (ofBytes path bytes).chars i :=
    fun i => congrArg (Location.mk path) (line_peek_ofUndecoded _ i)
  have hchars : (ofBytes path bytes).chars = [] ++ [] ++ (ofBytes path bytes).chars := rfl
  obtain ⟨hitems, hlast⟩ := scansOn_lexemes harms hlines hchars ⟨rfl, rfl⟩ fun h : false = true => nomatch h
  exact congrArg₂ (· ++ [·]) hitems hlast

theorem tokensBy_endsStatement (path : SourcePath) (bytes : List UInt8) : tokensBy TokenKind.endsStatement path bytes = tokens path bytes :=
  ofLexemesBy_endsStatement path false _ _

theorem values_tokens (path : SourcePath) (bytes : List UInt8) : (tokens path bytes).values
    = terminated path (ofBytes path bytes).chars TokenKind.endsStatement (spans 0 (lexemes (ofBytes path bytes).chars))
      ++ [⟨.eof, lineAt path (ofBytes path bytes).chars (ofBytes path bytes).chars.length⟩] := by
  rw [← tokensBy_endsStatement]
  exact values_tokensBy rfl path bytes

end Feed

/-! ## The tokens of a text -/

/-- A token that is spelled stands in the text from its start to its end. -/
theorem read_of_mem_spans (before : List Char) {after : List Char} {s : Span} (h : s ∈ spans before.length (lexemes after)) :
    ∃ c rest, (before ++ after).drop s.start = c :: rest ∧ (Lexeme.read c rest).kind = .token s.kind
      ∧ s.stop = s.start + (Lexeme.read c rest).width := by
  fun_induction lexemes after generalizing before with
  | case1 => cases h
  | case2 c after ih =>
    have hwidth : (Lexeme.read c after).width ≤ (c :: after).length := Nat.succ_le_succ Lexeme.fits_read.more_le
    have hlater : s ∈ spans (before.length + (Lexeme.read c after).width) (lexemes (after.drop (Lexeme.read c after).more)) →
        ∃ c' rest, (before ++ c :: after).drop s.start = c' :: rest ∧ (Lexeme.read c' rest).kind = .token s.kind
          ∧ s.stop = s.start + (Lexeme.read c' rest).width := fun h => by
      have hrest := ih (before ++ (c :: after).take (Lexeme.read c after).width)
      rw [List.length_append, List.length_take, Nat.min_eq_left hwidth, List.append_assoc] at hrest
      rw [← List.take_append_drop (Lexeme.read c after).width (c :: after)]
      exact hrest h
    rw [spans] at h
    split at h
    · next kind hkind =>
      rcases List.mem_cons.1 h with rfl | h
      · exact ⟨c, after, List.drop_left, hkind, rfl⟩
      · exact hlater h
    · exact hlater h

/-- Tokens that are spelled do not overlap. -/
theorem pairwise_spans (n : Nat) (ls : List Lexeme) : (spans n ls).Pairwise fun s t => s.stop ≤ t.start := by
  induction ls generalizing n with
  | nil => exact .nil
  | cons l ls ih =>
    rw [spans]
    split
    · exact .cons (fun t ht => le_start_of_mem_spans ht) (ih _)
    · exact ih _

theorem TokenKind.endsStatement_iff (kind : TokenKind) :
    kind.endsStatement = true ↔ (∃ name, kind = .ident name) ∨ (∃ value, kind = .literal value)
      ∨ kind ∈ [.keyword .break, .keyword .continue, .keyword .fallthrough, .keyword .return, .operator .inc, .operator .dec,
        .punctuation .rParen, .punctuation .rBracket, .punctuation .rBrace] := by
  cases kind with
  | keyword k => cases k <;> simp [endsStatement, Keyword.endsStatement]
  | operator o => cases o <;> simp [endsStatement, Operator.family]
  | punctuation p => cases p <;> simp [endsStatement, Punctuation.endsStatement]
  | ident name => simp [endsStatement]
  | literal value => simp [endsStatement]
  | eof => simp [endsStatement]

/-- Without terminators, the tokens of a source are those spelled in its text, and then its end. The scan puts in one `;` behind each of
them that can end a statement and behind which a line ends before the next one, on the line on which the token ends; and it puts in no
other. -/
theorem tokenize_terminated (path : SourcePath) (bytes : List UInt8) :
    let text := (Feed.ofBytes path bytes).chars
    let spelled := spans 0 (lexemes text)
    (∀ s ∈ spelled, ∃ c rest, text.drop s.start = c :: rest ∧ (Lexeme.read c rest).kind = .token s.kind
        ∧ s.stop = s.start + (Lexeme.read c rest).width)
      ∧ (spelled.Pairwise fun s t => s.stop ≤ t.start)
      ∧ Feed.tokensBy TokenKind.endsStatement path bytes = Feed.tokens path bytes
      ∧ (Feed.tokensBy (fun _ => false) path bytes).values
        = spelled.map (fun s => ⟨s.kind, lineAt path text s.start⟩) ++ [⟨.eof, lineAt path text text.length⟩]
      ∧ (tokenize path bytes).1
        = terminated path text TokenKind.endsStatement spelled ++ [⟨.eof, lineAt path text text.length⟩]
      ∧ ∀ kind : TokenKind, kind.endsStatement = true ↔ (∃ name, kind = .ident name) ∨ (∃ value, kind = .literal value)
        ∨ kind ∈ [.keyword .break, .keyword .continue, .keyword .fallthrough, .keyword .return, .operator .inc, .operator .dec,
          .punctuation .rParen, .punctuation .rBracket, .punctuation .rBrace] := by
  refine ⟨fun s hs => read_of_mem_spans [] hs, pairwise_spans _ _, Feed.tokensBy_endsStatement path bytes, ?_,
    Feed.values_tokens path bytes, TokenKind.endsStatement_iff⟩
  rw [Feed.values_tokensBy rfl, terminated_false]

end GoSyntax
