import GoSyntax.Proofs.InRange.Text
import GoSyntax.Proofs.TwoRuns.Grammar

/-!
# The nesting level stays in range

The nesting level is a 32-bit integer, lowered to -1 in headers and raised by one in brackets. Productions can be guarded: whenever
one is entered with a level that a 32-bit integer does not hold, or could not hold any more once all the opening brackets to come
have raised it, something else happens, whatever that may be. If a source has fewer than `2 ^ 31` opening brackets the guard is
never met, since a level is only raised behind a bracket.
-/

namespace GoSyntax

namespace Cursor

/-- The number of opening brackets to come. -/
def openings (c : Cursor) : Nat := c.kinds.countP TokenKind.opens

theorem openings_peek (k : Nat) (c : Cursor) : (Parse.peek k c).2.openings = c.openings := by
  rw [openings, kinds_peek, openings]

theorem openings_consume (c : Cursor) : (Parse.consume c).2.openings ≤ c.openings := by
  rw [openings, kinds_consume]
  exact (List.tail_sublist c.kinds).countP_le

/-- An opening bracket that is taken is no longer to come. -/
theorem openings_consume_of_opens {c : Cursor} (h : c.here.kind.opens = true) :
    (Parse.consume c).2.openings + 1 = c.openings := by
  have hne : c.here.kind ≠ .eof := by
    intro heof
    rw [heof] at h
    nomatch h
  obtain ⟨ks, hks⟩ := kinds_eq_cons hne
  rw [openings, kinds_consume, openings, hks, List.tail_cons, List.countP_cons_of_pos h]

end Cursor

/-! ## The bond -/

/-- Two runs over the same cursor with a bound on the opening brackets to come and a count of the reports so far. A level is in scope
if the brackets to come cannot raise it above the bound. -/
def Bond.nesting (bound : Nat) : Bond (Nat × Nat) where
  holds i c c' := c = c' ∧ c.openings ≤ i.1 ∧ i.2 ≤ c.log.size
  scope level i := -1 ≤ level ∧ level.toNat + i.1 ≤ bound
  base i n n' := n = i.2 ∧ n' = i.2
  peek := by
    rintro i c _ ⟨rfl, hopen, hlog⟩ k
    refine ⟨rfl, rfl, (Cursor.openings_peek k c).trans_le hopen, hlog.trans ?_⟩
    rw [← Array.length_toList, ← Array.length_toList, Cursor.log_peek, List.length_append]
    exact Nat.le_add_right _ _
  consume := by
    rintro i c _ ⟨rfl, hopen, hlog⟩
    refine ⟨rfl, c.openings_consume.trans hopen, hlog.trans ?_⟩
    rw [← Array.length_toList, ← Array.length_toList, Cursor.log_consume, List.length_append]
    exact Nat.le_add_right _ _
  report := by
    rintro i c _ fault ⟨rfl, hopen, hlog⟩ - loc
    refine ⟨rfl, hopen, hlog.trans ?_⟩
    change c.log.size ≤ (c.log.push ⟨fault, loc⟩).size
    rw [Array.size_push]
    exact Nat.le_succ _
  length := by
    rintro i c _ ⟨rfl, -⟩
    rfl
  ground := by
    intro level i h
    omega
  header := by
    intro i h
    omega
  nested := by
    rintro level i c _ ⟨hlow, hhigh⟩ ⟨rfl, hopen, hlog⟩ hopens
    have hone := Cursor.openings_consume_of_opens hopens
    refine ⟨(i.1 - 1, i.2), ?_, ⟨rfl, ?_, ?_⟩, ?_⟩
    · change -1 ≤ level + 1 ∧ (level + 1).toNat + (i.1 - 1) ≤ bound
      omega
    · change _ ≤ i.1 - 1
      omega
    · refine hlog.trans ?_
      rw [← Array.length_toList, ← Array.length_toList, Cursor.log_consume, List.length_append]
      exact Nat.le_add_right _ _
    · rintro d d' ⟨heq, hopen', hlog'⟩
      exact ⟨heq, hopen'.trans (Nat.sub_le _ _), hlog'⟩
  since := by
    rintro level i c _ h ⟨rfl, hopen, hlog⟩
    refine ⟨(i.1, c.log.size), h, ⟨rfl, rfl⟩, ⟨rfl, hopen, le_rfl⟩, ?_⟩
    rintro d d' ⟨heq, hopen', hlog'⟩
    exact ⟨heq, hopen', hlog.trans hlog'⟩
  counts := by
    rintro i n n' c _ ⟨rfl, rfl⟩ ⟨rfl, -, hlog⟩
    exact ⟨hlog, hlog⟩
  follows := by
    rintro i n n' c _ ⟨rfl, rfl⟩ ⟨rfl, -⟩ h
    exact h
  alone := by
    rintro i n n' c _ d d' fault ⟨rfl, rfl⟩ ⟨rfl, -⟩ hquiet hnoisy
    exact absurd hnoisy hquiet

/-! ## Guarded productions -/

/-- A level can be kept in a 32-bit integer, and so it can behind all opening brackets to come. -/
def LevelFits (level : Int) (c : Cursor) : Prop := -1 ≤ level ∧ level + c.openings < 2 ^ 31

instance (level : Int) (c : Cursor) : Decidable (LevelFits level c) := inferInstanceAs (Decidable (_ ∧ _))

namespace Productions

/-- Productions that are left for others if they are entered with a level that does not fit. -/
def guard (trap p : Productions) : Productions where
  type? := p.type?
  expr level c := if LevelFits level c then p.expr level c else trap.expr level c
  unary level c := if LevelFits level c then p.unary level c else trap.unary level c
  elementValue level c := if LevelFits level c then p.elementValue level c else trap.elementValue level c
  stmt := p.stmt

/-- The productions of a depth, guarded at each. -/
def guardedOfDepth (trap : Productions) : Nat → Productions
  | 0 => exhausted
  | depth + 1 => guard trap (guardedOfDepth trap depth).deepen

variable {bound : Nat}

/-- A level in scope fits, so a guard changes nothing. -/
theorem bonded_guard {α : Type} {level : Int} (hbound : bound < 2 ^ 31) {f g trap : Int → Parse α}
    (h : Bonded (.nesting bound) level (f level) (g level)) :
    Bonded (.nesting bound) level (fun c => if LevelFits level c then f level c else trap level c) (g level) := by
  refine ⟨?_⟩
  rintro i ⟨hlow, hhigh⟩ c c' hc
  have hopen : c.openings ≤ i.1 := hc.2.1
  have hfits : LevelFits level c := by
    refine ⟨hlow, ?_⟩
    omega
  change ((if LevelFits level c then f level c else trap level c).1 = _)
    ∧ (Bond.nesting bound).holds i (if LevelFits level c then f level c else trap level c).2 _
  rw [if_pos hfits]
  exact h.together i ⟨hlow, hhigh⟩ c c' hc

theorem areBonded_guardedOfDepth (hbound : bound < 2 ^ 31) (trap : Productions) (depth : Nat) :
    (guardedOfDepth trap depth).AreBonded (.nesting bound) (ofDepth depth) := by
  induction depth with
  | zero => exact areBonded_exhausted
  | succ depth ih =>
    have hdeep := ih.deepen
    exact ⟨hdeep.type?, fun level => bonded_guard hbound (hdeep.expr level), fun level => bonded_guard hbound (hdeep.unary level),
      fun level => bonded_guard hbound (hdeep.elementValue level), hdeep.stmt⟩

end Productions

/-- Runs a parser with guarded productions. -/
def Grammar.runGuarded (trap : Productions) {α : Type} (parser : Productions → Parse α) : Parse α :=
  fun c => parser (.guardedOfDepth trap (c.feed.items.length + 1)) c

/-- With fewer than `2 ^ 31` opening brackets, the guard of the nesting level is never met. -/
theorem Grammar.runGuarded_eq {α : Type} {parser : Productions → Parse α}
    (h : ∀ {B : Bond (Nat × Nat)} {p q : Productions}, p.AreBonded B q → Bonded B 0 (parser p) (parser q)) (trap : Productions)
    {c : Cursor} (hc : c.openings < 2 ^ 31) : runGuarded trap parser c = run parser c := by
  have hbonded := h (Productions.areBonded_guardedOfDepth hc trap (c.feed.items.length + 1))
  have hscope : (Bond.nesting c.openings).scope 0 (c.openings, 0) := ⟨by omega, by change 0 + c.openings ≤ _; omega⟩
  obtain ⟨hresult, hcursor, -⟩ := hbonded.together _ hscope c c ⟨rfl, le_rfl, Nat.zero_le _⟩
  exact Prod.ext hresult hcursor

/-! ## How many brackets a source can open -/

/-- Each lexeme makes one token at most, and the `;` at the end of a text opens nothing. -/
theorem Feed.openings_ofLexemes (path : SourcePath) (armed : Bool) (text : Feed Place) (ls : List Lexeme) :
    (((Feed.ofLexemes path armed text ls).items.map Noted.value).map Token.kind).countP TokenKind.opens ≤ ls.length := by
  induction ls generalizing armed text with
  | nil => cases armed <;> exact Nat.le_refl 0
  | cons l ls ih =>
    simp only [ofLexemes]
    split
    · next kind _ =>
      have hrest := ih kind.endsStatement (l.take path text).2
      change (kind :: _).countP TokenKind.opens ≤ _
      rw [List.countP_cons, List.length_cons]
      split <;> omega
    · rw [map_value_noteFirst]
      exact (ih armed (l.take path text).2).trans (Nat.le_succ _)

theorem length_lexemes_le (text : List Char) : (lexemes text).length ≤ text.length := by
  fun_induction lexemes text with
  | case1 => exact Nat.le_refl 0
  | case2 c cs ih =>
    rw [List.length_drop] at ih
    rw [List.length_cons, List.length_cons]
    omega

/-- A source opens no more brackets than it has bytes. -/
theorem Cursor.openings_start_le (path : SourcePath) (bytes : List UInt8) : (Cursor.start path bytes).openings ≤ bytes.length :=
  calc (Cursor.start path bytes).openings
    _ ≤ (lexemes (Feed.ofBytes path bytes).chars).length := Feed.openings_ofLexemes path false _ _
    _ ≤ (Feed.ofBytes path bytes).chars.length := length_lexemes_le _
    _ ≤ bytes.length := Feed.length_chars_le path bytes

end GoSyntax
