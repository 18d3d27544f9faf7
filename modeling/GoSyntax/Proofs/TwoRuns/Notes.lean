import GoSyntax.Token.Stream

/-!
# What a source reports by itself

The notes of a token are findings of the lexemes on the way to it and faults of the encoding. Both lie in the text, so whatever a
source has to report before a parser reads it is lexical. The argument follows the text through its stages: characters, lexemes,
tokens.
-/

namespace GoSyntax

/-- The lexical ones among diagnostics, in order. -/
def lexical (ds : List Diagnostic) : List Diagnostic := ds.filter Diagnostic.isLexical

/-- The syntactic ones among diagnostics, in order. -/
def syntactic (ds : List Diagnostic) : List Diagnostic := ds.filter fun d => !d.isLexical

@[simp]
theorem lexical_append (ds ds' : List Diagnostic) : lexical (ds ++ ds') = lexical ds ++ lexical ds' := List.filter_append ds ds'

@[simp]
theorem syntactic_append (ds ds' : List Diagnostic) : syntactic (ds ++ ds') = syntactic ds ++ syntactic ds' :=
  List.filter_append ds ds'

theorem eq_lexical_of_syntactic_eq_nil {ds : List Diagnostic} (h : syntactic ds = []) : ds = lexical ds := by
  refine (List.filter_eq_self.2 fun d hd => ?_).symm
  simpa using List.filter_eq_nil_iff.1 h d hd

/-- Every diagnostic of a list is about the text. -/
def Lexical (ds : List Diagnostic) : Prop := ∀ d ∈ ds, d.isLexical = true

namespace Lexical

variable {ds ds' : List Diagnostic}

theorem nil : Lexical [] := fun _ h => nomatch h

theorem append (h : Lexical ds) (h' : Lexical ds') : Lexical (ds ++ ds') := by
  intro d hd
  rcases List.mem_append.1 hd with hd | hd
  · exact h d hd
  · exact h' d hd

theorem left (h : Lexical (ds ++ ds')) : Lexical ds := fun d hd => h d (List.mem_append_left _ hd)

theorem right (h : Lexical (ds ++ ds')) : Lexical ds' := fun d hd => h d (List.mem_append_right _ hd)

/-- A list of lexical diagnostics is its own lexical part. -/
theorem lexical_eq (h : Lexical ds) : lexical ds = ds := List.filter_eq_self.2 h

theorem syntactic_eq_nil (h : Lexical ds) : syntactic ds = [] := by
  rw [syntactic, List.filter_eq_nil_iff]
  intro d hd
  rw [h d hd]
  exact Bool.false_ne_true

end Lexical

/-! ## Characters -/

theorem Undecoded.lexical_notes (u : Undecoded) (refused : Nat) : Lexical (u.notes refused) := by
  intro d hd
  obtain rfl := List.eq_of_mem_replicate hd
  rfl

theorem Feed.lexical_pending_cons {α : Type} {n : Noted α} {f : Feed α} (hn : Lexical n.notes) (hf : Lexical f.pending) :
    Lexical (f.cons n).pending := by
  rw [pending_cons]
  exact hn.append hf

theorem Feed.lexical_ofUndecoded (u : Undecoded) : Lexical (Feed.ofUndecoded u).pending := by
  induction u using Feed.ofUndecoded.induct with
  | case1 u refused c rest _ hnext ih =>
    rw [ofUndecoded_of_some hnext]
    exact lexical_pending_cons (u.lexical_notes refused) ih
  | case2 u refused _ hnext =>
    rw [ofUndecoded_of_none hnext]
    exact u.lexical_notes refused

/-! ## Lexemes -/

/-- Every finding of a list is about the text. -/
def FindsLexical (fs : List Finding) : Prop := ∀ f ∈ fs, f.fault.isLexical = true

namespace FindsLexical

variable {fs fs' : List Finding}

theorem nil : FindsLexical [] := fun _ h => nomatch h

theorem single {f : Finding} (h : f.fault.isLexical = true) : FindsLexical [f] := by
  intro f' hf'
  obtain rfl := List.mem_singleton.1 hf'
  exact h

theorem append (h : FindsLexical fs) (h' : FindsLexical fs') : FindsLexical (fs ++ fs') := by
  intro f hf
  rcases List.mem_append.1 hf with hf | hf
  · exact h f hf
  · exact h' f hf

theorem ite {φ : Prop} [Decidable φ] (h : FindsLexical fs) (h' : FindsLexical fs') : FindsLexical (if φ then fs else fs') := by
  split
  · exact h
  · exact h'

end FindsLexical

theorem Numeral.findsLexical (n : Numeral) : FindsLexical n.findings := by
  unfold findings
  split
  · exact .ite (.single rfl) .nil
  · exact .ite (.single rfl) .nil
  · refine .append ?_ (.ite (.single rfl) .nil)
    split
    · exact .single rfl
    · exact .nil

theorem QuotedItem.findsLexical (offset : Nat) (items : List QuotedItem) : FindsLexical (findings offset items) := by
  fun_induction findings offset items with
  | case1 => exact .nil
  | case2 offset width seen items ih => exact .append (.single rfl) ih
  | case3 offset item items _ ih => exact ih

namespace Lexeme

theorem findsLexical_blockComment (cs : List Char) : FindsLexical (blockComment cs).findings := by
  unfold blockComment
  split
  · exact .nil
  · exact .single rfl

theorem findsLexical_symbol (c : Char) (cs : List Char) : FindsLexical (symbol c cs).findings := by
  unfold symbol
  split
  · exact .nil
  · exact .single rfl

theorem findsLexical_runeCount (count inside : Nat) : FindsLexical (Quoted.runeCount count inside) := by
  unfold Quoted.runeCount
  split
  · exact .single rfl
  · exact .nil
  · exact .single rfl

theorem findsLexical_numeral (cs : List Char) : FindsLexical (Numeral.lexeme cs).findings :=
  .append (Numeral.findsLexical _) (.ite .nil (.single rfl))

theorem findsLexical_string (cs : List Char) : FindsLexical (Quoted.string cs).findings :=
  .append (QuotedItem.findsLexical _ _) (.ite .nil (.single rfl))

theorem findsLexical_rune (cs : List Char) : FindsLexical (Quoted.rune cs).findings :=
  .append (QuotedItem.findsLexical _ _) (.ite (findsLexical_runeCount _ _) (.single rfl))

theorem findsLexical_rawString (cs : List Char) : FindsLexical (Quoted.rawString cs).findings :=
  .append .nil (.ite .nil (.single rfl))

theorem findsLexical_ite {φ : Prop} [Decidable φ] {l l' : Lexeme} (h : FindsLexical l.findings) (h' : FindsLexical l'.findings) :
    FindsLexical (if φ then l else l').findings := by
  split
  · exact h
  · exact h'

/-- Whatever a text starts with, what is found in its first lexeme is about the text. -/
theorem findsLexical_read (c : Char) (cs : List Char) : FindsLexical (read c cs).findings := by
  unfold read
  refine findsLexical_ite .nil (findsLexical_ite .nil (findsLexical_ite .nil
    (findsLexical_ite (findsLexical_blockComment _) (findsLexical_ite .nil ?_))))
  exact findsLexical_ite (findsLexical_numeral _) (findsLexical_ite (findsLexical_string _)
    (findsLexical_ite (findsLexical_rawString _) (findsLexical_ite (findsLexical_rune _) (findsLexical_symbol c cs))))

end Lexeme

theorem findsLexical_of_mem_lexemes (text : List Char) : ∀ l ∈ lexemes text, FindsLexical l.findings := by
  fun_induction lexemes text with
  | case1 => rintro _ ⟨⟩
  | case2 c cs ih =>
    intro l hl
    rcases List.mem_cons.1 hl with rfl | hl
    · exact Lexeme.findsLexical_read c cs
    · exact ih l hl

/-! ## Tokens -/

/-- Looking splits what is pending, so if all of it is lexical, both parts are. -/
theorem Feed.lexical_look {α : Type} {f : Feed α} (h : Lexical f.pending) (k : Nat) :
    Lexical (f.look k).1 ∧ Lexical (f.look k).2.pending := by
  rw [← f.look_append_pending k] at h
  exact ⟨h.left, h.right⟩

theorem Feed.lexical_drop {α : Type} {f : Feed α} (h : Lexical f.pending) (k : Nat) : Lexical (f.drop k).pending := by
  intro d hd
  refine h d ?_
  rcases List.mem_append.1 hd with hd | hd
  · obtain ⟨n, hn, hd⟩ := List.mem_flatMap.1 hd
    exact List.mem_append_left _ (List.mem_flatMap.2 ⟨n, List.mem_of_mem_drop hn, hd⟩)
  · exact List.mem_append_right _ hd

namespace Lexeme

theorem lexical_lookFindings (path : SourcePath) (fs : List Finding) (text : Feed Place)
    (hfs : FindsLexical fs) (htext : Lexical text.pending) :
    Lexical (lookFindings path fs text).1 ∧ Lexical (lookFindings path fs text).2.pending := by
  induction fs generalizing text with
  | nil => exact ⟨.nil, htext⟩
  | cons f fs ih =>
    obtain ⟨hdue, hlooked⟩ := Feed.lexical_look htext f.seen
    obtain ⟨hrest, hafter⟩ := ih _ (fun f' hf' => hfs f' (List.mem_cons_of_mem _ hf')) hlooked
    refine ⟨hdue.append fun d hd => ?_, hafter⟩
    rcases List.mem_cons.1 hd with rfl | hd
    · exact hfs f List.mem_cons_self
    · exact hrest d hd

theorem lexical_take (path : SourcePath) {l : Lexeme} (hl : FindsLexical l.findings) {text : Feed Place} (htext : Lexical text.pending) :
    Lexical (l.take path text).1 ∧ Lexical (l.take path text).2.pending := by
  obtain ⟨hfound, hlooked⟩ := lexical_lookFindings path l.findings text hl htext
  obtain ⟨hdue, hafter⟩ := Feed.lexical_look hlooked l.seen
  exact ⟨hfound.append hdue, Feed.lexical_drop hafter _⟩

end Lexeme

theorem Feed.lexical_ofLexemes (path : SourcePath) (armed : Bool) (text : Feed Place) (ls : List Lexeme)
    (hls : ∀ l ∈ ls, FindsLexical l.findings) (htext : Lexical text.pending) : Lexical (Feed.ofLexemes path armed text ls).pending := by
  induction ls generalizing armed text with
  | nil =>
    have hdue := (lexical_look htext 1).1
    unfold ofLexemes
    cases armed with
    | true => simpa [pending] using hdue
    | false => simpa [pending] using hdue
  | cons l ls ih =>
    obtain ⟨hdue, hrest⟩ := Lexeme.lexical_take path (hls l List.mem_cons_self) htext
    have hls' := fun l' hl' => hls l' (List.mem_cons_of_mem l hl')
    simp only [ofLexemes]
    split
    · exact lexical_pending_cons hdue (ih _ _ hls' hrest)
    · rw [pending_noteFirst]
      exact hdue.append (ih _ _ hls' hrest)

/-- Whatever a source reports before it is parsed is lexical. -/
theorem Feed.lexical_tokens (path : SourcePath) (bytes : List UInt8) : Lexical (Feed.tokens path bytes).pending :=
  lexical_ofLexemes path false _ _ (findsLexical_of_mem_lexemes _) (lexical_ofUndecoded _)

end GoSyntax
