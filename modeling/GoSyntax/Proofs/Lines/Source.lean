import Mathlib.Data.List.Basic
import GoSyntax.Proofs.Lexical.Lines
import GoSyntax.Proofs.Lines.Parts

/-!
# Where the tokens of a source stand

A token stands on the line that the text reaches before it, and a `;` that is put in on the line that it reaches behind the token before.
The tokens follow one another in the text, so their lines never go back. What is reported of a source stands on the line that its text, or
its bytes, reach at some place. All of these lines are between the first and the last line of the source.
-/

namespace GoSyntax

open Utf8

/-- A line of a source with these bytes. -/
structure Location.IsLineOf (path : SourcePath) (bytes : List UInt8) (l : Location) : Prop where
  path_eq : l.path = path
  first_le : 1 ≤ l.line
  le_last : l.line ≤ 1 + bytes.count 10

section Text

variable (path : SourcePath) (bytes : List UInt8)

/-- Further on in a text are later lines. -/
theorem line_lineAt_le (text : List Char) {m n : Nat} (h : m ≤ n) : (lineAt path text m).line ≤ (lineAt path text n).line :=
  Nat.add_le_add_left ((List.take_sublist_take_left h).count_le '\n') 1

/-- The lines that the text of a source reaches are lines of the source. -/
theorem isLineOf_lineAt (n : Nat) : (lineAt path (Feed.ofBytes path bytes).chars n).IsLineOf path bytes := by
  refine ⟨rfl, Nat.le_add_right 1 _, Nat.add_le_add_left ?_ 1⟩
  have hcount : (Feed.ofBytes path bytes).chars.count '\n' = bytes.count 10 := count_chars_ofUndecoded (.ofBytes path bytes)
  rw [← hcount]
  exact (List.take_sublist n _).count_le '\n'

/-! ## Tokens -/

/-- Where tokens that are spelled start and end. -/
def spanEnds (ss : List Span) : List Nat := ss.flatMap fun s => [s.start, s.stop]

/-- The tokens of a text stand where tokens that are spelled start or end. -/
theorem terminated_along (text : List Char) (arms : TokenKind → Bool) (ss : List Span) :
    Along ((terminated path text arms ss).map Token.loc) ((spanEnds ss).map (lineAt path text)) := by
  induction ss with
  | nil => exact .refl _
  | cons s ss ih =>
    refine .cons _ ?_
    change Along _ (lineAt path text s.stop :: (spanEnds ss).map (lineAt path text))
    rw [List.map_append]
    split
    · exact ih.cons _
    · exact ih.pass

/-- Tokens that are spelled follow one another. -/
theorem pairwise_spanEnds (n : Nat) (ls : List Lexeme) : (spanEnds (spans n ls)).Pairwise (· ≤ ·) := by
  have hordered : ∀ s ∈ spans n ls, s.start ≤ s.stop := fun s hs => (start_le_stop_of_mem_spans hs).1
  refine List.pairwise_flatMap.2 ⟨fun s hs => by simpa using hordered s hs, ?_⟩
  refine (pairwise_spans n ls).imp_of_mem fun {s t} hs ht hst => ?_
  have hs := hordered s hs
  have ht := hordered t ht
  simp only [List.mem_cons, List.not_mem_nil, or_false]
  rintro x (rfl | rfl) y (rfl | rfl) <;> omega

/-- The tokens of a source stand on lines that it reaches in turn. -/
theorem tokens_along : ∃ ns : List Nat, ns.Pairwise (· ≤ ·)
    ∧ Along ((tokenize path bytes).1.map Token.loc) (ns.map (lineAt path (Feed.ofBytes path bytes).chars)) := by
  have hvalues : (tokenize path bytes).1 = _ := Feed.values_tokens path bytes
  refine ⟨spanEnds (spans 0 (lexemes (Feed.ofBytes path bytes).chars)) ++ [(Feed.ofBytes path bytes).chars.length], ?_, ?_⟩
  · refine List.pairwise_append.2 ⟨pairwise_spanEnds 0 _, List.pairwise_singleton _ _, fun m hm n hn => ?_⟩
    obtain rfl := List.mem_singleton.1 hn
    obtain ⟨s, hs, hm⟩ := List.mem_flatMap.1 hm
    have hbounds := start_le_stop_of_mem_spans hs
    rw [Nat.zero_add, sum_width_lexemes] at hbounds
    simp only [List.mem_cons, List.not_mem_nil, or_false] at hm
    omega
  · rw [hvalues, List.map_append, List.map_append]
    exact (terminated_along path _ _ _).append (.refl _)

/-- The lines of tokens never go back. -/
theorem pairwise_line_tokens : ((tokenize path bytes).1.map Token.loc).Pairwise fun a b => a.line ≤ b.line := by
  obtain ⟨ns, hns, halong⟩ := tokens_along path bytes
  refine halong.pairwise (fun a => Nat.le_refl a.line) (List.pairwise_map.2 ?_)
  exact hns.imp fun {m n} => line_lineAt_le path _

theorem isLineOf_token : ∀ l ∈ (tokenize path bytes).1.map Token.loc, l.IsLineOf path bytes := by
  intro l hl
  obtain ⟨ns, -, halong⟩ := tokens_along path bytes
  obtain ⟨n, -, rfl⟩ := List.mem_map.1 (halong.subset hl)
  exact isLineOf_lineAt path bytes n

/-! ## Lexical diagnostics -/

/-- What is refused of bytes stands behind some of them. -/
theorem count_le_of_mem_beforeRefused {before : List UInt8} {segs : List (List UInt8)} {b : List UInt8}
    (h : b ∈ beforeRefused before segs) : b.count 10 ≤ (before ++ segs.flatten).count 10 := by
  induction segs generalizing before with
  | nil => exact absurd h List.not_mem_nil
  | cons seg segs ih =>
    rw [beforeRefused, List.mem_append] at h
    rw [List.flatten_cons, ← List.append_assoc]
    rcases h with h | h
    · split at h
      · exact absurd h List.not_mem_nil
      · obtain rfl := List.mem_singleton.1 h
        have hsub : List.Sublist (before ++ spelled seg) (before ++ seg ++ segs.flatten) := by
          conv => rhs; rw [← spelled_append_refused seg]
          simp
        exact hsub.count_le 10
    · exact ih h

/-- What is refused stands on a line of the source. -/
theorem isLineOf_refusal {d : Diagnostic} (h : d ∈ Feed.refusals path [] (segments bytes)) : d.loc.IsLineOf path bytes := by
  obtain ⟨before, hbefore, rfl⟩ := List.mem_map.1 h
  have hcount := count_le_of_mem_beforeRefused hbefore
  rw [List.nil_append, flatten_segments] at hcount
  exact ⟨rfl, Nat.le_add_right 1 _, Nat.add_le_add_left hcount 1⟩

/-- What is found in lexemes stands on a line that the text reaches. -/
theorem exists_lineAt_of_mem_found {text : List Char} {n : Nat} {ls : List Lexeme} {d : Diagnostic} (h : d ∈ found path text n ls) :
    ∃ m, d.loc = lineAt path text m := by
  induction ls generalizing n with
  | nil => exact absurd h List.not_mem_nil
  | cons l ls ih =>
    rcases List.mem_append.1 h with h | h
    · obtain ⟨f, -, rfl⟩ := List.mem_map.1 h
      exact ⟨_, rfl⟩
    · exact ih h

/-- Lexical diagnostics stand on lines of the source. -/
theorem isLineOf_lexical : ∀ d ∈ (tokenize path bytes).2, d.loc.IsLineOf path bytes := by
  intro d hd
  rcases List.mem_append.1 ((Feed.pending_tokens_perm path bytes).mem_iff.1 hd) with hd | hd
  · rw [(Feed.ofBytes_segments path bytes).2] at hd
    exact isLineOf_refusal path bytes hd
  · obtain ⟨n, hn⟩ := exists_lineAt_of_mem_found path hd
    rw [hn]
    exact isLineOf_lineAt path bytes n

end Text

end GoSyntax
