import Mathlib.Data.List.Infix
import GoSyntax.Vocabulary.Symbol

/-!
# The longest spelling

The search for a symbol tries three characters of the text, then two, then one, and takes the first spelling that it meets. So what it
finds is the longest spelling that the text begins with: no spelling is longer than three characters, and no two symbols are spelled
the same, so there is one symbol of a length at most. That the spellings are not closed under cutting does no harm, since the search
goes down and not up.
-/

namespace GoSyntax.Symbol

/-! ## Spellings -/

/-- A text begins with the spelling of a symbol. -/
def Begins (s : Symbol) (text : List Char) : Prop := s.spelling.toList <+: text

theorem length_spelling : ∀ s ∈ all, 0 < s.spelling.length ∧ s.spelling.length ≤ maxLength := by decide +kernel

theorem length_spelling_pos (s : Symbol) : 0 < s.spelling.length := (length_spelling s s.mem_all).1

theorem length_spelling_le (s : Symbol) : s.spelling.length ≤ maxLength := (length_spelling s s.mem_all).2

theorem spelling_of_ofSpelling? {text : String} {s : Symbol} (h : ofSpelling? text = some s) : s.spelling = text := by
  rw [ofSpelling?] at h
  rcases Option.or_eq_some_iff.1 ((Option.orElse_eq_or ..).symm.trans h) with h | ⟨-, h⟩
  · obtain ⟨o, ho, rfl⟩ := Option.map_eq_some_iff.1 h
    exact eq_of_beq (List.find?_some (p := fun o : Operator => o.spelling == text) ho)
  · obtain ⟨p, hp, rfl⟩ := Option.map_eq_some_iff.1 h
    exact eq_of_beq (List.find?_some (p := fun p : Punctuation => p.spelling == text) hp)

/-- The two tables together give each spelling its symbol. -/
theorem ofSpelling?_eq_some_iff {text : String} {s : Symbol} : ofSpelling? text = some s ↔ s.spelling = text := by
  refine ⟨spelling_of_ofSpelling?, ?_⟩
  rintro rfl
  exact ofSpelling?_spelling s

/-- No two symbols are spelled the same. -/
theorem spelling_inj {s t : Symbol} (h : s.spelling = t.spelling) : s = t := by
  have hs := ofSpelling?_spelling s
  rw [h, ofSpelling?_spelling] at hs
  exact (Option.some.inj hs).symm

variable {text front rest : List Char} {s t : Symbol} {a : Char} {n m : Nat}

theorem Begins.take_eq (h : s.Begins text) : text.take s.spelling.length = s.spelling.toList := by
  rw [← String.length_toList]
  exact (List.prefix_iff_eq_take.1 h).symm

theorem Begins.length_le (h : s.Begins text) : s.spelling.length ≤ text.length := by
  rw [← String.length_toList]
  exact List.IsPrefix.length_le h

/-- A text begins with one symbol of a length at most. -/
theorem Begins.unique (hs : s.Begins text) (ht : t.Begins text) (h : s.spelling.length = t.spelling.length) : s = t := by
  refine spelling_inj (String.toList_inj.1 ?_)
  rw [← hs.take_eq, ← ht.take_eq, h]

/-- Three characters tell with which symbols a text begins. -/
theorem begins_take_iff : s.Begins (text.take maxLength) ↔ s.Begins text := by
  rw [Begins, List.prefix_take_iff, String.length_toList]
  exact and_iff_left s.length_spelling_le

/-- A symbol ends before a character that does not stand in it. -/
theorem begins_append_cons_iff (ha : a ∉ s.spelling.toList) : s.Begins (front ++ a :: rest) ↔ s.Begins front := by
  refine ⟨fun h => ?_, fun h => List.IsPrefix.trans h (List.prefix_append front _)⟩
  have hfront : front ++ [a] <+: front ++ a :: rest := ⟨rest, by rw [List.append_assoc, List.singleton_append]⟩
  rcases List.prefix_or_prefix_of_prefix h hfront with h | h
  · refine (List.prefix_concat_iff.1 h).resolve_left fun heq => ha ?_
    rw [heq]
    exact List.mem_append_right _ List.mem_cons_self
  · exact absurd (h.subset (List.mem_append_right _ List.mem_cons_self)) ha

/-! ## The search -/

/-- The symbol that the first characters spell, if there are so many. -/
theorem ofSpelling?_take_eq_some_iff (hn : n ≤ text.length) :
    ofSpelling? (String.ofList (text.take n)) = some s ↔ s.spelling.length = n ∧ s.Begins text := by
  rw [ofSpelling?_eq_some_iff]
  constructor
  · intro h
    refine ⟨?_, ?_⟩
    · rw [h, ← String.length_toList, String.toList_ofList, List.length_take_of_le hn]
    · rw [Begins, h, String.toList_ofList]
      exact List.take_prefix n text
  · rintro ⟨rfl, h⟩
    rw [h.take_eq, String.ofList_toList]

/-- A step of the search ends it with a symbol of the length that is tried, or there is none of that length. -/
theorem longestWithin?_succ (text : List Char) (n : Nat) :
    (∃ s : Symbol, s.spelling.length = n + 1 ∧ s.Begins text ∧ longestWithin? text (n + 1) = some (s, n + 1))
      ∨ (∀ s : Symbol, s.Begins text → s.spelling.length ≠ n + 1) ∧ longestWithin? text (n + 1) = longestWithin? text n := by
  rw [longestWithin?]
  by_cases hn : n < text.length
  · rw [if_pos hn]
    cases hspelled : ofSpelling? (String.ofList (text.take (n + 1))) with
    | some s =>
      obtain ⟨hlength, hbegins⟩ := (ofSpelling?_take_eq_some_iff hn).1 hspelled
      exact .inl ⟨s, hlength, hbegins, rfl⟩
    | none =>
      refine .inr ⟨fun s hs hlength => ?_, rfl⟩
      rw [(ofSpelling?_take_eq_some_iff hn).2 ⟨hlength, hs⟩] at hspelled
      nomatch hspelled
  · rw [if_neg hn]
    refine .inr ⟨fun s hs hlength => ?_, rfl⟩
    have := hs.length_le
    omega

/-- A search from a length on finds the longest symbol of that length or less. -/
theorem longestWithin?_eq_some_iff : longestWithin? text n = some (s, m)
    ↔ s.spelling.length = m ∧ m ≤ n ∧ s.Begins text ∧ ∀ t : Symbol, t.Begins text → t.spelling.length ≤ n → t.spelling.length ≤ m := by
  induction n with
  | zero =>
    refine iff_of_false nofun ?_
    rintro ⟨rfl, hle, -⟩
    exact absurd s.length_spelling_pos (Nat.not_lt.2 hle)
  | succ n ih =>
    rcases longestWithin?_succ text n with ⟨t, ht, hbegins, hfound⟩ | ⟨hnone, hnext⟩
    · rw [hfound, Option.some_inj, Prod.mk.injEq]
      constructor
      · rintro ⟨rfl, rfl⟩
        exact ⟨ht, Nat.le_refl _, hbegins, fun _ _ hle => hle⟩
      · rintro ⟨rfl, hle, hs, hlongest⟩
        have hsame : s.spelling.length = n + 1 := Nat.le_antisymm hle (ht ▸ hlongest t hbegins ht.le)
        exact ⟨hbegins.unique hs (ht.trans hsame.symm), hsame.symm⟩
    · rw [hnext, ih]
      constructor
      · rintro ⟨hlength, hle, hs, hlongest⟩
        refine ⟨hlength, Nat.le_succ_of_le hle, hs, fun t ht htle => hlongest t ht ?_⟩
        exact Nat.le_of_lt_succ (Nat.lt_of_le_of_ne htle (hnone t ht))
      · rintro ⟨rfl, hle, hs, hlongest⟩
        have hshorter : s.spelling.length ≤ n := Nat.le_of_lt_succ (Nat.lt_of_le_of_ne hle (hnone s hs))
        exact ⟨rfl, hshorter, hs, fun t ht htle => hlongest t ht (Nat.le_succ_of_le htle)⟩

theorem longestWithin?_eq_none_iff : longestWithin? text n = none ↔ ∀ s : Symbol, s.Begins text → n < s.spelling.length := by
  induction n with
  | zero => exact iff_of_true rfl fun s _ => s.length_spelling_pos
  | succ n ih =>
    rcases longestWithin?_succ text n with ⟨t, ht, hbegins, hfound⟩ | ⟨hnone, hnext⟩
    · rw [hfound]
      exact iff_of_false nofun fun h => absurd (h t hbegins) (by omega)
    · rw [hnext, ih]
      refine forall₂_congr fun s hs => ?_
      have := hnone s hs
      omega

/-- What is found is the longest symbol that the text begins with, and its length. -/
theorem longest?_eq_some_iff : longest? text = some (s, n)
    ↔ s.spelling.length = n ∧ s.Begins text ∧ ∀ t : Symbol, n < t.spelling.length → ¬t.Begins text := by
  rw [longest?, longestWithin?_eq_some_iff]
  simp only [begins_take_iff]
  constructor
  · rintro ⟨rfl, -, hs, hlongest⟩
    exact ⟨rfl, hs, fun t ht hbegins => absurd (hlongest t hbegins t.length_spelling_le) (Nat.not_le.2 ht)⟩
  · rintro ⟨rfl, hs, hlongest⟩
    exact ⟨rfl, s.length_spelling_le, hs, fun t ht _ => Nat.not_lt.1 fun hlt => hlongest t hlt ht⟩

example : longest? "..x".toList = some (.punctuation .dot, 1) := by decide +kernel

/-- Nothing is found where the text begins with no symbol. -/
theorem longest?_eq_none_iff : longest? text = none ↔ ∀ s : Symbol, ¬s.Begins text := by
  rw [longest?, longestWithin?_eq_none_iff]
  refine forall_congr' fun s => ?_
  rw [begins_take_iff]
  exact forall_congr' fun _ => iff_of_false (Nat.not_lt.2 s.length_spelling_le) id

/-- What is found depends on the symbols that the text begins with and on nothing else. -/
theorem longest?_congr {text' : List Char} (h : ∀ s : Symbol, s.Begins text ↔ s.Begins text') : longest? text = longest? text' := by
  refine Option.ext fun found => ?_
  obtain ⟨s, n⟩ := found
  rw [longest?_eq_some_iff, longest?_eq_some_iff]
  simp only [h]

theorem longest?_take : longest? (text.take maxLength) = longest? text := longest?_congr fun _ => begins_take_iff

/-- What is found ends before a character that stands in no spelling. -/
theorem longest?_append_cons (ha : ∀ s ∈ all, a ∉ s.spelling.toList) (front : List Char) :
    longest? (front ++ a :: rest) = longest? front :=
  longest?_congr fun s => begins_append_cons_iff (ha s (mem_all s))

end GoSyntax.Symbol
