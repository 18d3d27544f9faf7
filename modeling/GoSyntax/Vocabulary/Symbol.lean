import GoSyntax.Vocabulary.Operator
import GoSyntax.Vocabulary.Punctuation

/-!
# Symbols: what is read by its longest spelling

Operators and punctuation marks share their characters (`<`, `<-`, `<<`, `<<=`), so they are read together and the longest
spelling wins. No spelling has more than three characters, and the spellings are not closed under cutting: `...` is one, `..`
is none. So a reader tries three characters, then two, then one.
-/

namespace GoSyntax

/-- A token of fixed spelling: an operator or a punctuation mark. -/
inductive Symbol where
  | operator (op : Operator)
  | punctuation (mark : Punctuation)
  deriving DecidableEq, Repr

namespace Symbol

/-- Every symbol: the operators, then the marks. -/
def all : List Symbol := Operator.all.map .operator ++ Punctuation.all.map .punctuation

/-- The spelling of a symbol. -/
def spelling : Symbol → String
  | .operator o => o.spelling
  | .punctuation p => p.spelling

/-- The number of characters in the longest spelling. -/
def maxLength : Nat := 3

/-- The symbol with a spelling: no operator is spelled as a mark, so the order of the two tables does not show. -/
def ofSpelling? (text : String) : Option Symbol :=
  (Operator.ofSpelling? text).map .operator <|> (Punctuation.ofSpelling? text).map .punctuation

/-- The symbol spelled by the first `n` characters of a text, or by fewer of them: the longest spelling wins. -/
def longestWithin? (text : List Char) : Nat → Option (Symbol × Nat)
  | 0 => none
  | n + 1 =>
    if n < text.length then
      match ofSpelling? (String.ofList (text.take (n + 1))) with
      | some s => some (s, n + 1)
      | none => longestWithin? text n
    else longestWithin? text n

/-- The symbol with the longest spelling that a text begins with, and the number of its characters. -/
def longest? (text : List Char) : Option (Symbol × Nat) := longestWithin? (text.take maxLength) maxLength

/-- The symbols spelled with `n` characters, operators first. -/
def ofLength (n : Nat) : List Symbol := all.filter (fun s => s.spelling.length == n)

theorem mem_all (s : Symbol) : s ∈ all := by
  cases s with
  | operator o => exact List.mem_append_left _ (List.mem_map_of_mem (Operator.mem_all o))
  | punctuation p => exact List.mem_append_right _ (List.mem_map_of_mem (Punctuation.mem_all p))

theorem ofSpelling?_spelling (s : Symbol) : ofSpelling? s.spelling = some s := by
  cases s with
  | operator o => simp [ofSpelling?, spelling, Operator.ofSpelling?_spelling]
  | punctuation p => cases p <;> decide +kernel

end Symbol

end GoSyntax
