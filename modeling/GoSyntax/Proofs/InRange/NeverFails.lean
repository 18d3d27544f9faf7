import Mathlib.Data.List.Basic
import GoSyntax.Proofs.InRange.Lists
import GoSyntax.Proofs.InRange.Literal
import GoSyntax.Proofs.InRange.Nesting

/-!
# Nothing fails while a source is read

Reading a source takes operations that are not defined everywhere: a place in a queue or a list, a row of a table, a number that must
fit into a word, a code point that must be a character's. Each of them is looked at where it is used, with everything the parser may
have read before, and each is defined there. The last theorem puts this together for a source of less than `2 ^ 31` bytes.
-/

namespace GoSyntax

/-! ## Rows of tables -/

/-- The table of keywords: the spelling, the category, and whether a line break behind it ends the statement. -/
def Keyword.table : List (Keyword × String × Category × Bool) := all.map fun k => (k, k.spelling, k.category, k.endsStatement)

/-- The table of operators: the spelling, the family, and whether it may stand before an operand. -/
def Operator.table : List (Operator × String × Family × Bool) := all.map fun o => (o, o.spelling, o.family, o.standsBefore)

/-- The table of marks: the spelling, the category, and whether a line break behind it ends the statement. -/
def Punctuation.table : List (Punctuation × String × Category × Bool) :=
  all.map fun p => (p, p.spelling, p.category, p.endsStatement)

/-- Every entry has a row, and the first row found for it is its own. -/
structure TablesComplete : Prop where
  keyword : ∀ k : Keyword, Keyword.table.lookup k = some (k.spelling, k.category, k.endsStatement)
  operator : ∀ o : Operator, Operator.table.lookup o = some (o.spelling, o.family, o.standsBefore)
  punctuation : ∀ p : Punctuation, Punctuation.table.lookup p = some (p.spelling, p.category, p.endsStatement)

theorem tablesComplete : TablesComplete where
  keyword k := List.lookup_graph (fun k : Keyword => (k.spelling, k.category, k.endsStatement)) (Keyword.mem_all k)
  operator o := List.lookup_graph (fun o : Operator => (o.spelling, o.family, o.standsBefore)) (Operator.mem_all o)
  punctuation p := List.lookup_graph (fun p : Punctuation => (p.spelling, p.category, p.endsStatement)) (Punctuation.mem_all p)

/-! ## Places in the queue -/

/-- The token that a reader looks at is in the queue. -/
theorem TokenReader.getElem?_queue_peek (r : TokenReader) (k : Nat) : (r.peek k).2.queue[k]? = some (r.peek k).1 := by
  have hk : k < (Lookahead.reach Unscanned.next k r).queue.length := Lookahead.lt_length_queue_reach Unscanned.next k r
  change (Lookahead.reach Unscanned.next k r).queue[k]? = some ((Lookahead.reach Unscanned.next k r).queue.getD k default)
  rw [List.getD_eq_getElem?_getD, List.getElem?_eq_getElem hk]
  rfl

/-! ## All together -/

/-- No operation on the way from bytes to a tree fails. What may fail is defined with a result that may be missing, and agrees
with the definition that cannot fail. -/
structure NeverFails (path : SourcePath) (bytes : List UInt8) : Prop where
  /-- A finished code point is a character's, so no text is cut short. -/
  runes : ∀ rest, Utf8.next? rest = some (Utf8.next rest)
  /-- Lines are counted in 32 bits. -/
  lines : ∀ place ∈ (Feed.ofBytes path bytes).items ++ [(Feed.ofBytes path bytes).last], place.value.line < 2 ^ 32
  /-- The digits of an escape are added up in 32 bits, and a byte escape is a byte. -/
  escapes : ∀ quote cs, Escape.read? quote cs = some (Escape.read quote cs)
  /-- The exponent of a numeral of the text is kept in 64 bits. -/
  exponents : ∀ cs, cs <:+ (Feed.ofBytes path bytes).chars → ∀ whole fraction exponent imaginary,
    (Numeral.read cs).1 = .decimal whole fraction exponent imaginary →
      Numeral.floatValue64? whole fraction exponent = some (Numeral.floatValue? whole fraction exponent)
  /-- The queue of a reader holds the token that is looked at. -/
  queue : ∀ (r : TokenReader) k, (r.peek k).2.queue[k]? = some (r.peek k).1
  /-- The tables have a row for each entry. -/
  tables : TablesComplete
  /-- A set has a bit for each kind of token. -/
  slots : ∀ kind : TokenKind, kind.slot < 128
  /-- The indices of a slice have their places. -/
  indices : ∀ p level operand c, Grammar.indexOrSlice? p level operand c = some (Grammar.indexOrSlice p level operand c)
  /-- What starts with expressions has a first one. -/
  statements : ∀ p position level c, Grammar.simple? p position level c = some (Grammar.simple p position level c)
  communications : ∀ p c, Grammar.communication? p c = some (Grammar.communication p c)
  guards : ∀ s, Grammar.isTypeSwitchGuard? s = some (Grammar.isTypeSwitchGuard s)
  /-- The nesting level stays in 32 bits: it does not matter what would be done otherwise. -/
  levels : ∀ trap, Parsed.ofParse (Grammar.runGuarded trap Grammar.sourceFile) path bytes = parseFile path bytes
    ∧ Parsed.ofParse (Grammar.runGuarded trap Grammar.exprFragment) path bytes = parseExpr path bytes
    ∧ Parsed.ofParse (Grammar.runGuarded trap Grammar.stmtFragment) path bytes = parseStmt path bytes

/-- The nesting level of a parser is in range as long as the source is. -/
theorem Grammar.ofParse_runGuarded {α : Type} {parser : Productions → Parse α}
    (h : ∀ {B : Bond (Nat × Nat)} {p q : Productions}, p.AreBonded B q → Bonded B 0 (parser p) (parser q)) (trap : Productions)
    (path : SourcePath) {bytes : List UInt8} (hbytes : bytes.length < 2 ^ 31) :
    Parsed.ofParse (runGuarded trap parser) path bytes = .ofBytes parser path bytes := by
  have hopen : (Cursor.start path bytes).openings < 2 ^ 31 := Nat.lt_of_le_of_lt (Cursor.openings_start_le path bytes) hbytes
  rw [Parsed.ofBytes, Parsed.ofParse, Parsed.ofParse, runGuarded_eq h trap hopen]

/-- While a source of less than `2 ^ 31` bytes is read, whatever it holds, nothing fails. -/
theorem neverFails (path : SourcePath) {bytes : List UInt8} (hbytes : bytes.length < 2 ^ 31) : NeverFails path bytes where
  runes := Utf8.next?_eq
  lines place hplace := by
    have hline := Feed.line_ofBytes_le path bytes place hplace
    omega
  escapes := Escape.read?_eq
  exponents cs hcs whole fraction exponent imaginary hread := by
    have hchars := Feed.length_chars_le path bytes
    have hlength := hcs.length_le
    exact Numeral.floatValue64?_of_read (by omega) hread
  queue := TokenReader.getElem?_queue_peek
  tables := tablesComplete
  slots := TokenKind.slot_lt
  indices p level operand := congrFun (Grammar.indexOrSlice?_eq p level operand)
  statements p position level := congrFun (Grammar.simple?_eq p position level)
  communications p := congrFun (Grammar.communication?_eq p)
  guards := Grammar.isTypeSwitchGuard?_eq
  levels trap := by
    refine ⟨Grammar.ofParse_runGuarded ?_ trap path hbytes, Grammar.ofParse_runGuarded ?_ trap path hbytes,
      Grammar.ofParse_runGuarded ?_ trap path hbytes⟩
    · intro B p q _
      exact Bonded.sourceFile
    · intro B p q _
      exact Bonded.exprFragment
    · intro B p q _
      exact Bonded.stmtFragment

/-- In `a[1:2]`, say. -/
theorem neverFails_slice : NeverFails ⟨0, "p.go"⟩ [97, 91, 49, 58, 50, 93] :=
  have h : [97, 91, 49, 58, 50, 93].length < 2 ^ 31 := by decide
  neverFails ⟨0, "p.go"⟩ h

end GoSyntax
