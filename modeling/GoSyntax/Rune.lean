import GoSyntax.Text.Utf8
import GoSyntax.Lookahead

/-!
# Runes: the characters of a source and their lines

The bytes of a source are read as UTF-8. A refused sequence is skipped up to the next byte that can start a character and costs
one diagnostic, at the line of the character after it (or of the end). A byte order mark is skipped if it is the first character
read. The result is a feed of places: a place holds a character and its line, and the last place, the end of the text, holds no
character and the line where the text ends. Line 1 is the first; a line feed belongs to the line it ends.
-/

namespace GoSyntax

/-- What stands at a place of the text: a character, or none at the end, and the line. -/
structure Place where
  char : Option Char
  line : Nat
  deriving DecidableEq, Repr

instance : Inhabited Place := ⟨⟨none, 1⟩⟩

/-- The character that marks the byte order at the start of a text. -/
def byteOrderMark : Char := '\uFEFF'

/-- The line after a character. -/
def lineAfter (c : Char) (line : Nat) : Nat := if c = '\n' then line + 1 else line

/-- Bytes of a source that have not been read: their line, and whether they are all bytes of the source. -/
structure Undecoded where
  path : SourcePath
  bytes : List UInt8
  line : Nat
  atStart : Bool
  deriving DecidableEq, Repr

namespace Undecoded

/-- The bytes of a whole source. -/
def ofBytes (path : SourcePath) (bytes : List UInt8) : Undecoded := ⟨path, bytes, 1, true⟩

/-- The next character to hand on, with the number of refused sequences before it and the bytes after it. -/
def nextRune (u : Undecoded) : Nat × Option (Char × List UInt8) :=
  match Utf8.next u.bytes with
  | (refused, some (c, rest)) =>
    if u.atStart && c == byteOrderMark then (refused + (Utf8.next rest).1, (Utf8.next rest).2)
    else (refused, some (c, rest))
  | (refused, none) => (refused, none)

/-- One diagnostic for each refused sequence. -/
def notes (u : Undecoded) (refused : Nat) : List Diagnostic := List.replicate refused ⟨.illegalUtf8, ⟨u.path, u.line⟩⟩

/-- Reads one character; at the end there is none, however often it is asked for. -/
def next (u : Undecoded) : Noted Place × Undecoded :=
  match u.nextRune with
  | (refused, some (c, rest)) => (⟨⟨some c, u.line⟩, u.notes refused⟩, ⟨u.path, rest, lineAfter c u.line, false⟩)
  | (refused, none) => (⟨⟨none, u.line⟩, u.notes refused⟩, ⟨u.path, [], u.line, false⟩)

theorem length_lt_of_nextRune {u : Undecoded} {c : Char} {rest : List UInt8} (h : u.nextRune.2 = some (c, rest)) :
    rest.length < u.bytes.length := by
  rcases hn : Utf8.next u.bytes with ⟨refused, _ | ⟨c', rest'⟩⟩
  · simp [nextRune, hn] at h
  · have hl := Utf8.length_lt_of_next (congrArg Prod.snd hn)
    simp only [nextRune, hn] at h
    split at h
    · exact Nat.lt_trans (Utf8.length_lt_of_next h) hl
    · simp only [Option.some.injEq, Prod.mk.injEq] at h
      obtain ⟨-, rfl⟩ := h
      exact hl

end Undecoded

/-- The places of the text that bytes spell. -/
def Feed.ofUndecoded (u : Undecoded) : Feed Place :=
  match u.nextRune, @Undecoded.length_lt_of_nextRune u with
  | (refused, some (c, rest)), _ =>
    (Feed.ofUndecoded ⟨u.path, rest, lineAfter c u.line, false⟩).cons ⟨⟨some c, u.line⟩, u.notes refused⟩
  | (refused, none), _ => ⟨[], ⟨⟨none, u.line⟩, u.notes refused⟩⟩
termination_by u.bytes.length
decreasing_by rename_i h; exact h rfl

theorem Feed.ofUndecoded_of_some {u : Undecoded} {refused : Nat} {c : Char} {rest : List UInt8}
    (h : u.nextRune = (refused, some (c, rest))) : Feed.ofUndecoded u
      = (Feed.ofUndecoded ⟨u.path, rest, lineAfter c u.line, false⟩).cons ⟨⟨some c, u.line⟩, u.notes refused⟩ := by
  rw [Feed.ofUndecoded]
  split <;> simp_all

theorem Feed.ofUndecoded_of_none {u : Undecoded} {refused : Nat} (h : u.nextRune = (refused, none)) :
    Feed.ofUndecoded u = ⟨[], ⟨⟨none, u.line⟩, u.notes refused⟩⟩ := by
  rw [Feed.ofUndecoded]
  split <;> simp_all

/-- The places of a source. -/
def Feed.ofBytes (path : SourcePath) (bytes : List UInt8) : Feed Place := Feed.ofUndecoded (Undecoded.ofBytes path bytes)

/-- The characters of a text. -/
def Feed.chars (f : Feed Place) : List Char := f.items.filterMap (fun n => n.value.char)

/-- A source read character by character. -/
abbrev RuneReader := Lookahead Undecoded Place

namespace RuneReader

/-- A reader at the start of a source. -/
def ofBytes (path : SourcePath) (bytes : List UInt8) : RuneReader := .start (.ofBytes path bytes)

/-- The character `k` places ahead, none past the end. No text has more characters than bytes, so a place farther ahead than
that is the end. -/
def peek (r : RuneReader) (k : Nat) : Option Char × RuneReader :=
  let (place, r) := Lookahead.peek Undecoded.next (min k (r.queue.length + r.state.bytes.length)) r
  (place.char, r)

/-- Takes the next character. -/
def consume (r : RuneReader) : Option Char × RuneReader :=
  let (place, r) := Lookahead.consume Undecoded.next r
  (place.char, r)

/-- Where the next character stands that will be taken. -/
def location (r : RuneReader) : Location :=
  match r.queue with
  | place :: _ => ⟨r.state.path, place.line⟩
  | [] => ⟨r.state.path, r.state.line⟩

end RuneReader

end GoSyntax
