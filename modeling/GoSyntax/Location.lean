/-!
# Locations: a line of a source

A location is a line of a source, and a source is named by a path handle. Handles are given out by a path table, one for each
text, so that locations of the same source compare equal without looking at who asked for the handle. Two tables never share a
handle, even for the same text: a handle is the number of its table and its text.
-/

namespace GoSyntax

/-- A path handle: the table that gave it out and the text of the path. -/
structure SourcePath where
  table : Nat
  text : String
  deriving DecidableEq, Repr

/-- The paths that a table has given handles for, each once, the newest first. `id` tells the tables of one run apart. -/
structure PathTable where
  id : Nat
  texts : List String
  deriving DecidableEq, Repr

namespace PathTable

/-- A table that has given out no handle. -/
def empty (id : Nat) : PathTable := ⟨id, []⟩

/-- The handle of a path; a path that is new to the table is added to it. -/
def intern (t : PathTable) (text : String) : SourcePath × PathTable :=
  (⟨t.id, text⟩, if t.texts.contains text then t else { t with texts := text :: t.texts })

/-- The number of paths in the table. -/
def size (t : PathTable) : Nat := t.texts.length

/-- The table has given out no handle. -/
def isEmpty (t : PathTable) : Bool := t.texts.isEmpty

/-- A path is in the table once it has a handle, and no other comes in with it. -/
theorem mem_texts_intern (t : PathTable) (text other : String) :
    other ∈ (t.intern text).2.texts ↔ other = text ∨ other ∈ t.texts := by
  simp only [intern]
  split
  · next h =>
    rw [List.contains_iff_mem] at h
    constructor
    · exact Or.inr
    · rintro (rfl | h')
      · exact h
      · exact h'
  · exact List.mem_cons

/-- Handles agree exactly when the tables and the texts do. -/
theorem intern_fst_eq_iff (t u : PathTable) (a b : String) :
    (t.intern a).1 = (u.intern b).1 ↔ t.id = u.id ∧ a = b := by
  simp [intern]

end PathTable

/-- The path of a source that has none of its own. -/
def anonymousPath : String := "<input>"

/-- A line of a source; the first line is 1. -/
structure Location where
  path : SourcePath
  line : Nat
  deriving DecidableEq, Repr

/-- A location as messages show it. -/
def Location.display (l : Location) : String := l.path.text ++ ":" ++ toString l.line

/-- A name where it stands in the source. -/
structure Name where
  loc : Location
  text : String
  deriving DecidableEq, Repr

end GoSyntax
