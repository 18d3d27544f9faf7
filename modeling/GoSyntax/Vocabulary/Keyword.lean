/-!
# Keywords: the reserved words

A keyword is a word that no identifier may spell. Each has one spelling, a category, and a say in where a statement ends: after
four of them (`break`, `continue`, `fallthrough`, `return`) a line break ends the statement. `Keyword.all` lists them in the
order of their ordinals, and a look-up by spelling is exact: upper and lower case differ.
-/

namespace GoSyntax

/-- The reserved words: control flow, then declarations, then type constructors. -/
inductive Keyword where
  | «break» | case | «continue» | default | defer | «else» | fallthrough | «for» | go | goto | «if» | range | «return» | select
  | switch
  | const | func | «import» | package | type | var
  | chan | interface | map | struct
  deriving DecidableEq, Repr

/-- What a keyword introduces. -/
inductive Keyword.Category where
  | controlFlow | declaration | typeConstructor
  deriving DecidableEq, Repr

namespace Keyword

/-- Every keyword, in the order of the ordinals. -/
def all : List Keyword :=
  [Keyword.break, case, Keyword.continue, default, defer, Keyword.else, fallthrough, Keyword.for, go, goto, Keyword.if, range,
    Keyword.return, select, switch, const, func, Keyword.import, package, type, var, chan, interface, map, struct]

/-- The position of a keyword in `all`. -/
def ordinal (k : Keyword) : Nat := k.ctorIdx

/-- The one spelling of a keyword. -/
def spelling : Keyword → String
  | Keyword.break => "break"
  | case => "case"
  | Keyword.continue => "continue"
  | default => "default"
  | defer => "defer"
  | Keyword.else => "else"
  | fallthrough => "fallthrough"
  | Keyword.for => "for"
  | go => "go"
  | goto => "goto"
  | Keyword.if => "if"
  | range => "range"
  | Keyword.return => "return"
  | select => "select"
  | switch => "switch"
  | const => "const"
  | func => "func"
  | Keyword.import => "import"
  | package => "package"
  | type => "type"
  | var => "var"
  | chan => "chan"
  | interface => "interface"
  | map => "map"
  | struct => "struct"

/-- The name of a keyword in a dump of a tree: its spelling with a capital. -/
def label (k : Keyword) : String := k.spelling.capitalize

/-- What a keyword introduces. -/
def category : Keyword → Category
  | const | func | Keyword.import | package | type | var => .declaration
  | chan | interface | map | struct => .typeConstructor
  | _ => .controlFlow

/-- A line break after one of these ends the statement. -/
def endsStatement : Keyword → Bool
  | Keyword.break | Keyword.continue | fallthrough | Keyword.return => true
  | _ => false

/-- The keyword with a spelling, if the word is reserved. -/
def ofSpelling? (word : String) : Option Keyword := all.find? (fun k => k.spelling == word)

/-- The name of a category. -/
def Category.label : Category → String
  | .controlFlow => "ControlFlow"
  | .declaration => "Declaration"
  | .typeConstructor => "TypeConstructor"

/-! ## The table is complete and unambiguous -/

theorem mem_all (k : Keyword) : k ∈ all := by cases k <;> decide

theorem getElem?_all_ordinal (k : Keyword) : all[k.ordinal]? = some k := by cases k <;> rfl

theorem ordinal_inj {a b : Keyword} : a.ordinal = b.ordinal ↔ a = b := by
  refine ⟨fun h => ?_, congrArg ordinal⟩
  have hall := congrArg (all[·]?) h
  rw [getElem?_all_ordinal, getElem?_all_ordinal] at hall
  exact Option.some.inj hall

theorem ordinal_lt (k : Keyword) : k.ordinal < 32 := by cases k <;> decide

theorem ofSpelling?_spelling (k : Keyword) : ofSpelling? k.spelling = some k := by cases k <;> decide +kernel

end Keyword

end GoSyntax
