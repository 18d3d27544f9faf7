import GoSyntax.Number.Decimal
import GoSyntax.Text.Quotation

/-!
# Dumps: values over many lines

A dump shows a value with all its parts, each on a line of its own, indented by four spaces for each level and with a comma behind
it. A record shows its name and its fields, a variant its name and its arguments, a list its items; a list without items stays on
one line.
-/

namespace GoSyntax

/-- What a dump shows: a word, a part with its label, or parts between brackets. -/
inductive Dump where
  | word (text : String)
  | labeled (label : String) (part : Dump)
  | group (opening : String) (parts : List Dump) (closing : String)

namespace Dump

/-- A record with its fields. -/
def record (name : String) (fields : List (String × Dump)) : Dump :=
  group (name ++ " \x7b") (fields.map fun (label, part) => labeled label part) "\x7d"

/-- A variant with its arguments. -/
def variant (name : String) (args : List Dump) : Dump := group (name ++ "(") args ")"

/-- A list. -/
def list (items : List Dump) : Dump := group "[" items "]"

/-- A part that may be missing. -/
def optional : Option Dump → Dump
  | some d => variant "Some" [d]
  | none => word "None"

/-- A number. -/
def int (n : Int) : Dump := word (Decimal.ofInt n)

/-- A truth value. -/
def bool (b : Bool) : Dump := word (if b then "true" else "false")

/-- A text between double quotes. -/
def text (s : String) : Dump := word (Quotation.ofText s)

/-- The spaces in front of a part. -/
def margin (level : Nat) : String := String.ofList (List.replicate (4 * level) ' ')

mutual

/-- Writes a dump behind a text. -/
def write (level : Nat) : Dump → String → String
  | .word text, out => out ++ text
  | .labeled label part, out => part.write level (out ++ label ++ ": ")
  | .group opening [] closing, out => out ++ opening ++ closing
  | .group opening (part :: parts) closing, out =>
    writeParts (level + 1) (part :: parts) (out ++ opening ++ "\n") ++ margin level ++ closing

/-- Writes the parts of a dump behind a text, a line for each. -/
def writeParts (level : Nat) : List Dump → String → String
  | [], out => out
  | part :: parts, out => writeParts level parts (part.write level (out ++ margin level) ++ ",\n")

end

/-- The text of a dump. -/
def render (d : Dump) : String := d.write 0 ""

end Dump

end GoSyntax
