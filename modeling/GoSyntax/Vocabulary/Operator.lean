/-!
# Operators

An operator belongs to one family, and for the five binary families the family is the precedence level: `||` binds least, then
`&&`, the comparisons, the additive and the multiplicative operators. Some binary operators, and `!` and `<-`, may also stand
before an operand. Assignments, `++` and `--` are operators of statements and have no precedence.
-/

namespace GoSyntax

/-- The operators, family by family. -/
inductive Operator where
  | logOr | logAnd
  | eql | neq | lss | leq | gtr | geq
  | add | sub | or | xor
  | mul | quo | rem | shl | shr | and | andNot
  | not | arrow
  | inc | dec
  | assign | define | addAssign | subAssign | mulAssign | quoAssign | remAssign | andAssign | orAssign | xorAssign | shlAssign
  | shrAssign | andNotAssign
  deriving DecidableEq, Repr

/-- The families: five binary levels, the operators that only stand before an operand, and those of statements. -/
inductive Operator.Family where
  | logicalOr | logicalAnd | relational | additive | multiplicative | unary | incDec | assignment
  deriving DecidableEq, Repr

namespace Operator

/-- Every operator, in the order of the ordinals. -/
def all : List Operator :=
  [logOr, logAnd, eql, neq, lss, leq, gtr, geq, add, sub, or, xor, mul, quo, rem, shl, shr, and, andNot, not, arrow, inc, dec,
    assign, define, addAssign, subAssign, mulAssign, quoAssign, remAssign, andAssign, orAssign, xorAssign, shlAssign,
    shrAssign, andNotAssign]

/-- The position of an operator in `all`. -/
def ordinal (o : Operator) : Nat := o.ctorIdx

/-- The one spelling of an operator. -/
def spelling : Operator → String
  | logOr => "||"
  | logAnd => "&&"
  | eql => "=="
  | neq => "!="
  | lss => "<"
  | leq => "<="
  | gtr => ">"
  | geq => ">="
  | add => "+"
  | sub => "-"
  | or => "|"
  | xor => "^"
  | mul => "*"
  | quo => "/"
  | rem => "%"
  | shl => "<<"
  | shr => ">>"
  | and => "&"
  | andNot => "&^"
  | not => "!"
  | arrow => "<-"
  | inc => "++"
  | dec => "--"
  | assign => "="
  | define => ":="
  | addAssign => "+="
  | subAssign => "-="
  | mulAssign => "*="
  | quoAssign => "/="
  | remAssign => "%="
  | andAssign => "&="
  | orAssign => "|="
  | xorAssign => "^="
  | shlAssign => "<<="
  | shrAssign => ">>="
  | andNotAssign => "&^="

/-- The name of an operator in a dump of a tree. -/
def label : Operator → String
  | logOr => "LogOr"
  | logAnd => "LogAnd"
  | eql => "Eql"
  | neq => "Neq"
  | lss => "Lss"
  | leq => "Leq"
  | gtr => "Gtr"
  | geq => "Geq"
  | add => "Add"
  | sub => "Sub"
  | or => "Or"
  | xor => "Xor"
  | mul => "Mul"
  | quo => "Quo"
  | rem => "Rem"
  | shl => "Shl"
  | shr => "Shr"
  | and => "And"
  | andNot => "AndNot"
  | not => "Not"
  | arrow => "Arrow"
  | inc => "Inc"
  | dec => "Dec"
  | assign => "Assign"
  | define => "Define"
  | addAssign => "AddAssign"
  | subAssign => "SubAssign"
  | mulAssign => "MulAssign"
  | quoAssign => "QuoAssign"
  | remAssign => "RemAssign"
  | andAssign => "AndAssign"
  | orAssign => "OrAssign"
  | xorAssign => "XorAssign"
  | shlAssign => "ShlAssign"
  | shrAssign => "ShrAssign"
  | andNotAssign => "AndNotAssign"

/-- The family of an operator. -/
def family : Operator → Family
  | logOr => .logicalOr
  | logAnd => .logicalAnd
  | eql | neq | lss | leq | gtr | geq => .relational
  | add | sub | or | xor => .additive
  | mul | quo | rem | shl | shr | and | andNot => .multiplicative
  | not | arrow => .unary
  | inc | dec => .incDec
  | _ => .assignment

/-- The operators that may stand before an operand. -/
def standsBefore : Operator → Bool
  | add | sub | xor | mul | and | not | arrow => true
  | _ => false

/-- The level of a binary family, a higher one binding tighter; the other families have none. -/
def Family.precedence? : Family → Option Nat
  | .logicalOr => some 1
  | .logicalAnd => some 2
  | .relational => some 3
  | .additive => some 4
  | .multiplicative => some 5
  | .unary | .incDec | .assignment => none

/-- The binary precedence of an operator, none if it joins no two operands. -/
def precedence? (o : Operator) : Option Nat := o.family.precedence?

/-- The operator with a spelling. -/
def ofSpelling? (text : String) : Option Operator := all.find? (fun o => o.spelling == text)

/-- The name of a family. -/
def Family.label : Family → String
  | .logicalOr => "LogicalOr"
  | .logicalAnd => "LogicalAnd"
  | .relational => "Relational"
  | .additive => "Additive"
  | .multiplicative => "Multiplicative"
  | .unary => "Unary"
  | .incDec => "IncDec"
  | .assignment => "Assignment"

/-! ## The table is complete and unambiguous -/

theorem mem_all (o : Operator) : o ∈ all := by cases o <;> decide

theorem getElem?_all_ordinal (o : Operator) : all[o.ordinal]? = some o := by cases o <;> rfl

theorem ordinal_inj {a b : Operator} : a.ordinal = b.ordinal ↔ a = b := by
  refine ⟨fun h => ?_, congrArg ordinal⟩
  have hall := congrArg (all[·]?) h
  rw [getElem?_all_ordinal, getElem?_all_ordinal] at hall
  exact Option.some.inj hall

theorem ordinal_lt (o : Operator) : o.ordinal < 64 := by cases o <;> decide

theorem ofSpelling?_spelling (o : Operator) : ofSpelling? o.spelling = some o := by cases o <;> decide +kernel

end Operator

end GoSyntax
