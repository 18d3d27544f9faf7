import GoSyntax.Tree.Nodes

/-!
# How tightly operators bind

An operator between two operands binds by its precedence; what no such operator joins binds more tightly than any. In a tree that follows
the precedences the left operand binds at least as tightly as its operator and the right one more tightly, so that operators of one
precedence group to the left; and a prefix operator or a suffix is never attached to what a binary operator joins.
-/

namespace GoSyntax

namespace Expr

/-- The expression joins two operands by an operator. -/
def isBinary : Expr → Bool
  | binary _ _ _ _ => true
  | _ => false

/-- How tightly the root of an expression binds. -/
def binding : Expr → Nat
  | binary _ op _ _ => op.precedence?.getD 0
  | _ => 6

/-- The node follows the precedences: as an operator between two operands, or as a prefix operator or a suffix. -/
def Ordered : Expr → Prop
  | binary _ op left right => ∃ q, op.precedence? = some q ∧ q ≤ left.binding ∧ q < right.binding
  | star _ operand | unary _ _ operand | selector _ operand _ | assertion _ operand _ | index _ operand _ | slice _ operand _ _ _ _
  | call _ operand _ _ => operand.isBinary = false
  | _ => True

/-- The operands of binary operators and the operators between them, from left to right. -/
def inOrder : Expr → List (Expr ⊕ Operator)
  | binary _ op left right => left.inOrder ++ .inr op :: right.inOrder
  | e => [.inl e]

end Expr

/-- The node follows the precedences, if it is an expression. -/
def Node.Ordered : Node → Prop
  | .expr e => e.Ordered
  | _ => True

end GoSyntax
