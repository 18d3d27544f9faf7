import GoSyntax.Tree.TypePlaces

/-!
# Headers of control statements

In the header of an `if`, a `for` or a `switch` a brace behind a type name starts the block. So a composite literal whose type is a name
stands there only in brackets of some kind: in parentheses, as a bound, an argument or an element, in the length of an array type or in
the body of a function. One that can be reached from the header without entering any of these is exposed.
-/

namespace GoSyntax

namespace Expr

/-- A composite literal whose type is a name, plain or qualified. -/
def isNamedComposite : Expr → Bool
  | composite _ (some (ident _ _)) _ | composite _ (some (selector _ (ident _ _) _)) _ => true
  | _ => false

/-- The expressions directly below an expression that stand in no brackets. -/
def openParts : Expr → List Expr
  | bad _ | ident _ _ | literal _ _ | paren _ _ => []
  | composite _ type _ => type.toList
  | function _ sig _ | functionType _ sig => sig.typeParts
  | selector _ operand _ | index _ operand _ | slice _ operand _ _ _ _ | call _ operand _ _ | star _ operand | unary _ _ operand => [operand]
  | assertion _ operand type => operand :: type.toList
  | binary _ _ left right => [left, right]
  | keyValue _ key value | mapType _ key value => [key, value]
  | arrayType _ _ elem | channelType _ _ elem | variadicType _ elem => [elem]
  | structType _ fields => fields.map Field.type
  | interfaceType _ elems => elems.flatMap InterfaceElem.typeParts

/-- An expression can be reached in another one without entering brackets. -/
inductive Exposes : Expr → Expr → Prop
  | self (e : Expr) : Exposes e e
  | part {e part x : Expr} (hpart : part ∈ e.openParts) (hx : Exposes part x) : Exposes e x

/-- No composite literal whose type is a name is exposed. -/
def Shielded (e : Expr) : Prop := ∀ x, e.Exposes x → x.isNamedComposite = false

end Expr

namespace Stmt

/-- A statement that can stand in a header, or one that could not be read. -/
def isSimple : Stmt → Bool
  | bad _ | expr _ _ | send _ _ _ | incDec _ _ _ | assign _ _ _ _ => true
  | _ => false

/-- The expressions of a simple statement. -/
def simpleExprs : Stmt → List Expr
  | expr _ e | incDec _ _ e => [e]
  | send _ channel value => [channel, value]
  | assign _ _ left right => left ++ right
  | _ => []

/-- The statements in the header of a control statement: the init and the post statement and the guard. -/
def headerStmts : Stmt → List Stmt
  | .if _ init _ _ _ | switch _ init _ _ => init.toList
  | typeSwitch _ init guard _ => init.toList ++ [guard]
  | .for _ init _ post _ => init.toList ++ post.toList
  | _ => []

/-- The expressions in the header of a control statement: the condition, the tag, and the variables and the operand of a range. -/
def headerExprs : Stmt → List Expr
  | .if _ _ cond _ _ => [cond]
  | switch _ _ tag _ => tag.toList
  | .for _ _ cond _ _ => cond.toList
  | range _ key value _ operand _ => key.toList ++ value.toList ++ [operand]
  | _ => []

/-- A simple statement whose expressions are shielded. -/
def Shielded (s : Stmt) : Prop := s.isSimple = true ∧ ∀ e ∈ s.simpleExprs, e.Shielded

/-- In the header of the statement no composite literal whose type is a name is exposed. -/
def HeaderShielded (s : Stmt) : Prop := (∀ h ∈ s.headerStmts, h.Shielded) ∧ ∀ e ∈ s.headerExprs, e.Shielded

end Stmt

/-- In the header of the node, if it has one, no composite literal whose type is a name is exposed. -/
def Node.HeaderShielded : Node → Prop
  | .stmt s => s.HeaderShielded
  | _ => True

end GoSyntax
