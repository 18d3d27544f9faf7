import GoSyntax.Tree.Nodes

/-!
# Rules: what a tree without faults keeps to

The types of a tree allow more than the grammar does. An element with a key could stand anywhere, an assignment could have any
number of values, an `else` could be followed by any statement. What the types leave open is said by rules, each about one node and
what stands directly below it. A tree that was read without a report keeps them all.
-/

namespace GoSyntax

/-! ## Roles -/

/-- What an expression is to the node above it: an element of a composite literal, the key or the value of such an element, the
type of a parameter, which may be the last of its list and has a number of names, or a part that is nothing special. -/
inductive Role where
  | plain
  | element
  | keyOrValue
  | parameter (isLast : Bool) (names : Nat)
  deriving DecidableEq, Repr

/-- The expression may have this role. A key with its value is only an element. A body without a type is an element, or the key or
value of one. A variadic type is that of the last parameter, which has at most one name. -/
def Expr.Suits (role : Role) : Expr → Prop
  | .keyValue _ _ _ => role = .element
  | .composite _ none _ => role = .element ∨ role = .keyOrValue
  | .variadicType _ _ => ∃ names, names ≤ 1 ∧ role = .parameter true names
  | _ => True

/-- Expressions that are nothing special. -/
def plainly (es : List Expr) : List (Role × Expr) := es.map fun e => (.plain, e)

/-- The types of parameters. -/
def parameterParts : List Field → List (Role × Expr)
  | [] => []
  | f :: fs => (.parameter fs.isEmpty f.names.length, f.type) :: parameterParts fs

/-- The types of fields that are not parameters. -/
def fieldParts (fields : List Field) : List (Role × Expr) := plainly (fields.map Field.type)

/-- The types in a signature. -/
def Signature.parts (s : Signature) : List (Role × Expr) := parameterParts s.params ++ fieldParts s.results

/-- The length of an array type, if it is an expression. -/
def ArrayLength.expr? : ArrayLength → Option Expr
  | .fixed length => some length
  | .slice | .inferred => none

/-- The expressions directly below an expression. The types of fields stand directly below what the fields are listed in. -/
def Expr.parts : Expr → List (Role × Expr)
  | .bad _ | .ident _ _ | .literal _ _ | .interfaceType _ _ => []
  | .composite _ type elements => plainly type.toList ++ elements.map fun e => (.element, e)
  | .function _ sig _ | .functionType _ sig => sig.parts
  | .paren _ e | .selector _ e _ | .star _ e | .unary _ _ e | .channelType _ _ e | .variadicType _ e => plainly [e]
  | .assertion _ operand type => plainly (operand :: type.toList)
  | .index _ operand subscript => plainly [operand, subscript]
  | .slice _ operand low high max _ => plainly (operand :: (low.toList ++ high.toList ++ max.toList))
  | .call _ callee args _ => plainly (callee :: args)
  | .binary _ _ left right => plainly [left, right]
  | .keyValue _ key value => [(.keyOrValue, key), (.keyOrValue, value)]
  | .arrayType _ length elem => plainly (length.expr?.toList ++ [elem])
  | .structType _ fields => fieldParts fields
  | .mapType _ key value => plainly [key, value]

/-- The expressions directly below a statement. -/
def Stmt.parts : Stmt → List (Role × Expr)
  | .bad _ | .declaration _ _ | .empty _ | .labeled _ _ _ | .branch _ _ _ | .block _ | .typeSwitch _ _ _ _ | .select _ _ => []
  | .expr _ e | .incDec _ _ e | .go _ e | .defer _ e => plainly [e]
  | .send _ channel value => plainly [channel, value]
  | .assign _ _ left right => plainly (left ++ right)
  | .return _ values => plainly values
  | .if _ _ cond _ _ => plainly [cond]
  | .switch _ _ tag _ => plainly tag.toList
  | .for _ _ cond _ _ => plainly cond.toList
  | .range _ key value _ operand _ => plainly (key.toList ++ value.toList ++ [operand])

/-- The expressions directly below a specification. -/
def Spec.parts : Spec → List (Role × Expr)
  | .import _ _ => []
  | .value _ _ t values => plainly (t.toList ++ values)
  | .type _ _ t => plainly [t]

/-- The expressions directly below an element of an interface. -/
def InterfaceElem.parts : InterfaceElem → List (Role × Expr)
  | .method _ _ sig => sig.parts
  | .embedded _ type => plainly [type]

/-- The expressions directly below a declaration. -/
def Decl.parts : Decl → List (Role × Expr)
  | .bad _ | .group _ _ => []
  | .func _ f => fieldParts (f.receiver.getD []) ++ f.sig.parts

/-- The expressions directly below a node, with their roles. -/
def Node.parts : Node → List (Role × Expr)
  | .expr e => e.parts
  | .stmt s => s.parts
  | .decl d => d.parts
  | .spec s => s.parts
  | .elem e => e.parts
  | .case c => plainly (c.list.getD [])
  | .field _ | .block _ | .comm _ | .name _ | .literal _ => []

/-- The lists of parameters, results and receivers of a node. -/
def Node.fieldLists : Node → List (List Field)
  | .expr (.function _ sig _) | .expr (.functionType _ sig) | .elem (.method _ _ sig) => [sig.params, sig.results]
  | .decl (.func _ f) => f.receiver.toList ++ [f.sig.params, f.sig.results]
  | _ => []

/-! ## Parts that go together -/

/-- The parts of an expression go together. A slice has a third bound only in the three-index form, which asks for the second and
the third. -/
def Expr.Coheres : Expr → Prop
  | .slice _ _ _ high max three => if three then high.isSome ∧ max.isSome else max = none
  | _ => True

/-- The values that a specification gives. -/
def Spec.values : Spec → List Expr
  | .value _ _ _ values => values
  | _ => []

/-- The specification is one of constants or variables with a type. -/
def Spec.isTyped : Spec → Bool
  | .value _ _ (some _) _ => true
  | _ => false

/-- The parts of a declaration go together. The first constants of a declaration, and those with a type, are given values. -/
def DeclGroup.Coheres (g : DeclGroup) : Prop :=
  g.keyword = .const → (∀ s ∈ g.specs.head?, s.values ≠ []) ∧ ∀ s ∈ g.specs, s.isTyped → s.values ≠ []

/-- The expression is `y.(type)`. -/
def Expr.IsTypeGuard (e : Expr) : Prop := ∃ loc y, e = .assertion loc y none

/-- The statement is `y.(type)` or `x := y.(type)`. -/
def Stmt.IsTypeGuard (s : Stmt) : Prop :=
  ∃ loc guard, guard.IsTypeGuard ∧ (s = .expr loc guard ∨ ∃ x, s = .assign loc .define [x] [guard])

/-- The statement may stand behind an `else`. -/
def Stmt.IsElse (s : Stmt) : Prop := (∃ loc init cond body otherwise, s = .if loc init cond body otherwise) ∨ ∃ body, s = .block body

/-- The parts of a statement go together. What follows an `else` is an `if` or a block. One value or as many as there are targets
are assigned or defined, and an operation has one of each. The guard of a type switch is `y.(type)`, which may be named, and the tag
of another switch is not. A loop over a range has a value only beside a key, and a key if it defines something. -/
def Stmt.Coheres : Stmt → Prop
  | .declaration _ group => group.Coheres
  | .if _ _ _ _ (some otherwise) => otherwise.IsElse
  | .assign _ op left right =>
    if op = .assign ∨ op = .define then right.length = 1 ∨ right.length = left.length else left.length = 1 ∧ right.length = 1
  | .switch _ _ (some tag) _ => ¬tag.IsTypeGuard
  | .typeSwitch _ _ guard _ => guard.IsTypeGuard
  | .range _ key value define _ _ => (value.isSome → key.isSome) ∧ (define → key.isSome)
  | _ => True

/-- The parts of a node go together. -/
def Node.Coheres : Node → Prop
  | .expr e => e.Coheres
  | .stmt s => s.Coheres
  | .decl (.group _ g) => g.Coheres
  | _ => True

/-! ## Rules -/

/-- The node keeps the rules: every expression below it suits its role, the fields of each list are all named or all unnamed, and
its parts go together. -/
structure Node.KeepsRules (n : Node) : Prop where
  suits : ∀ part ∈ n.parts, part.2.Suits part.1
  alike : ∀ fields ∈ n.fieldLists, (∀ f ∈ fields, f.names = []) ∨ ∀ f ∈ fields, f.names ≠ []
  coheres : n.Coheres

end GoSyntax
