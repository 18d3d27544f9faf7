import GoSyntax.Tree.Rules

/-!
# Places of types

Types are expressions, and an operand may be a type too. But below some nodes there is a place where only a type can stand: the type of a
field, a variable or an assertion, the element of an array, the cases of a type switch. What stands directly below a node stands in such
a place or is an operand. The length of an array type can be left open, as in `[...]T`, for a literal to fill in.
-/

namespace GoSyntax

/-- The expression is `[...]T`, in parentheses perhaps or behind stars. -/
def Expr.infersLength : Expr → Bool
  | .arrayType _ .inferred _ => true
  | .paren _ e | .star _ e => e.infersLength
  | _ => false

/-- The types of parameters and results. -/
def Signature.typeParts (s : Signature) : List Expr := s.params.map Field.type ++ s.results.map Field.type

/-- The expressions directly below an expression that stand where only a type can stand. -/
def Expr.typeParts : Expr → List Expr
  | .function _ sig _ | .functionType _ sig => sig.typeParts
  | .assertion _ _ type => type.toList
  | .arrayType _ _ elem | .channelType _ _ elem | .variadicType _ elem => [elem]
  | .mapType _ key value => [key, value]
  | .structType _ fields => fields.map Field.type
  | _ => []

/-- The cases of a type switch stand where only a type can stand. -/
def Stmt.typeParts : Stmt → List Expr
  | .typeSwitch _ _ _ clauses => clauses.flatMap fun c => c.list.getD []
  | _ => []

/-- The types of a specification. -/
def Spec.typeParts : Spec → List Expr
  | .import _ _ => []
  | .value _ _ t _ => t.toList
  | .type _ _ t => [t]

/-- The types of an element of an interface. -/
def InterfaceElem.typeParts : InterfaceElem → List Expr
  | .method _ _ sig => sig.typeParts
  | .embedded _ type => [type]

/-- The types in the head of a function. -/
def Decl.typeParts : Decl → List Expr
  | .bad _ | .group _ _ => []
  | .func _ f => (f.receiver.getD []).map Field.type ++ f.sig.typeParts

/-- The expressions directly below a node that stand where only a type can stand. -/
def Node.typeParts : Node → List Expr
  | .expr e => e.typeParts
  | .stmt s => s.typeParts
  | .decl d => d.typeParts
  | .spec s => s.typeParts
  | .elem e => e.typeParts
  | .field _ | .block _ | .case _ | .comm _ | .name _ | .literal _ => []

/-- The expressions directly below an expression that stand where an operand can stand. The type of a composite literal is one: it is
read before its body is seen. -/
def Expr.operandParts : Expr → List Expr
  | .composite _ type elements => type.toList ++ elements
  | .paren _ e | .selector _ e _ | .assertion _ e _ | .star _ e | .unary _ _ e => [e]
  | .index _ operand subscript => [operand, subscript]
  | .slice _ operand low high max _ => operand :: (low.toList ++ high.toList ++ max.toList)
  | .call _ callee args _ => callee :: args
  | .binary _ _ left right => [left, right]
  | .keyValue _ key value => [key, value]
  | .arrayType _ length _ => length.expr?.toList
  | _ => []

/-- The expressions directly below a node that stand where an operand can stand. -/
def Node.operandParts : Node → List Expr
  | .expr e => e.operandParts
  | .stmt s => s.parts.map Prod.snd
  | .spec (.value _ _ _ values) => values
  | .case c => c.list.getD []
  | _ => []

theorem parameterParts_snd (fields : List Field) : (parameterParts fields).map Prod.snd = fields.map Field.type := by
  induction fields with
  | nil => rfl
  | cons f fields ih => exact congrArg (f.type :: ·) ih

theorem plainly_snd (es : List Expr) : (plainly es).map Prod.snd = es := by
  rw [plainly, List.map_map]
  exact List.map_id es

theorem Signature.parts_snd (s : Signature) : s.parts.map Prod.snd = s.typeParts := by
  rw [parts, List.map_append, parameterParts_snd, fieldParts, plainly_snd, typeParts]

/-- What stands directly below a node is a type by its place, or an operand. -/
theorem Node.mem_parts {n : Node} {role : Role} {e : Expr} (h : (role, e) ∈ n.parts) : e ∈ n.typeParts ∨ e ∈ n.operandParts := by
  have hsnd : e ∈ n.parts.map Prod.snd := List.mem_map.2 ⟨_, h, rfl⟩
  cases n with
  | expr x => cases x <;> simp_all [parts, Expr.parts, typeParts, Expr.typeParts, operandParts, Expr.operandParts, plainly_snd,
      Signature.parts_snd, fieldParts] <;> grind
  | stmt s => exact .inr hsnd
  | decl d =>
    cases d with
    | bad loc => exact absurd h List.not_mem_nil
    | group loc g => exact absurd h List.not_mem_nil
    | func loc f =>
      rw [parts, Decl.parts, List.map_append, fieldParts, plainly_snd, Signature.parts_snd] at hsnd
      exact .inl hsnd
  | spec s =>
    cases s with
    | «import» loc spec => exact absurd h List.not_mem_nil
    | value loc names t values =>
      rw [parts, Spec.parts, plainly_snd, List.mem_append] at hsnd
      exact hsnd
    | type loc name t =>
      rw [parts, Spec.parts, plainly_snd] at hsnd
      exact .inl hsnd
  | elem x =>
    cases x with
    | method loc name sig =>
      rw [parts, InterfaceElem.parts, Signature.parts_snd] at hsnd
      exact .inl hsnd
    | embedded loc type =>
      rw [parts, InterfaceElem.parts, plainly_snd] at hsnd
      exact .inl hsnd
  | case c =>
    rw [parts, plainly_snd] at hsnd
    exact .inr hsnd
  | field f => exact absurd h List.not_mem_nil
  | block b => exact absurd h List.not_mem_nil
  | comm c => exact absurd h List.not_mem_nil
  | name n => exact absurd h List.not_mem_nil
  | literal l => exact absurd h List.not_mem_nil

end GoSyntax
