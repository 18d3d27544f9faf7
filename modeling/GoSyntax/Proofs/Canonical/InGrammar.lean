import GoSyntax.Grammar.Control
import GoSyntax.Tree.Layout

/-!
# The trees of the grammar

A tree is in the grammar if its spelling says what it is. It holds no placeholder; operands bind at least as tightly as their
operators ask; what stands before a suffix is an operand that a suffix can follow; parameters are all named or all unnamed; and in
the header of a control statement nothing ends where a brace would be taken for its own.
-/

namespace GoSyntax

open Grammar

/-! ## Places of an expression -/

/-- How tightly an expression holds together: by its operator for a binary one, more if a prefix operator stands before it, most
if none does. What is no expression on its own holds together by nothing. -/
def Expr.rank : Expr → Nat
  | .bad _ | .composite _ none _ | .keyValue _ _ _ | .variadicType _ _ => 0
  | .binary _ op _ _ => op.precedence?.getD 0
  | .star _ _ | .unary _ _ _ => 6
  | _ => 7

/-- The expression can stand on its own. -/
def Expr.isValue (e : Expr) : Bool := 0 < e.rank

/-- A composed type. -/
def Expr.isTypeForm : Expr → Bool
  | .arrayType _ _ _ | .structType _ _ | .functionType _ _ | .interfaceType _ _ | .mapType _ _ _ | .channelType _ _ _ => true
  | _ => false

/-- A suffix can follow the expression. -/
def Expr.isOperand (e : Expr) : Bool := e.rank = 7 && !e.isTypeForm

/-- The value of an element of a composite literal: a body in braces may do without a type. -/
def Expr.isElementValue : Expr → Bool
  | .composite _ _ _ => true
  | e => e.isValue

/-- The type of a channel that is only received from. -/
def Expr.isReceiveType : Expr → Bool
  | .channelType _ .receive _ => true
  | _ => false

/-- A brace behind the expression would be taken for the start of a body that belongs to its end. -/
def Expr.opensBody (level : Int) : Expr → Bool
  | .binary _ _ _ right => right.opensBody level
  | .star _ operand | .unary _ _ operand => operand.opensBody level
  | .functionType _ _ => true
  | e => takesBody level e

/-- A brace behind the statement would be taken for the start of a body that belongs to its end. -/
def Stmt.opensBody (level : Int) : Stmt → Bool
  | .expr _ e | .send _ _ e => e.opensBody level
  | .assign _ _ _ right => right.getLast?.any (Expr.opensBody level)
  | _ => false

/-- The fields are all named, or none of them is. -/
def namedAlike (fields : List Field) : Prop := (∀ f ∈ fields, f.names = []) ∨ ∀ f ∈ fields, f.names ≠ []

/-- A string literal. -/
def Literal.isString (l : Literal) : Bool := (TokenKind.literal l.value).isStringLiteral

mutual

/-- A type. With `inferable`, the length of an array may be `...`. -/
def Expr.IsType : Expr → Bool → Prop
  | .ident _ _, _ | .selector _ (.ident _ _) _, _ => True
  | .paren _ inner, _ => inner.IsType false
  | .star _ elem, _ => elem.IsType false
  | .arrayType _ length elem, inferable => length.InGrammar inferable ∧ elem.IsType false
  | .structType _ fields, _ => FieldsInGrammar fields
  | .functionType _ sig, _ => sig.InGrammar
  | .interfaceType _ elems, _ => ElemsInGrammar elems
  | .mapType _ key value, _ => key.IsType false ∧ value.IsType false
  | .channelType _ direction elem, _ => (direction = .both → elem.isReceiveType = false) ∧ elem.IsType false
  | _, _ => False

/-- An expression, or an element of a composite literal, at a nesting level. -/
def Expr.InGrammar : Expr → Int → Prop
  | .bad _, _ | .variadicType _ _, _ => False
  | .ident _ _, _ | .literal _ _, _ => True
  | .composite _ none elements, level => ExprsInGrammar elements (level + 1)
  | .composite _ (some type) elements, level =>
    takesBody level type = true ∧ type.InGrammar level ∧ ExprsInGrammar elements (level + 1)
  | .function _ sig body, _ => sig.InGrammar ∧ body.InGrammar
  | .paren _ inner, level => inner.isValue = true ∧ inner.InGrammar (level + 1)
  | .selector _ operand _, level => operand.isOperand = true ∧ operand.InGrammar level
  | .assertion _ operand type, level => operand.isOperand = true ∧ operand.InGrammar level ∧ TypeInGrammar? type
  | .index _ operand subscript, level =>
    operand.isOperand = true ∧ operand.InGrammar level ∧ subscript.isValue = true ∧ subscript.InGrammar (level + 1)
  | .slice _ operand low high max three, level =>
    operand.isOperand = true ∧ operand.InGrammar level ∧ (max.isSome = three) ∧ (three = true → high.isSome = true)
      ∧ ExprInGrammar? low (level + 1) ∧ ExprInGrammar? high (level + 1) ∧ ExprInGrammar? max (level + 1)
  | .call _ callee args spread, level =>
    (callee.isOperand || callee.isTypeForm) = true ∧ callee.InGrammar level ∧ (spread = true → args ≠ [])
      ∧ (∀ a ∈ args, a.isValue = true) ∧ ExprsInGrammar args (level + 1)
  | .star _ operand, level => 6 ≤ operand.rank ∧ operand.InGrammar level
  | .unary _ op operand, level =>
    op.standsBefore = true ∧ op ≠ .mul ∧ (op = .arrow → operand.layout.canonical.head? ≠ some Keyword.chan)
      ∧ 6 ≤ operand.rank ∧ operand.InGrammar level
  | .binary _ op left right, level =>
    op.precedence?.isSome = true ∧ op.precedence?.getD 0 ≤ left.rank ∧ op.precedence?.getD 0 < right.rank
      ∧ left.InGrammar level ∧ right.InGrammar level
  | .keyValue _ key value, level =>
    key.isElementValue = true ∧ value.isElementValue = true ∧ key.InGrammar level ∧ value.InGrammar level
  | .arrayType _ length elem, _ => length.InGrammar true ∧ elem.IsType false
  | .structType _ fields, _ => FieldsInGrammar fields
  | .functionType _ sig, _ => sig.InGrammar
  | .interfaceType _ elems, _ => ElemsInGrammar elems
  | .mapType _ key value, _ => key.IsType false ∧ value.IsType false
  | .channelType _ direction elem, _ => (direction = .both → elem.isReceiveType = false) ∧ elem.IsType false

/-- A type that may be missing. -/
def TypeInGrammar? : Option Expr → Prop
  | some t => t.IsType false
  | none => True

/-- An expression that may be missing. -/
def ExprInGrammar? : Option Expr → Int → Prop
  | some e, level => e.isValue = true ∧ e.InGrammar level
  | none, _ => True

/-- Expressions or elements of a composite literal. -/
def ExprsInGrammar : List Expr → Int → Prop
  | [], _ => True
  | e :: es, level => e.InGrammar level ∧ ExprsInGrammar es level

/-- Types. -/
def TypesInGrammar : List Expr → Prop
  | [] => True
  | t :: ts => t.IsType false ∧ TypesInGrammar ts

/-- The length of an array type. -/
def ArrayLength.InGrammar : ArrayLength → Bool → Prop
  | .slice, _ => True
  | .inferred, inferable => inferable = true
  | .fixed length, _ => length.isValue = true ∧ length.InGrammar 0

/-- A field of a struct. An embedded one is the name of a type or a pointer to one. -/
def Field.InGrammar : Field → Prop
  | ⟨_, [], .star _ type, tag⟩ => isTypeName type = true ∧ ∀ l ∈ tag, l.isString = true
  | ⟨_, [], type, tag⟩ => isTypeName type = true ∧ ∀ l ∈ tag, l.isString = true
  | ⟨_, _ :: _, type, tag⟩ => type.IsType false ∧ ∀ l ∈ tag, l.isString = true

/-- Fields of a struct. -/
def FieldsInGrammar : List Field → Prop
  | [] => True
  | f :: fs => f.InGrammar ∧ FieldsInGrammar fs

/-- A group of parameters. Where a variadic one is allowed, it has at most one name. -/
def Field.IsParameter : Field → Bool → Prop
  | ⟨_, names, .variadicType _ elem, tag⟩, variadic => variadic = true ∧ names.length ≤ 1 ∧ tag = none ∧ elem.IsType false
  | ⟨_, _, type, tag⟩, _ => tag = none ∧ type.IsType false

/-- Parameters or results. With `variadic`, the last may be variadic. -/
def ParametersInGrammar : List Field → Bool → Prop
  | [], _ => True
  | f :: fs, variadic => f.IsParameter (variadic && fs.isEmpty) ∧ ParametersInGrammar fs variadic

/-- A signature. -/
def Signature.InGrammar : Signature → Prop
  | ⟨params, results⟩ =>
    (namedAlike params ∧ ParametersInGrammar params true) ∧ namedAlike results ∧ ParametersInGrammar results false

/-- An element of an interface. -/
def InterfaceElem.InGrammar : InterfaceElem → Prop
  | .method _ _ sig => sig.InGrammar
  | .embedded _ type => isTypeName type = true

/-- Elements of an interface. -/
def ElemsInGrammar : List InterfaceElem → Prop
  | [] => True
  | e :: es => e.InGrammar ∧ ElemsInGrammar es

/-- A block. -/
def Block.InGrammar : Block → Prop
  | ⟨_, stmts⟩ => StmtsInGrammar stmts

/-- A simple statement at a nesting level. -/
def Stmt.IsSimple : Stmt → Int → Prop
  | .expr _ e, level => e.isValue = true ∧ e.InGrammar level
  | .send _ channel value, level =>
    channel.isValue = true ∧ channel.InGrammar level ∧ value.isValue = true ∧ value.InGrammar level
  | .incDec _ op operand, level => op.family = .incDec ∧ operand.isValue = true ∧ operand.InGrammar level
  | .assign _ op left right, level =>
    op.family = .assignment ∧ left ≠ [] ∧ right ≠ [] ∧ assignmentFault? op left.length right.length = none
      ∧ (∀ e ∈ left ++ right, e.isValue = true) ∧ ExprsInGrammar left level ∧ ExprsInGrammar right level
  | _, _ => False

/-- A statement of a block. -/
def Stmt.InGrammar : Stmt → Prop
  | .bad _ => False
  | .declaration _ group => group.keyword ≠ .import ∧ group.InGrammar
  | .empty _ => True
  | .labeled _ _ stmt => stmt.InGrammar
  | .expr _ e => e.isValue = true ∧ e.InGrammar 0
  | .send _ channel value => channel.isValue = true ∧ channel.InGrammar 0 ∧ value.isValue = true ∧ value.InGrammar 0
  | .incDec _ op operand => op.family = .incDec ∧ operand.isValue = true ∧ operand.InGrammar 0
  | .assign _ op left right =>
    op.family = .assignment ∧ left ≠ [] ∧ right ≠ [] ∧ assignmentFault? op left.length right.length = none
      ∧ (∀ e ∈ left ++ right, e.isValue = true) ∧ ExprsInGrammar left 0 ∧ ExprsInGrammar right 0
  | .go _ call | .defer _ call => call.isValue = true ∧ call.InGrammar 0
  | .return _ values => (∀ e ∈ values, e.isValue = true) ∧ ExprsInGrammar values 0
  | .branch _ keyword label =>
    keyword = .break ∨ keyword = .continue ∨ keyword = .goto ∨ keyword = .fallthrough ∧ label = none
  | .block body => body.InGrammar
  | .if _ init cond body otherwise =>
    SimpleInGrammar? init (-1) ∧ cond.isValue = true ∧ cond.InGrammar (-1) ∧ cond.opensBody (-1) = false ∧ body.InGrammar
      ∧ OtherwiseInGrammar otherwise
  | .switch _ init tag clauses =>
    SimpleInGrammar? init (-1) ∧ ExprInGrammar? tag (-1) ∧ (∀ e ∈ tag, e.opensBody (-1) = false ∧ isTypeGuard e = false)
      ∧ CasesInGrammar clauses false
  | .typeSwitch _ init guard clauses =>
    SimpleInGrammar? init (-1) ∧ guard.IsSimple (-1) ∧ isTypeSwitchGuard guard = true ∧ CasesInGrammar clauses true
  | .select _ clauses => CommsInGrammar clauses
  | .for _ init cond post body =>
    SimpleInGrammar? init (-1) ∧ ExprInGrammar? cond (-1) ∧ SimpleInGrammar? post (-1)
      ∧ (init = none → post = none → ∀ e ∈ cond, e.opensBody (-1) = false) ∧ (∀ s ∈ post, s.opensBody (-1) = false)
      ∧ body.InGrammar
  | .range _ key value define operand body =>
    (key = none → value = none ∧ define = false) ∧ ExprInGrammar? key (-1) ∧ ExprInGrammar? value (-1)
      ∧ operand.isValue = true ∧ operand.InGrammar (-1) ∧ operand.opensBody (-1) = false ∧ body.InGrammar

/-- A simple statement that may be missing. -/
def SimpleInGrammar? : Option Stmt → Int → Prop
  | some s, level => s.IsSimple level
  | none, _ => True

/-- What stands behind `else`: another `if` or a block. -/
def OtherwiseInGrammar : Option Stmt → Prop
  | some (.if loc init cond body otherwise) => (Stmt.if loc init cond body otherwise).InGrammar
  | some (.block body) => body.InGrammar
  | some _ => False
  | none => True

/-- Statements. -/
def StmtsInGrammar : List Stmt → Prop
  | [] => True
  | s :: ss => s.InGrammar ∧ StmtsInGrammar ss

/-- A clause of a switch on values or, with `ofTypes`, on types. -/
def CaseClause.InGrammar : CaseClause → Bool → Prop
  | ⟨_, list, body⟩, ofTypes => CaseListInGrammar list ofTypes ∧ StmtsInGrammar body

/-- The list of a clause. -/
def CaseListInGrammar : Option (List Expr) → Bool → Prop
  | some es, true => es ≠ [] ∧ TypesInGrammar es
  | some es, false => es ≠ [] ∧ (∀ e ∈ es, e.isValue = true) ∧ ExprsInGrammar es 0
  | none, _ => True

/-- Clauses of a switch. -/
def CasesInGrammar : List CaseClause → Bool → Prop
  | [], _ => True
  | c :: cs, ofTypes => c.InGrammar ofTypes ∧ CasesInGrammar cs ofTypes

/-- What a clause of a select waits for: a send, or a receive whose values may be assigned to one target or two. -/
def Stmt.IsCommunication : Stmt → Prop
  | .expr _ e => e.isValue = true ∧ e.InGrammar 0
  | .send _ channel value => channel.isValue = true ∧ channel.InGrammar 0 ∧ value.isValue = true ∧ value.InGrammar 0
  | .assign _ op left [value] =>
    (op = .assign ∨ op = .define) ∧ left ≠ [] ∧ left.length ≤ 2 ∧ (∀ e ∈ left, e.isValue = true) ∧ ExprsInGrammar left 0
      ∧ value.isValue = true ∧ value.InGrammar 0
  | _ => False

/-- A clause of a select. -/
def CommClause.InGrammar : CommClause → Prop
  | ⟨_, some comm, body⟩ => comm.IsCommunication ∧ StmtsInGrammar body
  | ⟨_, none, body⟩ => StmtsInGrammar body

/-- Clauses of a select. -/
def CommsInGrammar : List CommClause → Prop
  | [] => True
  | c :: cs => c.InGrammar ∧ CommsInGrammar cs

/-- A declaration of imports, constants, variables or types. -/
def DeclGroup.InGrammar : DeclGroup → Prop
  | ⟨keyword, specs, grouped⟩ =>
    (keyword = .const ∨ keyword = .var ∨ keyword = .type ∨ keyword = .import) ∧ (grouped = false → specs.length = 1)
      ∧ SpecsInGrammar specs keyword true

/-- A specification of a declaration. A constant must have values if it is the first of its group or typed. -/
def Spec.InGrammar : Spec → Keyword → Bool → Prop
  | .import _ spec, keyword, _ => keyword = .import ∧ spec.path.isString = true
  | .value _ names type values, keyword, isFirst =>
    (keyword = .const ∨ keyword = .var) ∧ names ≠ [] ∧ (keyword = .const → (type.isSome || isFirst) = true → values ≠ [])
      ∧ (∀ e ∈ values, e.isValue = true) ∧ TypeInGrammar? type ∧ ExprsInGrammar values 0
  | .type _ _ type, keyword, _ => keyword = .type ∧ type.IsType false

/-- Specifications of a declaration. -/
def SpecsInGrammar : List Spec → Keyword → Bool → Prop
  | [], _, _ => True
  | s :: ss, keyword, isFirst => s.InGrammar keyword isFirst ∧ SpecsInGrammar ss keyword false

end

/-! ## Files -/

/-- The declaration of a function. -/
def FuncDecl.InGrammar (f : FuncDecl) : Prop :=
  (∀ fields ∈ f.receiver, namedAlike fields ∧ ParametersInGrammar fields false) ∧ f.sig.InGrammar
    ∧ ∀ body ∈ f.body, body.InGrammar

/-- A declaration at the top level of a file. -/
def Decl.InGrammar : Decl → Prop
  | .bad _ => False
  | .group _ g => g.InGrammar
  | .func _ f => f.InGrammar

/-- A source file. -/
def SourceFile.InGrammar (f : SourceFile) : Prop := ∀ d ∈ f.decls, d.InGrammar

end GoSyntax
