import GoSyntax.Token.Basic
import GoSyntax.Tree.Basic

/-!
# Layouts: how a tree is spelled

The layout of a tree lists the tokens that spell it, from left to right. Where the grammar leaves a choice, such as a comma behind
the last member of a list, the layout has both spellings, the canonical one first. What holds a placeholder, or has parts that no
source can give it, has no spelling.
-/

namespace GoSyntax

/-- The ways to spell something. -/
inductive Layout where
  | impossible
  | tokens (kinds : List TokenKind)
  | append (first second : Layout)
  | either (canonical other : Layout)

namespace Layout

instance : Append Layout := ⟨append⟩

/-- Nothing at all. -/
def empty : Layout := tokens []

/-- One token. -/
def token (kind : TokenKind) : Layout := tokens [kind]

/-- The canonical spelling: the first one wherever there is a choice. -/
def canonical : Layout → List TokenKind
  | impossible => []
  | tokens kinds => kinds
  | append first second => first.canonical ++ second.canonical
  | either first _ => first.canonical

/-- A part that may be missing. -/
def maybe : Option Layout → Layout
  | some l => l
  | none => empty

/-- Parts one after another. -/
def concat : List Layout → Layout
  | [] => empty
  | l :: ls => l ++ concat ls

/-- Parts with a separator between them, and something behind the last. -/
def separatedBy (separator : TokenKind) (behind : Layout) : List Layout → Layout
  | [] => empty
  | [l] => l ++ behind
  | l :: ls => l ++ token separator ++ separatedBy separator behind ls

/-- Parts between commas. -/
def joined (ls : List Layout) : Layout := separatedBy Punctuation.comma empty ls

/-- Parts between commas; one more comma may stand behind the last. -/
def listed (ls : List Layout) : Layout := separatedBy Punctuation.comma (either empty (token Punctuation.comma)) ls

/-- Parts with a `;` behind each; the one behind the last may be left out. -/
def terminated (ls : List Layout) : Layout :=
  separatedBy Punctuation.semicolon (either (token Punctuation.semicolon) empty) ls

/-- Something in parentheses. -/
def inParens (l : Layout) : Layout := token Punctuation.lParen ++ l ++ token Punctuation.rParen

/-- Something in brackets. -/
def inBrackets (l : Layout) : Layout := token Punctuation.lBracket ++ l ++ token Punctuation.rBracket

/-- Something in braces. -/
def inBraces (l : Layout) : Layout := token Punctuation.lBrace ++ l ++ token Punctuation.rBrace

/-- The arguments of a call that spreads one of them: a `...` stands behind at least one. -/
def spread : List Layout → Layout
  | [] => impossible
  | [l] => l ++ token Punctuation.ellipsis ++ either empty (token Punctuation.comma)
  | l :: ls =>
    either (l ++ token Punctuation.comma ++ spread ls)
      (l ++ token Punctuation.ellipsis ++ token Punctuation.comma
        ++ listed (ls.map (· ++ either empty (token Punctuation.ellipsis))))

/-- The arguments of a call. -/
def arguments (spreads : Bool) (ls : List Layout) : Layout := if spreads then spread ls else listed ls

/-- The bounds of a slice. The form with three bounds has the last two. -/
def bounds (low high max : Option Layout) (three : Bool) : Layout :=
  match high, max, three with
  | _, none, false => maybe low ++ token Punctuation.colon ++ maybe high
  | some h, some m, true => maybe low ++ token Punctuation.colon ++ h ++ token Punctuation.colon ++ m
  | _, _, _ => impossible

/-- The type of an assertion; `type` for none. -/
def asserted : Option Layout → Layout
  | some l => l
  | none => token Keyword.type

/-- The results of a function. A single one without a name may stand bare, and no results need no parentheses. -/
def results (bare : Bool) : List Layout → Layout
  | [] => either (inParens empty) empty
  | [l] => if bare then either (inParens (listed [l])) l else inParens (listed [l])
  | ls => inParens (listed ls)

/-- The init statement of a header and the `;` behind it. -/
def init : Option Layout → Layout
  | some l => l ++ token Punctuation.semicolon
  | none => either empty (token Punctuation.semicolon)

/-- The header of a loop: a condition on its own, or three parts. -/
def loopHeader (init cond post : Option Layout) : Layout :=
  match init, post with
  | none, none =>
    either (maybe cond) (token Punctuation.semicolon ++ maybe cond ++ token Punctuation.semicolon)
  | _, _ =>
    maybe init ++ token Punctuation.semicolon ++ maybe cond ++ token Punctuation.semicolon ++ maybe post

/-- The operator between the variables of a range clause and its keyword. -/
def rangeOp (define : Bool) : Operator := if define then .define else .assign

/-- The variables of a range clause and the operator behind them. -/
def rangeVars (key value : Option Layout) (define : Bool) : Layout :=
  match key, value, define with
  | some k, none, _ => k ++ token (rangeOp define)
  | some k, some v, _ => k ++ token Punctuation.comma ++ v ++ token (rangeOp define)
  | none, none, false => empty
  | none, _, _ => impossible

/-- The start of a clause. -/
def clauseLabel : Option Layout → Layout
  | some l => token Keyword.case ++ l ++ token Punctuation.colon
  | none => token Keyword.default ++ token Punctuation.colon

/-- The specifications of a declaration: a group, or a single one. -/
def specs (grouped : Bool) (ls : List Layout) : Layout :=
  match grouped, ls with
  | true, ls => inParens (terminated ls)
  | false, [l] => l
  | false, _ => impossible

/-- The values of a specification, if it has some. -/
def values : List Layout → Layout
  | [] => empty
  | ls => token Operator.assign ++ joined ls

/-- A name. -/
def ofName (n : Name) : Layout := token (.ident n.text)

/-- Names between commas. -/
def ofNames (ns : List Name) : Layout := joined (ns.map ofName)

/-- A literal. -/
def ofLiteral (l : Literal) : Layout := token (.literal l.value)

/-- A path of an import. A missing one has no spelling. -/
def ofPath (l : Literal) : Layout := if l.value = .error then impossible else ofLiteral l

/-- The name that an import goes by: a dot for all names. -/
def ofImportName (n : Name) : Layout := if n.text = "." then token Punctuation.dot else ofName n

end Layout

open Layout

/-- The layout of an import. -/
def ImportSpec.layout (s : ImportSpec) : Layout := maybe (s.name.map ofImportName) ++ ofPath s.path

/-- The results are one type without a name. -/
def isBareResult : List Field → Bool
  | [⟨_, [], _, none⟩] => true
  | _ => false

mutual

/-- The layout of an expression. -/
def Expr.layout : Expr → Layout
  | .bad _ => impossible
  | .ident _ name => token (.ident name)
  | .literal _ value => token (.literal value)
  | .composite _ type elements => maybe (layoutOfExpr? type) ++ inBraces (listed (layoutsOfExprs elements))
  | .function _ sig body => token Keyword.func ++ sig.layout ++ body.layout
  | .paren _ inner => inParens inner.layout
  | .selector _ operand field => operand.layout ++ token Punctuation.dot ++ ofName field
  | .assertion _ operand type => operand.layout ++ token Punctuation.dot ++ inParens (asserted (layoutOfExpr? type))
  | .index _ operand subscript => operand.layout ++ inBrackets subscript.layout
  | .slice _ operand low high max three =>
    operand.layout ++ inBrackets (bounds (layoutOfExpr? low) (layoutOfExpr? high) (layoutOfExpr? max) three)
  | .call _ callee args spreads => callee.layout ++ inParens (arguments spreads (layoutsOfExprs args))
  | .star _ operand => token Operator.mul ++ operand.layout
  | .unary _ op operand => token op ++ operand.layout
  | .binary _ op left right => left.layout ++ token op ++ right.layout
  | .keyValue _ key value => key.layout ++ token Punctuation.colon ++ value.layout
  | .arrayType _ length elem => inBrackets length.layout ++ elem.layout
  | .structType _ fields => token Keyword.struct ++ inBraces (terminated (layoutsOfFields fields))
  | .functionType _ sig => token Keyword.func ++ sig.layout
  | .interfaceType _ elems => token Keyword.interface ++ inBraces (terminated (layoutsOfElems elems))
  | .mapType _ key value => token Keyword.map ++ inBrackets key.layout ++ value.layout
  | .channelType _ .both elem => token Keyword.chan ++ elem.layout
  | .channelType _ .send elem => token Keyword.chan ++ token Operator.arrow ++ elem.layout
  | .channelType _ .receive elem => token Operator.arrow ++ token Keyword.chan ++ elem.layout
  | .variadicType _ elem => token Punctuation.ellipsis ++ elem.layout

/-- The layout of an expression that may be missing. -/
def layoutOfExpr? : Option Expr → Option Layout
  | some e => some e.layout
  | none => none

/-- The layouts of expressions. -/
def layoutsOfExprs : List Expr → List Layout
  | [] => []
  | e :: es => e.layout :: layoutsOfExprs es

/-- The layout of the length of an array type. -/
def ArrayLength.layout : ArrayLength → Layout
  | .slice => empty
  | .inferred => token Punctuation.ellipsis
  | .fixed length => length.layout

/-- The layout of a field. -/
def Field.layout : Field → Layout
  | ⟨_, fieldNames, type, tag⟩ => ofNames fieldNames ++ type.layout ++ maybe (tag.map ofLiteral)

/-- The layouts of fields. -/
def layoutsOfFields : List Field → List Layout
  | [] => []
  | f :: fs => f.layout :: layoutsOfFields fs

/-- The layout of a signature. -/
def Signature.layout : Signature → Layout
  | ⟨params, results⟩ =>
    inParens (listed (layoutsOfFields params)) ++ Layout.results (isBareResult results) (layoutsOfFields results)

/-- The layout of an element of an interface. -/
def InterfaceElem.layout : InterfaceElem → Layout
  | .method _ method sig => ofName method ++ sig.layout
  | .embedded _ type => type.layout

/-- The layouts of elements of an interface. -/
def layoutsOfElems : List InterfaceElem → List Layout
  | [] => []
  | e :: es => e.layout :: layoutsOfElems es

/-- The layout of a block. -/
def Block.layout : Block → Layout
  | ⟨_, stmts⟩ => inBraces (terminated (layoutsOfStmts stmts))

/-- The layout of a statement. -/
def Stmt.layout : Stmt → Layout
  | .bad _ => impossible
  | .declaration _ group => group.layout
  | .empty _ => empty
  | .labeled _ label stmt => ofName label ++ token Punctuation.colon ++ stmt.layout
  | .expr _ e => e.layout
  | .send _ channel value => channel.layout ++ token Operator.arrow ++ value.layout
  | .incDec _ op operand => operand.layout ++ token op
  | .assign _ op left right => joined (layoutsOfExprs left) ++ token op ++ joined (layoutsOfExprs right)
  | .go _ call => token Keyword.go ++ call.layout
  | .defer _ call => token Keyword.defer ++ call.layout
  | .return _ values => token Keyword.return ++ joined (layoutsOfExprs values)
  | .branch _ keyword label => token keyword ++ maybe (label.map ofName)
  | .block ⟨_, stmts⟩ => inBraces (terminated (layoutsOfStmts stmts))
  | .if _ init cond body none => token Keyword.if ++ Layout.init (layoutOfStmt? init) ++ cond.layout ++ body.layout
  | .if _ init cond body (some otherwise) =>
    token Keyword.if ++ Layout.init (layoutOfStmt? init) ++ cond.layout ++ body.layout ++ token Keyword.else
      ++ otherwise.layout
  | .switch _ init tag clauses =>
    token Keyword.switch ++ Layout.init (layoutOfStmt? init) ++ maybe (layoutOfExpr? tag)
      ++ inBraces (concat (layoutsOfCases clauses))
  | .typeSwitch _ init guard clauses =>
    token Keyword.switch ++ Layout.init (layoutOfStmt? init) ++ guard.layout ++ inBraces (concat (layoutsOfCases clauses))
  | .select _ clauses => token Keyword.select ++ inBraces (concat (layoutsOfComms clauses))
  | .for _ init cond post body =>
    token Keyword.for ++ loopHeader (layoutOfStmt? init) (layoutOfExpr? cond) (layoutOfStmt? post) ++ body.layout
  | .range _ key value define operand body =>
    token Keyword.for ++ rangeVars (layoutOfExpr? key) (layoutOfExpr? value) define ++ token Keyword.range
      ++ operand.layout ++ body.layout

/-- The layout of a statement that may be missing. -/
def layoutOfStmt? : Option Stmt → Option Layout
  | some s => some s.layout
  | none => none

/-- The layouts of statements. -/
def layoutsOfStmts : List Stmt → List Layout
  | [] => []
  | s :: ss => s.layout :: layoutsOfStmts ss

/-- The layout of a clause of a switch. -/
def CaseClause.layout : CaseClause → Layout
  | ⟨_, cases, body⟩ => clauseLabel (layoutOfCaseList cases) ++ terminated (layoutsOfStmts body)

/-- The layout of the list of a clause. -/
def layoutOfCaseList : Option (List Expr) → Option Layout
  | some es => some (joined (layoutsOfExprs es))
  | none => none

/-- The layouts of clauses of a switch. -/
def layoutsOfCases : List CaseClause → List Layout
  | [] => []
  | c :: cs => c.layout :: layoutsOfCases cs

/-- The layout of a clause of a select. -/
def CommClause.layout : CommClause → Layout
  | ⟨_, comm, body⟩ => clauseLabel (layoutOfStmt? comm) ++ terminated (layoutsOfStmts body)

/-- The layouts of clauses of a select. -/
def layoutsOfComms : List CommClause → List Layout
  | [] => []
  | c :: cs => c.layout :: layoutsOfComms cs

/-- The layout of a declaration other than that of a function. -/
def DeclGroup.layout : DeclGroup → Layout
  | ⟨keyword, specs, grouped⟩ => token keyword ++ Layout.specs grouped (layoutsOfSpecs specs)

/-- The layout of a specification. -/
def Spec.layout : Spec → Layout
  | .import _ spec => spec.layout
  | .value _ specNames type values => ofNames specNames ++ maybe (layoutOfExpr? type) ++ Layout.values (layoutsOfExprs values)
  | .type _ typeName type => ofName typeName ++ type.layout

/-- The layouts of specifications. -/
def layoutsOfSpecs : List Spec → List Layout
  | [] => []
  | s :: ss => s.layout :: layoutsOfSpecs ss

end

/-- The layout of a receiver, if there is one. -/
def layoutOfReceiver : Option (List Field) → Layout
  | some fields => inParens (listed (layoutsOfFields fields))
  | none => empty

/-- The layout of the declaration of a function. -/
def FuncDecl.layout (f : FuncDecl) : Layout :=
  token Keyword.func ++ layoutOfReceiver f.receiver ++ ofName f.name ++ f.sig.layout ++ maybe (f.body.map Block.layout)

/-- The layout of a declaration and the `;` behind it. -/
def Decl.layout : Decl → Layout
  | .bad _ => impossible
  | .group _ g => g.layout ++ token Punctuation.semicolon
  | .func _ f => f.layout ++ token Punctuation.semicolon

/-- The layout of a file. -/
def SourceFile.layout (f : SourceFile) : Layout :=
  token Keyword.package ++ ofName f.package ++ token Punctuation.semicolon ++ concat (f.decls.map Decl.layout)

end GoSyntax
