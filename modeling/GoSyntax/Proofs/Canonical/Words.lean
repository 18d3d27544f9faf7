import GoSyntax.Proofs.Canonical.InGrammar
import GoSyntax.Proofs.TreeTally
import GoSyntax.Tree.Shape

/-!
# Words: the canonical spelling of a tree

The word of a part of a tree is the list of kinds of tokens that spells it canonically. There is one equation for each constructor. The
first token of a word says what it spells: an expression, a type, or a statement that is neither.
-/

namespace GoSyntax

open Layout

/-- Words with commas between them. -/
def commas : List (List TokenKind) → List TokenKind
  | [] => []
  | [w] => w
  | w :: ws => w ++ .punctuation .comma :: commas ws

theorem commas_cons_cons (w w' : List TokenKind) (ws : List (List TokenKind)) :
    commas (w :: w' :: ws) = w ++ .punctuation .comma :: commas (w' :: ws) := rfl

theorem commas_cons (w : List TokenKind) (ws : List (List TokenKind)) :
    commas (w :: ws) = w ++ ws.flatMap (.punctuation .comma :: ·) := by
  induction ws generalizing w with
  | nil => exact (List.append_nil w).symm
  | cons w' ws ih => rw [commas_cons_cons, ih, List.flatMap_cons, List.cons_append]

/-- Words with a `;` behind each. -/
def terminatedWords (ws : List (List TokenKind)) : List TokenKind := ws.flatMap (· ++ [.punctuation .semicolon])

namespace Layout

@[simp] theorem canonical_token (kind : TokenKind) : (token kind).canonical = [kind] := rfl

@[simp] theorem canonical_empty : empty.canonical = [] := rfl

@[simp] theorem canonical_append (l m : Layout) : (l ++ m).canonical = l.canonical ++ m.canonical := rfl

theorem canonical_separatedBy_comma (behind : Layout) (hbehind : behind.canonical = []) (ls : List Layout) :
    (separatedBy Punctuation.comma behind ls).canonical = commas (ls.map canonical) := by
  induction ls with
  | nil => rfl
  | cons l ls ih =>
    cases ls with
    | nil =>
      change l.canonical ++ behind.canonical = l.canonical
      rw [hbehind, List.append_nil]
    | cons l' ls =>
      change (l.canonical ++ [_]) ++ (separatedBy Punctuation.comma behind (l' :: ls)).canonical = _
      rw [ih, List.append_assoc]
      rfl

@[simp] theorem canonical_joined (ls : List Layout) : (joined ls).canonical = commas (ls.map canonical) :=
  canonical_separatedBy_comma _ rfl ls

@[simp] theorem canonical_listed (ls : List Layout) : (listed ls).canonical = commas (ls.map canonical) :=
  canonical_separatedBy_comma _ rfl ls

@[simp] theorem canonical_terminated (ls : List Layout) : (terminated ls).canonical = terminatedWords (ls.map canonical) := by
  induction ls with
  | nil => rfl
  | cons l ls ih =>
    cases ls with
    | nil =>
      change l.canonical ++ [_] = (l.canonical ++ [_]) ++ []
      rw [List.append_nil]
    | cons l' ls =>
      change (l.canonical ++ [_]) ++ (terminated (l' :: ls)).canonical = (l.canonical ++ [_]) ++ _
      rw [ih]
      rfl

@[simp] theorem canonical_concat (ls : List Layout) : (concat ls).canonical = ls.flatMap canonical := by
  induction ls with
  | nil => rfl
  | cons l ls ih => exact congrArg (l.canonical ++ ·) ih

@[simp] theorem canonical_inParens (l : Layout) :
    (inParens l).canonical = .punctuation .lParen :: (l.canonical ++ [.punctuation .rParen]) := rfl

@[simp] theorem canonical_inBrackets (l : Layout) :
    (inBrackets l).canonical = .punctuation .lBracket :: (l.canonical ++ [.punctuation .rBracket]) := rfl

@[simp] theorem canonical_inBraces (l : Layout) :
    (inBraces l).canonical = .punctuation .lBrace :: (l.canonical ++ [.punctuation .rBrace]) := rfl

end Layout

/-! ## The words of the parts of a tree -/

/-- The word of a part that may be missing. -/
def wordOf? {α : Type} (word : α → List TokenKind) : Option α → List TokenKind
  | some a => word a
  | none => []

/-- The word of a name. -/
def Name.word (n : Name) : List TokenKind := [.ident n.text]

/-- The word of a literal. -/
def Literal.word (l : Literal) : List TokenKind := [.literal l.value]

/-- The word of an expression. -/
def Expr.word (e : Expr) : List TokenKind := e.layout.canonical

/-- The word of the length of an array type. -/
def ArrayLength.word (l : ArrayLength) : List TokenKind := l.layout.canonical

/-- The word of a field. -/
def Field.word (f : Field) : List TokenKind := f.layout.canonical

/-- The word of a signature. -/
def Signature.word (s : Signature) : List TokenKind := s.layout.canonical

/-- The word of an element of an interface. -/
def InterfaceElem.word (e : InterfaceElem) : List TokenKind := e.layout.canonical

/-- The word of a block. -/
def Block.word (b : Block) : List TokenKind := b.layout.canonical

/-- The word of a statement. -/
def Stmt.word (s : Stmt) : List TokenKind := s.layout.canonical

/-- The word of a clause of a switch. -/
def CaseClause.word (c : CaseClause) : List TokenKind := c.layout.canonical

/-- The word of a clause of a select. -/
def CommClause.word (c : CommClause) : List TokenKind := c.layout.canonical

/-- The word of a declaration other than that of a function. -/
def DeclGroup.word (g : DeclGroup) : List TokenKind := g.layout.canonical

/-- The word of a specification. -/
def Spec.word (s : Spec) : List TokenKind := s.layout.canonical

/-- The word of names. -/
def namesWord (ns : List Name) : List TokenKind := commas (ns.map Name.word)

theorem namesWord_cons (n : Name) (ns : List Name) :
    namesWord (n :: ns) = .ident n.text :: (ns.map Name.word).flatMap (.punctuation .comma :: ·) := commas_cons _ _

/-- The word of expressions. -/
def exprsWord (es : List Expr) : List TokenKind := commas (es.map Expr.word)

theorem exprsWord_cons (e : Expr) (es : List Expr) :
    exprsWord (e :: es) = e.word ++ (es.map Expr.word).flatMap (.punctuation .comma :: ·) := commas_cons _ _

/-- The word of parameters or results. -/
def fieldsWord (fs : List Field) : List TokenKind := commas (fs.map Field.word)

theorem fieldsWord_cons (f : Field) (fs : List Field) :
    fieldsWord (f :: fs) = f.word ++ (fs.map Field.word).flatMap (.punctuation .comma :: ·) := commas_cons _ _

theorem canonical_layoutOfExpr? (e : Option Expr) : (maybe (layoutOfExpr? e)).canonical = wordOf? Expr.word e := by
  cases e <;> rfl

theorem canonical_layoutsOfExprs (es : List Expr) : commas ((layoutsOfExprs es).map canonical) = exprsWord es := by
  rw [layoutsOfExprs_eq, List.map_map]
  rfl

theorem canonical_layoutsOfFields (fs : List Field) : commas ((layoutsOfFields fs).map canonical) = fieldsWord fs := by
  rw [layoutsOfFields_eq, List.map_map]
  rfl

theorem canonical_ofNames (ns : List Name) : (ofNames ns).canonical = namesWord ns := by
  rw [ofNames, canonical_joined, List.map_map]
  rfl

/-! ## Expressions -/

namespace Expr

theorem word_composite (loc : Location) (type : Option Expr) (elements : List Expr) : (composite loc type elements).word
    = wordOf? word type ++ .punctuation .lBrace :: (exprsWord elements ++ [.punctuation .rBrace]) := by
  rw [word, layout, canonical_append, canonical_layoutOfExpr?, canonical_inBraces, canonical_listed, canonical_layoutsOfExprs]

theorem word_function (loc : Location) (sig : Signature) (body : Block) :
    (function loc sig body).word = .keyword .func :: (sig.word ++ body.word) := rfl

theorem word_paren (loc : Location) (inner : Expr) :
    (paren loc inner).word = .punctuation .lParen :: (inner.word ++ [.punctuation .rParen]) := rfl

theorem word_selector (loc : Location) (operand : Expr) (field : Name) :
    (selector loc operand field).word = operand.word ++ [.punctuation .dot, .ident field.text] :=
  List.append_assoc _ _ _

/-- The word of the type of an assertion. -/
def assertedWord : Option Expr → List TokenKind
  | some t => t.word
  | none => [.keyword .type]

theorem word_assertion (loc : Location) (operand : Expr) (type : Option Expr) : (assertion loc operand type).word
    = operand.word ++ .punctuation .dot :: .punctuation .lParen :: (assertedWord type ++ [.punctuation .rParen]) := by
  rw [word, layout, canonical_append, canonical_append, List.append_assoc]
  cases type <;> rfl

theorem word_index (loc : Location) (operand subscript : Expr) : (index loc operand subscript).word
    = operand.word ++ .punctuation .lBracket :: (subscript.word ++ [.punctuation .rBracket]) := rfl

/-- The word of the bounds of a slice. -/
def boundsWord (low high max : Option Expr) (three : Bool) : List TokenKind :=
  wordOf? word low ++ .punctuation .colon :: (wordOf? word high
    ++ if three then .punctuation .colon :: wordOf? word max else [])

theorem word_slice (loc : Location) (operand : Expr) {low high max : Option Expr} {three : Bool} (hmax : max.isSome = three)
    (hhigh : three = true → high.isSome = true) : (slice loc operand low high max three).word
      = operand.word ++ .punctuation .lBracket :: (boundsWord low high max three ++ [.punctuation .rBracket]) := by
  have hbounds : (bounds (layoutOfExpr? low) (layoutOfExpr? high) (layoutOfExpr? max) three).canonical
      = boundsWord low high max three := by
    subst hmax
    cases max with
    | none =>
      have hlayout : bounds (layoutOfExpr? low) (layoutOfExpr? high) (layoutOfExpr? none) false
          = maybe (layoutOfExpr? low) ++ token Punctuation.colon ++ maybe (layoutOfExpr? high) := by
        cases high <;> rfl
      rw [Option.isSome_none, hlayout, canonical_append, canonical_append, canonical_layoutOfExpr?, canonical_layoutOfExpr?,
        List.append_assoc, boundsWord, if_neg Bool.false_ne_true, List.append_nil]
      rfl
    | some m =>
      obtain ⟨h, rfl⟩ := Option.isSome_iff_exists.1 (hhigh rfl)
      rw [Option.isSome_some, layoutOfExpr?, layoutOfExpr?, bounds, canonical_append, canonical_append, canonical_append,
        canonical_append, canonical_layoutOfExpr?, boundsWord, if_pos rfl, List.append_assoc, List.append_assoc, List.append_assoc]
      rfl
  rw [word, layout, canonical_append, canonical_inBrackets, hbounds]
  rfl

/-- The arguments of a call; the last is marked if the call spreads it. -/
def marked (spread : Bool) : List Expr → List (Expr × Bool)
  | [] => []
  | [e] => [(e, spread)]
  | e :: es => (e, false) :: marked spread es

/-- The word of an argument and of the `...` behind it. -/
def argumentWord (arg : Expr × Bool) : List TokenKind := arg.1.word ++ if arg.2 then [.punctuation .ellipsis] else []

theorem canonical_arguments (args : List Expr) (spread : Bool) (hspread : spread = true → args ≠ []) :
    (arguments spread (layoutsOfExprs args)).canonical = commas ((marked spread args).map argumentWord) := by
  cases spread with
  | false =>
    rw [arguments, if_neg Bool.false_ne_true, canonical_listed, canonical_layoutsOfExprs, exprsWord]
    congr 1
    clear hspread
    induction args with
    | nil => rfl
    | cons e es ih =>
      cases es with
      | nil => simp [marked, argumentWord]
      | cons e' es =>
        rw [List.map_cons, ih]
        simp [marked, argumentWord]
  | true =>
    rw [arguments, if_pos rfl]
    have hne := hspread rfl
    clear hspread
    induction args with
    | nil => exact absurd rfl hne
    | cons e es ih =>
      cases es with
      | nil => exact List.append_nil _
      | cons e' es =>
        change (e.layout.canonical ++ [_]) ++ (spread (layoutsOfExprs (e' :: es))).canonical = _
        rw [ih (List.cons_ne_nil _ _)]
        cases es <;> simp [marked, argumentWord, commas, word]

theorem word_call (loc : Location) (callee : Expr) {args : List Expr} {spread : Bool} (hspread : spread = true → args ≠ []) :
    (call loc callee args spread).word = callee.word
      ++ .punctuation .lParen :: (commas ((marked spread args).map argumentWord) ++ [.punctuation .rParen]) := by
  rw [word, layout, canonical_append, canonical_inParens, canonical_arguments args spread hspread]
  rfl

theorem word_binary (loc : Location) (op : Operator) (left right : Expr) :
    (binary loc op left right).word = left.word ++ .operator op :: right.word :=
  List.append_assoc _ _ _

theorem word_keyValue (loc : Location) (key value : Expr) :
    (keyValue loc key value).word = key.word ++ .punctuation .colon :: value.word :=
  List.append_assoc _ _ _

theorem word_arrayType (loc : Location) (length : ArrayLength) (elem : Expr) :
    (arrayType loc length elem).word = .punctuation .lBracket :: (length.word ++ .punctuation .rBracket :: elem.word) := by
  rw [word, layout, canonical_append, canonical_inBrackets, List.cons_append, List.append_assoc]
  rfl

theorem word_structType (loc : Location) (fields : List Field) : (structType loc fields).word
    = .keyword .struct :: .punctuation .lBrace :: (terminatedWords (fields.map Field.word) ++ [.punctuation .rBrace]) := by
  rw [word, layout, canonical_append, canonical_inBraces, canonical_terminated, layoutsOfFields_eq, List.map_map]
  rfl

theorem word_interfaceType (loc : Location) (elems : List InterfaceElem) : (interfaceType loc elems).word
    = .keyword .interface :: .punctuation .lBrace
      :: (terminatedWords (elems.map InterfaceElem.word) ++ [.punctuation .rBrace]) := by
  rw [word, layout, canonical_append, canonical_inBraces, canonical_terminated, layoutsOfElems_eq, List.map_map]
  rfl

theorem word_mapType (loc : Location) (key value : Expr) : (mapType loc key value).word
    = .keyword .map :: .punctuation .lBracket :: (key.word ++ .punctuation .rBracket :: value.word) := by
  rw [word, layout, canonical_append, canonical_append, canonical_inBrackets, canonical_token, List.singleton_append,
    List.cons_append, List.cons_append, List.append_assoc]
  rfl

end Expr

/-- The word of a direction. -/
def ChannelDirection.word : ChannelDirection → List TokenKind
  | both => [.keyword .chan]
  | send => [.keyword .chan, .operator .arrow]
  | receive => [.operator .arrow, .keyword .chan]

theorem Expr.word_channelType (loc : Location) (direction : ChannelDirection) (elem : Expr) :
    (channelType loc direction elem).word = direction.word ++ elem.word := by
  cases direction <;> rfl

theorem Field.word_mk (loc : Location) (names : List Name) (type : Expr) (tag : Option Literal) :
    (Field.mk loc names type tag).word = namesWord names ++ (type.word ++ wordOf? Literal.word tag) := by
  rw [word, layout, canonical_append, canonical_append, canonical_ofNames, List.append_assoc]
  cases tag <;> rfl

theorem Signature.word_mk (params results : List Field) : (Signature.mk params results).word
    = .punctuation .lParen :: (fieldsWord params ++ .punctuation .rParen
      :: .punctuation .lParen :: (fieldsWord results ++ [.punctuation .rParen])) := by
  have hresults : (Layout.results (isBareResult results) (layoutsOfFields results)).canonical
      = .punctuation .lParen :: (fieldsWord results ++ [.punctuation .rParen]) := by
    rw [← canonical_layoutsOfFields, ← canonical_listed, ← canonical_inParens]
    rcases results with _ | ⟨f, _ | ⟨f', fs⟩⟩
    · rfl
    · rw [layoutsOfFields, layoutsOfFields, Layout.results]
      split <;> rfl
    · rfl
  rw [word, layout, canonical_append, canonical_inParens, canonical_listed, canonical_layoutsOfFields, hresults,
    List.cons_append, List.append_assoc]
  rfl

theorem InterfaceElem.word_method (loc : Location) (name : Name) (sig : Signature) :
    (method loc name sig).word = .ident name.text :: sig.word := rfl

theorem Block.word_mk (loc : Location) (stmts : List Stmt) : (Block.mk loc stmts).word
    = .punctuation .lBrace :: (terminatedWords (stmts.map Stmt.word) ++ [.punctuation .rBrace]) := by
  rw [word, layout, canonical_inBraces, canonical_terminated, layoutsOfStmts_eq, List.map_map]
  rfl

/-! ## Statements -/

namespace Stmt

/-- The word of the init statement of a header and of the `;` behind it. -/
def initWord : Option Stmt → List TokenKind
  | some s => s.word ++ [.punctuation .semicolon]
  | none => []

theorem canonical_init (s : Option Stmt) : (Layout.init (layoutOfStmt? s)).canonical = initWord s := by cases s <;> rfl

theorem word_declaration (loc : Location) (group : DeclGroup) : (declaration loc group).word = group.word := rfl

theorem word_send (loc : Location) (channel value : Expr) :
    (send loc channel value).word = channel.word ++ .operator .arrow :: value.word :=
  List.append_assoc _ _ _

theorem word_incDec (loc : Location) (op : Operator) (operand : Expr) :
    (incDec loc op operand).word = operand.word ++ [.operator op] := rfl

theorem word_assign (loc : Location) (op : Operator) (left right : List Expr) :
    (assign loc op left right).word = exprsWord left ++ .operator op :: exprsWord right := by
  rw [word, layout, canonical_append, canonical_append, canonical_joined, canonical_joined, canonical_layoutsOfExprs,
    canonical_layoutsOfExprs, List.append_assoc]
  rfl

theorem word_return (loc : Location) (values : List Expr) : (Stmt.return loc values).word = .keyword .return :: exprsWord values := by
  rw [word, layout, canonical_append, canonical_joined, canonical_layoutsOfExprs]
  rfl

theorem word_branch (loc : Location) (keyword : Keyword) (label : Option Name) :
    (branch loc keyword label).word = .keyword keyword :: wordOf? Name.word label := by
  cases label <;> rfl

theorem word_block (body : Block) : (block body).word = body.word := by
  cases body
  rfl

/-- The word of what stands behind the body of an `if`. -/
def otherwiseWord : Option Stmt → List TokenKind
  | some s => .keyword .else :: s.word
  | none => []

theorem word_if (loc : Location) (init : Option Stmt) (cond : Expr) (body : Block) (otherwise : Option Stmt) :
    (Stmt.if loc init cond body otherwise).word
      = .keyword .if :: (initWord init ++ (cond.word ++ (body.word ++ otherwiseWord otherwise))) := by
  rw [← canonical_init]
  cases otherwise with
  | none =>
    rw [word, layout, canonical_append, canonical_append, canonical_append, otherwiseWord, List.append_nil, List.append_assoc,
      List.append_assoc]
    rfl
  | some s =>
    rw [word, layout, canonical_append, canonical_append, canonical_append, canonical_append, canonical_append, List.append_assoc,
      List.append_assoc, List.append_assoc, List.append_assoc]
    rfl

/-- The word of clauses in braces. -/
def clausesWord (ws : List (List TokenKind)) : List TokenKind := .punctuation .lBrace :: (ws.flatten ++ [.punctuation .rBrace])

theorem canonical_cases (clauses : List CaseClause) :
    (inBraces (concat (layoutsOfCases clauses))).canonical = clausesWord (clauses.map CaseClause.word) := by
  rw [canonical_inBraces, canonical_concat, layoutsOfCases_eq, List.flatMap_map]
  rfl

theorem canonical_comms (clauses : List CommClause) :
    (inBraces (concat (layoutsOfComms clauses))).canonical = clausesWord (clauses.map CommClause.word) := by
  rw [canonical_inBraces, canonical_concat, layoutsOfComms_eq, List.flatMap_map]
  rfl

theorem word_switch (loc : Location) (init : Option Stmt) (tag : Option Expr) (clauses : List CaseClause) :
    (switch loc init tag clauses).word
      = .keyword .switch :: (initWord init ++ (wordOf? Expr.word tag ++ clausesWord (clauses.map CaseClause.word))) := by
  rw [← canonical_init, ← canonical_cases, ← canonical_layoutOfExpr?, word, layout, canonical_append, canonical_append,
    canonical_append, List.append_assoc, List.append_assoc]
  rfl

theorem word_typeSwitch (loc : Location) (init : Option Stmt) (guard : Stmt) (clauses : List CaseClause) :
    (typeSwitch loc init guard clauses).word
      = .keyword .switch :: (initWord init ++ (guard.word ++ clausesWord (clauses.map CaseClause.word))) := by
  rw [← canonical_init, ← canonical_cases, word, layout, canonical_append, canonical_append, canonical_append, List.append_assoc,
    List.append_assoc]
  rfl

theorem word_select (loc : Location) (clauses : List CommClause) :
    (select loc clauses).word = .keyword .select :: clausesWord (clauses.map CommClause.word) := by
  rw [← canonical_comms]
  rfl

/-- The word of the header of a loop. -/
def loopWord (init : Option Stmt) (cond : Option Expr) (post : Option Stmt) : List TokenKind :=
  if init.isSome || post.isSome then
    wordOf? word init ++ .punctuation .semicolon :: (wordOf? Expr.word cond ++ .punctuation .semicolon :: wordOf? word post)
  else wordOf? Expr.word cond

theorem word_for (loc : Location) (init : Option Stmt) (cond : Option Expr) (post : Option Stmt) (body : Block) :
    (Stmt.for loc init cond post body).word = .keyword .for :: (loopWord init cond post ++ body.word) := by
  have hheader : (loopHeader (layoutOfStmt? init) (layoutOfExpr? cond) (layoutOfStmt? post)).canonical
      = loopWord init cond post := by
    cases init <;> cases post <;> cases cond <;>
      simp [loopHeader, layoutOfStmt?, layoutOfExpr?, loopWord, wordOf?, maybe, canonical, word, Expr.word]
  rw [← hheader]
  rfl

/-- The word of the variables of a range clause and of the operator behind them. -/
def rangeWord (key value : Option Expr) (define : Bool) : List TokenKind :=
  match key, value with
  | none, _ => []
  | some k, none => k.word ++ [.operator (rangeOp define)]
  | some k, some v => k.word ++ .punctuation .comma :: (v.word ++ [.operator (rangeOp define)])

theorem word_range (loc : Location) {key value : Option Expr} {define : Bool} (operand : Expr) (body : Block)
    (hkey : key = none → value = none ∧ define = false) : (range loc key value define operand body).word
      = .keyword .for :: (rangeWord key value define ++ .keyword .range :: (operand.word ++ body.word)) := by
  have hvars : (rangeVars (layoutOfExpr? key) (layoutOfExpr? value) define).canonical = rangeWord key value define := by
    cases key with
    | none =>
      obtain ⟨rfl, rfl⟩ := hkey rfl
      rfl
    | some k => cases value <;> simp [rangeVars, layoutOfExpr?, rangeWord, Expr.word]
  rw [← hvars, word, layout, canonical_append, canonical_append, canonical_append, canonical_append, List.append_assoc,
    List.append_assoc, List.append_assoc]
  rfl

end Stmt

/-- The word of the start of a clause. -/
def labelWord : Option (List TokenKind) → List TokenKind
  | some w => .keyword .case :: (w ++ [.punctuation .colon])
  | none => [.keyword .default, .punctuation .colon]

theorem CaseClause.word_mk (loc : Location) (list : Option (List Expr)) (body : List Stmt) :
    (CaseClause.mk loc list body).word = labelWord (list.map exprsWord) ++ terminatedWords (body.map Stmt.word) := by
  rw [word, layout, canonical_append, canonical_terminated, layoutsOfStmts_eq, List.map_map]
  cases list with
  | none => rfl
  | some es =>
    change (_ :: (joined (layoutsOfExprs es)).canonical ++ _) ++ _ = _
    rw [canonical_joined, canonical_layoutsOfExprs]
    rfl

theorem CommClause.word_mk (loc : Location) (comm : Option Stmt) (body : List Stmt) :
    (CommClause.mk loc comm body).word = labelWord (comm.map Stmt.word) ++ terminatedWords (body.map Stmt.word) := by
  rw [word, layout, canonical_append, canonical_terminated, layoutsOfStmts_eq, List.map_map]
  cases comm <;> rfl

/-! ## Declarations -/

theorem DeclGroup.word_group (keyword : Keyword) (specs : List Spec) : (DeclGroup.mk keyword specs true).word
    = .keyword keyword :: .punctuation .lParen :: (terminatedWords (specs.map Spec.word) ++ [.punctuation .rParen]) := by
  rw [word, layout, canonical_append, Layout.specs, canonical_inParens, canonical_terminated, layoutsOfSpecs_eq, List.map_map]
  rfl

theorem DeclGroup.word_single (keyword : Keyword) (spec : Spec) :
    (DeclGroup.mk keyword [spec] false).word = .keyword keyword :: spec.word := rfl

namespace Spec

/-- The word of the name of an import: a dot for all names. -/
def importNameWord (n : Name) : List TokenKind := if n.text = "." then [.punctuation .dot] else n.word

theorem word_import (loc : Location) (spec : ImportSpec) (hpath : spec.path.isString = true) :
    (Spec.import loc spec).word = wordOf? importNameWord spec.name ++ spec.path.word := by
  have hpath' : (ofPath spec.path).canonical = spec.path.word := by
    rw [ofPath, if_neg]
    · rfl
    · intro herror
      rw [Literal.isString, herror] at hpath
      exact nomatch hpath
  rw [word, layout, ImportSpec.layout, canonical_append, hpath']
  cases spec.name with
  | none => rfl
  | some n =>
    change (ofImportName n).canonical ++ _ = importNameWord n ++ _
    rw [ofImportName, importNameWord]
    split <;> rfl

/-- The word of values and of the `=` before them. -/
def valuesWord : List Expr → List TokenKind
  | [] => []
  | es => .operator .assign :: exprsWord es

theorem word_value (loc : Location) (names : List Name) (type : Option Expr) (values : List Expr) :
    (value loc names type values).word = namesWord names ++ (wordOf? Expr.word type ++ valuesWord values) := by
  have hvalues : (Layout.values (layoutsOfExprs values)).canonical = valuesWord values := by
    cases values with
    | nil => rfl
    | cons e es =>
      rw [valuesWord, ← canonical_layoutsOfExprs, ← canonical_joined]
      · rfl
      · exact List.cons_ne_nil e es
  rw [word, layout, canonical_append, canonical_append, canonical_ofNames, canonical_layoutOfExpr?, hvalues, List.append_assoc]

end Spec

/-- The word of a receiver. -/
def receiverWord : Option (List Field) → List TokenKind
  | some fields => .punctuation .lParen :: (fieldsWord fields ++ [.punctuation .rParen])
  | none => []

/-- The word of the declaration of a function. -/
def FuncDecl.word (f : FuncDecl) : List TokenKind := f.layout.canonical

/-- The word of a declaration and of the `;` behind it. -/
def Decl.word (d : Decl) : List TokenKind := d.layout.canonical

/-- The word of a file. -/
def SourceFile.word (f : SourceFile) : List TokenKind := f.layout.canonical

theorem FuncDecl.word_mk (receiver : Option (List Field)) (name : Name) (sig : Signature) (body : Option Block) :
    (FuncDecl.mk receiver name sig body).word
      = .keyword .func :: (receiverWord receiver ++ .ident name.text :: (sig.word ++ wordOf? Block.word body)) := by
  have hreceiver : (layoutOfReceiver receiver).canonical = receiverWord receiver := by
    cases receiver with
    | none => rfl
    | some fields => rw [layoutOfReceiver, canonical_inParens, canonical_listed, canonical_layoutsOfFields, receiverWord]
  have hbody : (maybe (body.map Block.layout)).canonical = wordOf? Block.word body := by cases body <;> rfl
  rw [word, layout, canonical_append, canonical_append, canonical_append, canonical_append, hreceiver, hbody, List.append_assoc,
    List.append_assoc, List.append_assoc]
  rfl

theorem Decl.word_group (loc : Location) (g : DeclGroup) : (group loc g).word = g.word ++ [.punctuation .semicolon] := rfl

theorem Decl.word_func (loc : Location) (f : FuncDecl) : (func loc f).word = f.word ++ [.punctuation .semicolon] := rfl

theorem SourceFile.word_mk (loc : Location) (package : Name) (decls : List Decl) : (SourceFile.mk loc package decls).word
    = .keyword .package :: .ident package.text :: .punctuation .semicolon :: decls.flatMap Decl.word := by
  rw [word, layout, canonical_append, canonical_concat, List.flatMap_map]
  rfl

/-! ## The first token of a word -/

/-- The token can start a type. -/
def TokenKind.startsType : TokenKind → Bool
  | .ident _ => true
  | .punctuation mark => mark == .lParen || mark == .lBracket
  | .operator op => op == .mul || op == .arrow
  | .keyword word => word == .struct || word == .interface || word == .map || word == .chan || word == .func
  | _ => false

/-- The token can start an expression. -/
def TokenKind.startsValue : TokenKind → Bool
  | .literal _ => true
  | .operator op => op.standsBefore
  | kind => kind.startsType

/-- The kind of the token that comes next. -/
abbrev nextKind : List TokenKind → TokenKind
  | [] => .eof
  | kind :: _ => kind

namespace TokenKind

/-- Of two kinds that agree, both start something or none. -/
theorem sameKind_eq_false {starts : TokenKind → Bool}
    (hstarts : ∀ kind kind', sameKind kind kind' = true → starts kind = starts kind')
    {kind kind' : TokenKind} (h : starts kind = true) (h' : starts kind' = false) : kind.sameKind kind' = false := by
  refine eq_false_of_ne_true fun hsame => ?_
  rw [hstarts _ _ hsame, h'] at h
  exact Bool.false_ne_true h

theorem sameKind_of_startsType {kind kind' : TokenKind} (h : kind.startsType = true) (h' : kind'.startsType = false) :
    kind.sameKind kind' = false :=
  sameKind_eq_false (fun k k' => by cases k <;> cases k' <;> simp_all [sameKind, startsType]) h h'

theorem sameKind_of_startsValue {kind kind' : TokenKind} (h : kind.startsValue = true) (h' : kind'.startsValue = false) :
    kind.sameKind kind' = false :=
  sameKind_eq_false (fun k k' => by cases k <;> cases k' <;> simp_all [sameKind, startsType, startsValue]) h h'

end TokenKind

namespace Expr

/-- The word of a type starts like one. -/
theorem startsType_word {e : Expr} {inferable : Bool} (h : e.IsType inferable) (tail : List TokenKind) :
    (nextKind (e.word ++ tail)).startsType = true := by
  cases e with
  | ident loc name => rfl
  | selector loc operand field =>
    cases operand with
    | ident _ _ => rfl
    | _ => exact h.elim
  | channelType loc direction elem => cases direction <;> rfl
  | paren | star | arrayType | structType | functionType | interfaceType | mapType => rfl
  | _ => exact h.elim

theorem rank_of_isOperand {e : Expr} (h : e.isOperand = true) : e.rank = 7 := by
  rw [isOperand, Bool.and_eq_true, decide_eq_true_eq] at h
  exact h.1

theorem rank_of_isTypeForm {e : Expr} (h : e.isTypeForm = true) : e.rank = 7 := by
  cases e with
  | arrayType | structType | functionType | interfaceType | mapType | channelType => rfl
  | _ => nomatch h

theorem rank_of_callee {e : Expr} (h : (e.isOperand || e.isTypeForm) = true) : e.rank = 7 := by
  rcases Bool.or_eq_true_iff.1 h with h | h
  · exact rank_of_isOperand h
  · exact rank_of_isTypeForm h

theorem rank_of_takesBody {e : Expr} {level : Int} (h : Grammar.takesBody level e = true) : e.rank = 7 := by
  rw [Grammar.takesBody, Bool.and_eq_true] at h
  obtain ⟨hliteral, -⟩ := h
  cases e with
  | ident | selector | arrayType | structType | mapType => rfl
  | _ => nomatch hliteral

/-- The word of an expression starts like one. -/
theorem startsValue_word {e : Expr} {level : Int} (h : e.InGrammar level) (hrank : 0 < e.rank) (tail : List TokenKind) :
    (nextKind (e.word ++ tail)).startsValue = true := by
  cases e with
  | bad | keyValue | variadicType => exact absurd hrank (Nat.lt_irrefl 0)
  | ident | literal | function | paren | star | arrayType | structType | functionType | interfaceType | mapType => rfl
  | channelType loc direction elem => cases direction <;> rfl
  | composite loc type elements =>
    cases type with
    | none => exact absurd hrank (Nat.lt_irrefl 0)
    | some t =>
      obtain ⟨htakes, ht, -⟩ := h
      rw [word_composite, List.append_assoc]
      exact startsValue_word ht (by rw [rank_of_takesBody htakes]; decide) _
  | selector loc operand field =>
    rw [word_selector, List.append_assoc]
    exact startsValue_word h.2 (by rw [rank_of_isOperand h.1]; decide) _
  | assertion loc operand type =>
    rw [word_assertion, List.append_assoc]
    exact startsValue_word h.2.1 (by rw [rank_of_isOperand h.1]; decide) _
  | index loc operand subscript =>
    rw [word_index, List.append_assoc]
    exact startsValue_word h.2.1 (by rw [rank_of_isOperand h.1]; decide) _
  | slice loc operand low high max three =>
    obtain ⟨hop, hin, hmax, hhigh, -⟩ := h
    rw [word_slice loc operand hmax hhigh, List.append_assoc]
    exact startsValue_word hin (by rw [rank_of_isOperand hop]; decide) _
  | call loc callee args spread =>
    obtain ⟨hop, hin, hspread, -⟩ := h
    rw [word_call loc callee hspread, List.append_assoc]
    exact startsValue_word hin (by rw [rank_of_callee hop]; decide) _
  | unary loc op operand => exact h.1
  | binary loc op left right =>
    obtain ⟨-, hleft, -, hin, -⟩ := h
    rw [word_binary, List.append_assoc]
    exact startsValue_word hin (Nat.lt_of_lt_of_le hrank hleft) _
termination_by sizeOf e

end Expr

end GoSyntax
