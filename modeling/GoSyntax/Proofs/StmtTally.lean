import GoSyntax.Proofs.TreeTally

/-!
# The tallies of signatures, statements and declarations

Again one equation or inequality for each way to write a part.
-/

namespace GoSyntax

open Layout

/-! ## Fields and signatures -/

theorem Field.tally_eq (f : Field) :
    f.tally = .joined (f.names.map Name.tally) * f.type.tally * .maybe (f.tag.map Literal.tally) := by
  obtain ⟨loc, fieldNames, t, tag⟩ := f
  change (ofNames fieldNames ++ t.layout ++ maybe (tag.map ofLiteral)).tally
    (nodesOfNames fieldNames ++ t.nodes ++ nodesOfLiteral? tag) = _
  rw [tally_append, tally_append, tally_ofNames, tally_ofLiteral?, Expr.tally]

/-- A field without names and tag is its type. -/
theorem Field.tally_unnamed (loc : Location) (t : Expr) : (Field.mk loc [] t none).tally = t.tally := by
  rw [tally_eq]
  exact (mul_one _).trans (one_mul _)

/-- The results of a function. -/
def resultsTally (fs : List Field) : Tally :=
  (Layout.results (isBareResult fs) (layoutsOfFields fs)).tally (nodesOfFields fs)

theorem Signature.tally_mk (params results : List Field) :
    (Signature.mk params results).tally
      = .token Punctuation.lParen * .listed (params.map Field.tally) * .token Punctuation.rParen * resultsTally results := by
  change (inParens (listed (layoutsOfFields params)) ++ Layout.results (isBareResult results) (layoutsOfFields results)).tally
    (nodesOfFields params ++ nodesOfFields results) = _
  rw [tally_append, tally_inParens, tally_listedFields, resultsTally]

/-- Any results may be written in parentheses. -/
theorem inParens_le_resultsTally (fs : List Field) :
    .token Punctuation.lParen * .listed (fs.map Field.tally) * .token Punctuation.rParen ≤ resultsTally fs := by
  rw [← tally_listedFields, ← tally_inParens]
  match fs with
  | [] => exact tally_le_either_left (inParens empty) empty []
  | [f] =>
    change (inParens (listed (layoutsOfFields [f]))).tally (nodesOfFields [f])
      ≤ (Layout.results (isBareResult [f]) [f.layout]).tally (nodesOfFields [f])
    cases isBareResult [f] with
    | false => exact le_refl _
    | true => exact tally_le_either_left (inParens (listed [f.layout])) f.layout _
  | f :: f' :: fs => exact le_refl _

theorem one_le_resultsTally : 1 ≤ resultsTally [] := tally_le_either_right (inParens empty) empty []

/-- A single result without a name may stand bare. -/
theorem le_resultsTally_unnamed (loc : Location) (t : Expr) : t.tally ≤ resultsTally [⟨loc, [], t, none⟩] := by
  have h : nodesOfFields [⟨loc, [], t, none⟩] = (Field.mk loc [] t none).nodes := List.append_nil _
  rw [← Field.tally_unnamed loc t, resultsTally, h]
  exact tally_le_either_right (inParens (listed [(Field.mk loc [] t none).layout])) (Field.mk loc [] t none).layout _

theorem InterfaceElem.tally_method (loc : Location) (name : Name) (sig : Signature) :
    (method loc name sig).tally = name.tally * sig.tally := by
  change (ofName name ++ sig.layout).tally ([.name name] ++ sig.nodes) = _
  rw [tally_append]
  rfl

theorem Block.tally_mk (loc : Location) (stmts : List Stmt) :
    (Block.mk loc stmts).tally
      = .token Punctuation.lBrace * .terminated (stmts.map Stmt.tally) * .token Punctuation.rBrace := by
  change (inBraces (terminated (layoutsOfStmts stmts))).tally (nodesOfStmts stmts) = _
  rw [tally_inBraces, tally_terminatedStmts]

/-! ## Specifications -/

theorem Spec.tally_import (loc : Location) (spec : ImportSpec) : (Spec.import loc spec).tally = spec.tally := by
  obtain ⟨name, pathLoc, value⟩ := spec
  cases name <;> cases value <;> rfl

/-- A path is one literal, and a missing one is a placeholder. -/
theorem ImportSpec.tally_mk (name : Option Name) (path : Literal) :
    (ImportSpec.mk name path).tally = (maybe (name.map ofImportName)).tally []
      * if path.value = .error then .fault path.loc else path.tally := by
  obtain ⟨loc, value⟩ := path
  split
  · next h =>
    obtain rfl : value = .error := h
    exact Tally.ext rfl rfl
  · next h =>
    have hpath : ofPath ⟨loc, value⟩ = ofLiteral ⟨loc, value⟩ := if_neg h
    refine Tally.ext ?_ ?_
    · change (maybe (name.map ofImportName)).words * (ofPath ⟨loc, value⟩).words = _
      rw [hpath]
      rfl
    · cases value <;> first | rfl | exact absurd rfl h

theorem Spec.tally_value (loc : Location) (ns : List Name) (t : Option Expr) (values : List Expr) :
    (value loc ns t values).tally = .joined (ns.map Name.tally) * .maybe (t.map Expr.tally)
      * (Layout.values (layoutsOfExprs values)).tally (nodesOfExprs values) := by
  change (ofNames ns ++ maybe (layoutOfExpr? t) ++ Layout.values (layoutsOfExprs values)).tally
    (nodesOfNames ns ++ nodesOfExpr? t ++ nodesOfExprs values) = _
  rw [tally_append, tally_append, tally_ofNames, tally_ofExpr?]

theorem Spec.tally_type (loc : Location) (name : Name) (t : Expr) : (type loc name t).tally = name.tally * t.tally := by
  change (ofName name ++ t.layout).tally ([.name name] ++ t.nodes) = _
  rw [tally_append]
  rfl

theorem tally_values_cons (v : Expr) (vs : List Expr) :
    (Layout.values (layoutsOfExprs (v :: vs))).tally (nodesOfExprs (v :: vs))
      = .token Operator.assign * .joined ((v :: vs).map Expr.tally) := by
  rw [← tally_joinedExprs]
  exact tally_token_append Operator.assign (joined (layoutsOfExprs (v :: vs))) _

theorem DeclGroup.tally_group (keyword : Keyword) (specs : List Spec) :
    (DeclGroup.mk keyword specs true).tally = .token keyword
      * (.token Punctuation.lParen * .terminated (specs.map Spec.tally) * .token Punctuation.rParen) := by
  change (Layout.token keyword ++ inParens (terminated (layoutsOfSpecs specs))).tally (nodesOfSpecs specs) = _
  rw [tally_token_append, tally_inParens, tally_terminatedSpecs]

theorem DeclGroup.tally_single (keyword : Keyword) (spec : Spec) :
    (DeclGroup.mk keyword [spec] false).tally = .token keyword * spec.tally := by
  change (Layout.token keyword ++ spec.layout).tally (spec.nodes ++ []) = _
  rw [tally_token_append, List.append_nil, Spec.tally]

/-! ## Statements -/

namespace Stmt

theorem tally_bad (loc : Location) : (bad loc).tally = .fault loc := rfl

theorem tally_empty (loc : Location) : (empty loc).tally = 1 := rfl

theorem tally_labeled (loc : Location) (label : Name) (s : Stmt) :
    (labeled loc label s).tally = label.tally * .token Punctuation.colon * s.tally := by
  change (ofName label ++ Layout.token Punctuation.colon ++ s.layout).tally ([.name label] ++ s.nodes) = _
  rw [tally_append, tally_append_token]
  rfl

theorem tally_expr (loc : Location) (e : Expr) : (expr loc e).tally = e.tally := rfl

theorem tally_send (loc : Location) (channel value : Expr) :
    (send loc channel value).tally = channel.tally * .token Operator.arrow * value.tally := by
  change (channel.layout ++ Layout.token Operator.arrow ++ value.layout).tally (channel.nodes ++ value.nodes) = _
  rw [tally_append, tally_append_token]
  rfl

theorem tally_incDec (loc : Location) (op : Operator) (e : Expr) : (incDec loc op e).tally = e.tally * .token op :=
  tally_append_token e.layout op e.nodes

theorem tally_assign (loc : Location) (op : Operator) (left right : List Expr) :
    (assign loc op left right).tally = .joined (left.map Expr.tally) * .token op * .joined (right.map Expr.tally) := by
  change (joined (layoutsOfExprs left) ++ Layout.token op ++ joined (layoutsOfExprs right)).tally
    (nodesOfExprs left ++ nodesOfExprs right) = _
  rw [tally_append, tally_append_token, tally_joinedExprs, tally_joinedExprs]

theorem tally_go (loc : Location) (call : Expr) : (go loc call).tally = .token Keyword.go * call.tally :=
  tally_token_append Keyword.go call.layout call.nodes

theorem tally_defer (loc : Location) (call : Expr) : (defer loc call).tally = .token Keyword.defer * call.tally :=
  tally_token_append Keyword.defer call.layout call.nodes

theorem tally_return (loc : Location) (values : List Expr) :
    (Stmt.return loc values).tally = .token Keyword.return * .joined (values.map Expr.tally) := by
  rw [← tally_joinedExprs]
  exact tally_token_append Keyword.return (joined (layoutsOfExprs values)) _

theorem tally_branch (loc : Location) (keyword : Keyword) (label : Option Name) :
    (branch loc keyword label).tally = .token keyword * .maybe (label.map Name.tally) := by
  cases label <;> rfl

theorem tally_block (body : Block) : (block body).tally = body.tally := by
  obtain ⟨loc, stmts⟩ := body
  rfl

/-- The init statement of a header, as its layout and its nodes have it. -/
theorem tally_init (s : Option Stmt) : (Layout.init (layoutOfStmt? s)).tally (nodesOfStmt? s) = .init (s.map tally) := by
  cases s with
  | none => rfl
  | some s => exact tally_append_token s.layout Punctuation.semicolon s.nodes

theorem tally_if (loc : Location) (init : Option Stmt) (cond : Expr) (body : Block) :
    (Stmt.if loc init cond body none).tally = .token Keyword.if * .init (init.map tally) * cond.tally * body.tally := by
  change (Layout.token Keyword.if ++ Layout.init (layoutOfStmt? init) ++ cond.layout ++ body.layout).tally
    (nodesOfStmt? init ++ cond.nodes ++ body.nodes ++ []) = _
  rw [List.append_nil, tally_append, tally_append, tally_token_append, tally_init]
  rfl

theorem tally_if_else (loc : Location) (init : Option Stmt) (cond : Expr) (body : Block) (otherwise : Stmt) :
    (Stmt.if loc init cond body (some otherwise)).tally
      = .token Keyword.if * .init (init.map tally) * cond.tally * body.tally * .token Keyword.else * otherwise.tally := by
  change (Layout.token Keyword.if ++ Layout.init (layoutOfStmt? init) ++ cond.layout ++ body.layout
    ++ Layout.token Keyword.else ++ otherwise.layout).tally
    (nodesOfStmt? init ++ cond.nodes ++ body.nodes ++ otherwise.nodes) = _
  rw [tally_append, tally_append_token, tally_append, tally_append, tally_token_append, tally_init]
  rfl

theorem tally_switch (loc : Location) (init : Option Stmt) (tag : Option Expr) (clauses : List CaseClause) :
    (switch loc init tag clauses).tally = .token Keyword.switch * .init (init.map tally) * .maybe (tag.map Expr.tally)
      * (.token Punctuation.lBrace * (clauses.map CaseClause.tally).prod * .token Punctuation.rBrace) := by
  change (Layout.token Keyword.switch ++ Layout.init (layoutOfStmt? init) ++ maybe (layoutOfExpr? tag)
    ++ inBraces (concat (layoutsOfCases clauses))).tally
    (nodesOfStmt? init ++ nodesOfExpr? tag ++ nodesOfCases clauses) = _
  rw [tally_append, tally_append, tally_token_append, tally_init, tally_ofExpr?, tally_inBraces, tally_concatCases]

theorem tally_typeSwitch (loc : Location) (init : Option Stmt) (guard : Stmt) (clauses : List CaseClause) :
    (typeSwitch loc init guard clauses).tally = .token Keyword.switch * .init (init.map tally) * guard.tally
      * (.token Punctuation.lBrace * (clauses.map CaseClause.tally).prod * .token Punctuation.rBrace) := by
  change (Layout.token Keyword.switch ++ Layout.init (layoutOfStmt? init) ++ guard.layout
    ++ inBraces (concat (layoutsOfCases clauses))).tally (nodesOfStmt? init ++ guard.nodes ++ nodesOfCases clauses) = _
  rw [tally_append, tally_append, tally_token_append, tally_init, tally_inBraces, tally_concatCases, tally]

theorem tally_select (loc : Location) (clauses : List CommClause) :
    (select loc clauses).tally = .token Keyword.select
      * (.token Punctuation.lBrace * (clauses.map CommClause.tally).prod * .token Punctuation.rBrace) := by
  change (Layout.token Keyword.select ++ inBraces (concat (layoutsOfComms clauses))).tally (nodesOfComms clauses) = _
  rw [tally_token_append, tally_inBraces, tally_concatComms]

theorem tally_for (loc : Location) (init : Option Stmt) (cond : Option Expr) (post : Option Stmt) (body : Block) :
    (Stmt.for loc init cond post body).tally
      = .token Keyword.for * .loopHeader (init.map tally) (cond.map Expr.tally) (post.map tally) * body.tally := by
  change (Layout.token Keyword.for ++ loopHeader (layoutOfStmt? init) (layoutOfExpr? cond) (layoutOfStmt? post)
    ++ body.layout).tally (nodesOfStmt? init ++ nodesOfExpr? cond ++ nodesOfStmt? post ++ body.nodes) = _
  rw [tally_append, tally_token_append]
  refine congrArg (_ * · * body.tally) ?_
  have hparts : ∀ init post : Option Stmt, (maybe (layoutOfStmt? init) ++ Layout.token Punctuation.semicolon
      ++ maybe (layoutOfExpr? cond) ++ Layout.token Punctuation.semicolon ++ maybe (layoutOfStmt? post)).tally
      (nodesOfStmt? init ++ nodesOfExpr? cond ++ nodesOfStmt? post) = .maybe (init.map tally) * .token Punctuation.semicolon
        * .maybe (cond.map Expr.tally) * .token Punctuation.semicolon * .maybe (post.map tally) := fun init post => by
    rw [tally_append, tally_append_token, tally_append, tally_append_token, tally_ofStmt?, tally_ofExpr?, tally_ofStmt?]
  cases init with
  | some s => exact hparts (some s) post
  | none =>
    cases post with
    | some s => exact hparts none (some s)
    | none =>
      change (either (maybe (layoutOfExpr? cond)) (Layout.token Punctuation.semicolon ++ maybe (layoutOfExpr? cond)
        ++ Layout.token Punctuation.semicolon)).tally (nodesOfExpr? cond ++ []) = _
      rw [List.append_nil, tally_either, tally_append_token, tally_token_append, tally_ofExpr?]
      rfl

theorem tally_range (loc : Location) (operand : Expr) (body : Block) :
    (range loc none none false operand body).tally
      = .token Keyword.for * .token Keyword.range * operand.tally * body.tally := by
  change (Layout.token Keyword.for ++ Layout.empty ++ Layout.token Keyword.range ++ operand.layout ++ body.layout).tally
    (operand.nodes ++ body.nodes) = _
  refine Tally.ext (congrArg (· * _ * _ * _) (mul_one _)) ?_
  simp [Layout.tally, Expr.tally, Block.tally]

theorem tally_range_key (loc : Location) (key : Expr) (define : Bool) (operand : Expr) (body : Block) :
    (range loc (some key) none define operand body).tally = .token Keyword.for * (key.tally * .token (rangeOp define))
      * .token Keyword.range * operand.tally * body.tally := by
  change (Layout.token Keyword.for ++ (key.layout ++ Layout.token (rangeOp define)) ++ Layout.token Keyword.range
    ++ operand.layout ++ body.layout).tally (key.nodes ++ [] ++ operand.nodes ++ body.nodes) = _
  rw [List.append_nil, tally_append, tally_append, tally_append_token, tally_token_append, tally_append_token]
  rfl

theorem tally_range_key_value (loc : Location) (key value : Expr) (define : Bool) (operand : Expr) (body : Block) :
    (range loc (some key) (some value) define operand body).tally
      = .token Keyword.for * (key.tally * .token Punctuation.comma * value.tally * .token (rangeOp define))
        * .token Keyword.range * operand.tally * body.tally := by
  change (Layout.token Keyword.for
    ++ (key.layout ++ Layout.token Punctuation.comma ++ value.layout ++ Layout.token (rangeOp define))
    ++ Layout.token Keyword.range ++ operand.layout ++ body.layout).tally
    (key.nodes ++ value.nodes ++ operand.nodes ++ body.nodes) = _
  rw [tally_append, tally_append, tally_append_token, tally_token_append, tally_append_token, tally_append,
    tally_append_token]
  rfl

end Stmt

/-! ## Clauses -/

theorem CaseClause.tally_default (loc : Location) (body : List Stmt) :
    (CaseClause.mk loc none body).tally
      = .token Keyword.default * .token Punctuation.colon * .terminated (body.map Stmt.tally) := by
  change (Layout.token Keyword.default ++ Layout.token Punctuation.colon ++ terminated (layoutsOfStmts body)).tally
    ([] ++ nodesOfStmts body) = _
  rw [tally_append, tally_token_append, tally_token, tally_terminatedStmts]

theorem CaseClause.tally_case (loc : Location) (list : List Expr) (body : List Stmt) :
    (CaseClause.mk loc (some list) body).tally = .token Keyword.case * .joined (list.map Expr.tally)
      * .token Punctuation.colon * .terminated (body.map Stmt.tally) := by
  change (Layout.token Keyword.case ++ joined (layoutsOfExprs list) ++ Layout.token Punctuation.colon
    ++ terminated (layoutsOfStmts body)).tally (nodesOfExprs list ++ nodesOfStmts body) = _
  rw [tally_append, tally_append_token, tally_token_append, tally_joinedExprs, tally_terminatedStmts]

theorem CommClause.tally_default (loc : Location) (body : List Stmt) :
    (CommClause.mk loc none body).tally
      = .token Keyword.default * .token Punctuation.colon * .terminated (body.map Stmt.tally) := by
  change (Layout.token Keyword.default ++ Layout.token Punctuation.colon ++ terminated (layoutsOfStmts body)).tally
    ([] ++ nodesOfStmts body) = _
  rw [tally_append, tally_token_append, tally_token, tally_terminatedStmts]

theorem CommClause.tally_case (loc : Location) (comm : Stmt) (body : List Stmt) :
    (CommClause.mk loc (some comm) body).tally = .token Keyword.case * comm.tally * .token Punctuation.colon
      * .terminated (body.map Stmt.tally) := by
  change (Layout.token Keyword.case ++ comm.layout ++ Layout.token Punctuation.colon ++ terminated (layoutsOfStmts body)).tally
    (comm.nodes ++ nodesOfStmts body) = _
  rw [tally_append, tally_append_token, tally_token_append, tally_terminatedStmts, Stmt.tally]

/-! ## Declarations and files -/

/-- A receiver, if there is one. -/
def receiverTally : Option (List Field) → Tally
  | some fs => .token Punctuation.lParen * .listed (fs.map Field.tally) * .token Punctuation.rParen
  | none => 1

theorem FuncDecl.tally_mk (receiver : Option (List Field)) (name : Name) (sig : Signature) (body : Option Block) :
    (FuncDecl.mk receiver name sig body).tally = .token Keyword.func * receiverTally receiver * name.tally * sig.tally
      * .maybe (body.map Block.tally) := by
  have hr : (layoutOfReceiver receiver).tally (nodesOfFields? receiver) = receiverTally receiver := by
    cases receiver with
    | none => rfl
    | some fs =>
      change (inParens (listed (layoutsOfFields fs))).tally (nodesOfFields fs) = _
      rw [tally_inParens, tally_listedFields, receiverTally]
  have hb : (maybe (body.map Block.layout)).tally (nodesOfBlock? body) = .maybe (body.map Block.tally) := by
    cases body <;> rfl
  change (Layout.token Keyword.func ++ layoutOfReceiver receiver ++ ofName name ++ sig.layout
    ++ maybe (body.map Block.layout)).tally (nodesOfFields? receiver ++ ([.name name] ++ sig.nodes) ++ nodesOfBlock? body) = _
  rw [← List.append_assoc, tally_append, tally_append, tally_append, tally_token_append, hr, hb]
  rfl

theorem Decl.tally_bad (loc : Location) : (bad loc).tally = .fault loc := rfl

theorem Decl.tally_group (loc : Location) (g : DeclGroup) :
    (group loc g).tally = g.tally * .token Punctuation.semicolon :=
  tally_append_token g.layout Punctuation.semicolon g.nodes

theorem Decl.tally_func (loc : Location) (f : FuncDecl) : (func loc f).tally = f.tally * .token Punctuation.semicolon :=
  tally_append_token f.layout Punctuation.semicolon f.nodes

theorem SourceFile.tally_mk (loc : Location) (package : Name) (decls : List Decl) :
    (SourceFile.mk loc package decls).tally
      = .token Keyword.package * package.tally * .token Punctuation.semicolon * (decls.map Decl.tally).prod := by
  change (Layout.token Keyword.package ++ ofName package ++ Layout.token Punctuation.semicolon
    ++ concat (decls.map Decl.layout)).tally ([.name package] ++ decls.flatMap Decl.nodes) = _
  rw [tally_append, tally_append_token, tally_token_append, tally_concat]
  rfl

end GoSyntax
