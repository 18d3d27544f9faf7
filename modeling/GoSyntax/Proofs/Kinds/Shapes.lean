import GoSyntax.Proofs.Canonical.Shapes
import GoSyntax.Proofs.Context.Parts

/-!
# A tree elsewhere has the same shape

Moving a tree changes its locations and nothing else, so that it keeps its shape.
-/

namespace GoSyntax

variable (shift : Location → Location)

theorem Name.shape_move (n : Name) : (n.move shift).shape = n.shape := rfl

theorem Literal.shape_move (l : Literal) : (l.move shift).shape = l.shape := rfl

theorem shapes_move_names (ns : List Name) : (ns.map (Name.move shift)).map Name.shape = ns.map Name.shape := List.map_map

theorem shape_move_name? (n : Option Name) : (n.map (Name.move shift)).map Name.shape = n.map Name.shape := by cases n <;> rfl

theorem shape_move_literal? (l : Option Literal) : (l.map (Literal.move shift)).map Literal.shape = l.map Literal.shape := by
  cases l <;> rfl

theorem ImportSpec.shape_move (s : ImportSpec) : (s.move shift).shape = s.shape := by
  rw [move, shape, shape, shape_move_name?, Literal.shape_move]

mutual

/-- An expression keeps its shape. -/
theorem Expr.shape_move : ∀ e : Expr, (e.move shift).shape = e.shape
  | .bad _ | .ident _ _ | .literal _ _ => rfl
  | .composite _ type elements => congrArg₂ (Expr.composite default) (shapeOfExpr?_move type) (shapesOfExprs_move elements)
  | .function _ sig body => congrArg₂ (Expr.function default) sig.shape_move body.shape_move
  | .paren _ inner => congrArg (Expr.paren default) inner.shape_move
  | .selector _ operand field => congrArg (Expr.selector default · field.shape) operand.shape_move
  | .assertion _ operand type => congrArg₂ (Expr.assertion default) operand.shape_move (shapeOfExpr?_move type)
  | .index _ operand subscript => congrArg₂ (Expr.index default) operand.shape_move subscript.shape_move
  | .slice _ operand low high max three => by
    rw [Expr.move, Expr.shape, Expr.shape, operand.shape_move, shapeOfExpr?_move low, shapeOfExpr?_move high, shapeOfExpr?_move max]
  | .call _ callee args spread => congrArg₂ (Expr.call default · · spread) callee.shape_move (shapesOfExprs_move args)
  | .star _ operand => congrArg (Expr.star default) operand.shape_move
  | .unary _ op operand => congrArg (Expr.unary default op) operand.shape_move
  | .binary _ op left right => congrArg₂ (Expr.binary default op) left.shape_move right.shape_move
  | .keyValue _ key value => congrArg₂ (Expr.keyValue default) key.shape_move value.shape_move
  | .arrayType _ length elem => congrArg₂ (Expr.arrayType default) length.shape_move elem.shape_move
  | .structType _ fields => congrArg (Expr.structType default) (shapesOfFields_move fields)
  | .functionType _ sig => congrArg (Expr.functionType default) sig.shape_move
  | .interfaceType _ elems => congrArg (Expr.interfaceType default) (shapesOfElems_move elems)
  | .mapType _ key value => congrArg₂ (Expr.mapType default) key.shape_move value.shape_move
  | .channelType _ direction elem => congrArg (Expr.channelType default direction) elem.shape_move
  | .variadicType _ elem => congrArg (Expr.variadicType default) elem.shape_move

theorem shapeOfExpr?_move : ∀ e : Option Expr, shapeOfExpr? (moveOfExpr? shift e) = shapeOfExpr? e
  | some e => congrArg some e.shape_move
  | none => rfl

theorem shapesOfExprs_move : ∀ es : List Expr, shapesOfExprs (movesOfExprs shift es) = shapesOfExprs es
  | [] => rfl
  | e :: es => congrArg₂ List.cons e.shape_move (shapesOfExprs_move es)

theorem ArrayLength.shape_move : ∀ l : ArrayLength, (l.move shift).shape = l.shape
  | .slice | .inferred => rfl
  | .fixed length => congrArg ArrayLength.fixed length.shape_move

theorem Field.shape_move : ∀ f : Field, (f.move shift).shape = f.shape
  | ⟨_, names, type, tag⟩ => by
    rw [Field.move, Field.shape, Field.shape, shapes_move_names, shape_move_literal?, type.shape_move]

theorem shapesOfFields_move : ∀ fs : List Field, shapesOfFields (movesOfFields shift fs) = shapesOfFields fs
  | [] => rfl
  | f :: fs => congrArg₂ List.cons f.shape_move (shapesOfFields_move fs)

theorem Signature.shape_move : ∀ s : Signature, (s.move shift).shape = s.shape
  | ⟨params, results⟩ => congrArg₂ Signature.mk (shapesOfFields_move params) (shapesOfFields_move results)

theorem InterfaceElem.shape_move : ∀ e : InterfaceElem, (e.move shift).shape = e.shape
  | .method _ name sig => congrArg (InterfaceElem.method default name.shape) sig.shape_move
  | .embedded _ type => congrArg (InterfaceElem.embedded default) type.shape_move

theorem shapesOfElems_move : ∀ es : List InterfaceElem, shapesOfElems (movesOfElems shift es) = shapesOfElems es
  | [] => rfl
  | e :: es => congrArg₂ List.cons e.shape_move (shapesOfElems_move es)

theorem Block.shape_move : ∀ b : Block, (b.move shift).shape = b.shape
  | ⟨_, stmts⟩ => congrArg (Block.mk default) (shapesOfStmts_move stmts)

/-- A statement keeps its shape. -/
theorem Stmt.shape_move : ∀ s : Stmt, (s.move shift).shape = s.shape
  | .bad _ | .empty _ => rfl
  | .declaration _ group => congrArg (Stmt.declaration default) group.shape_move
  | .labeled _ label stmt => congrArg (Stmt.labeled default label.shape) stmt.shape_move
  | .expr _ e => congrArg (Stmt.expr default) e.shape_move
  | .send _ channel value => congrArg₂ (Stmt.send default) channel.shape_move value.shape_move
  | .incDec _ op operand => congrArg (Stmt.incDec default op) operand.shape_move
  | .assign _ op left right => congrArg₂ (Stmt.assign default op) (shapesOfExprs_move left) (shapesOfExprs_move right)
  | .go _ call => congrArg (Stmt.go default) call.shape_move
  | .defer _ call => congrArg (Stmt.defer default) call.shape_move
  | .return _ values => congrArg (Stmt.return default) (shapesOfExprs_move values)
  | .branch _ keyword label => congrArg (Stmt.branch default keyword) (shape_move_name? shift label)
  | .block body => congrArg Stmt.block body.shape_move
  | .if _ init cond body otherwise => by
    rw [Stmt.move, Stmt.shape, Stmt.shape, shapeOfStmt?_move init, cond.shape_move, body.shape_move, shapeOfStmt?_move otherwise]
  | .switch _ init tag clauses => by
    rw [Stmt.move, Stmt.shape, Stmt.shape, shapeOfStmt?_move init, shapeOfExpr?_move tag, shapesOfCases_move clauses]
  | .typeSwitch _ init guard clauses => by
    rw [Stmt.move, Stmt.shape, Stmt.shape, shapeOfStmt?_move init, guard.shape_move, shapesOfCases_move clauses]
  | .select _ clauses => congrArg (Stmt.select default) (shapesOfComms_move clauses)
  | .for _ init cond post body => by
    rw [Stmt.move, Stmt.shape, Stmt.shape, shapeOfStmt?_move init, shapeOfExpr?_move cond, shapeOfStmt?_move post, body.shape_move]
  | .range _ key value define operand body => by
    rw [Stmt.move, Stmt.shape, Stmt.shape, shapeOfExpr?_move key, shapeOfExpr?_move value, operand.shape_move, body.shape_move]

theorem shapeOfStmt?_move : ∀ s : Option Stmt, shapeOfStmt? (moveOfStmt? shift s) = shapeOfStmt? s
  | some s => congrArg some s.shape_move
  | none => rfl

theorem shapesOfStmts_move : ∀ ss : List Stmt, shapesOfStmts (movesOfStmts shift ss) = shapesOfStmts ss
  | [] => rfl
  | s :: ss => congrArg₂ List.cons s.shape_move (shapesOfStmts_move ss)

theorem CaseClause.shape_move : ∀ c : CaseClause, (c.move shift).shape = c.shape
  | ⟨_, cases, body⟩ => congrArg₂ (CaseClause.mk default) (shapeOfCaseList_move cases) (shapesOfStmts_move body)

theorem shapeOfCaseList_move : ∀ es : Option (List Expr), shapeOfCaseList (moveOfCaseList shift es) = shapeOfCaseList es
  | some es => congrArg some (shapesOfExprs_move es)
  | none => rfl

theorem shapesOfCases_move : ∀ cs : List CaseClause, shapesOfCases (movesOfCases shift cs) = shapesOfCases cs
  | [] => rfl
  | c :: cs => congrArg₂ List.cons c.shape_move (shapesOfCases_move cs)

theorem CommClause.shape_move : ∀ c : CommClause, (c.move shift).shape = c.shape
  | ⟨_, comm, body⟩ => congrArg₂ (CommClause.mk default) (shapeOfStmt?_move comm) (shapesOfStmts_move body)

theorem shapesOfComms_move : ∀ cs : List CommClause, shapesOfComms (movesOfComms shift cs) = shapesOfComms cs
  | [] => rfl
  | c :: cs => congrArg₂ List.cons c.shape_move (shapesOfComms_move cs)

theorem DeclGroup.shape_move : ∀ g : DeclGroup, (g.move shift).shape = g.shape
  | ⟨keyword, specs, grouped⟩ => congrArg (DeclGroup.mk keyword · grouped) (shapesOfSpecs_move specs)

theorem Spec.shape_move : ∀ s : Spec, (s.move shift).shape = s.shape
  | .import _ spec => congrArg (Spec.import default) (spec.shape_move shift)
  | .value _ names type values => by
    rw [Spec.move, Spec.shape, Spec.shape, shapes_move_names, shapeOfExpr?_move type, shapesOfExprs_move values]
  | .type _ name type => congrArg (Spec.type default name.shape) type.shape_move

theorem shapesOfSpecs_move : ∀ ss : List Spec, shapesOfSpecs (movesOfSpecs shift ss) = shapesOfSpecs ss
  | [] => rfl
  | s :: ss => congrArg₂ List.cons s.shape_move (shapesOfSpecs_move ss)

end

theorem FuncDecl.shape_move (f : FuncDecl) : (f.move shift).shape = f.shape := by
  obtain ⟨receiver, name, sig, body⟩ := f
  rw [move, shape, shape, Signature.shape_move, Name.shape_move]
  have hreceiver : (receiver.map (movesOfFields shift)).map shapesOfFields = receiver.map shapesOfFields := by
    rw [Option.map_map]
    exact congrArg (Option.map · receiver) (funext (shapesOfFields_move shift))
  have hbody : (body.map (Block.move shift)).map Block.shape = body.map Block.shape := by
    rw [Option.map_map]
    exact congrArg (Option.map · body) (funext (Block.shape_move shift))
  rw [hreceiver, hbody]

theorem Decl.shape_move (d : Decl) : (d.move shift).shape = d.shape := by
  cases d with
  | bad => rfl
  | group loc g => exact congrArg (Decl.group default) (g.shape_move shift)
  | func loc f => exact congrArg (Decl.func default) (f.shape_move shift)

/-- A file keeps its shape. -/
theorem SourceFile.shape_move (f : SourceFile) : (f.move shift).shape = f.shape := by
  rw [move, shape, shape, Name.shape_move, List.map_map]
  exact congrArg (SourceFile.mk default f.package.shape) (List.map_congr_left fun d _ => d.shape_move shift)

end GoSyntax
