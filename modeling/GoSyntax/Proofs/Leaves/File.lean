import GoSyntax.Grammar.File
import GoSyntax.Proofs.Acceptance
import GoSyntax.Proofs.Leaves.Expressions
import GoSyntax.Proofs.Steps

/-!
# A tree says nothing that its source does not say

The first expressions of a simple statement, and the parts of a header, have been read before it is known what they are for. Each is
kept where it was read, and what a header has no place for is dropped as a whole.

At every depth all productions gather their leaves, and so do a file and the two kinds of fragments. Whatever is reported and skipped on
the way, the leaves of the tree are leaves of the source, in the same order.
-/

namespace GoSyntax.Grammar

open Gathers

variable {p : Productions}

/-! ## Simple statements -/

theorem checkAssignment_gathers (op : Operator) (targets values : Nat) (loc : Location) :
    Gathers [] (checkAssignment op targets values loc) := by
  unfold checkAssignment
  split
  · exact report _ _
  · exact .pure (List.nil_sublist _)

theorem assignment_gathers (hp : p.Gather) (level : Int) (op : Operator) (targets : List Expr) (loc : Location) :
    Gathers (leaves targets) (assignment p level op targets loc) :=
  (exprList_gathers hp level).bind fun (_, _) => (checkAssignment_gathers _ _ _ _).step fun _ => .pure (by simp)

theorem rangeClause_gathers (hp : p.Gather) (level : Int) (vars : List Expr) (define : Bool) (loc : Location) :
    Gathers (leaves vars) (rangeClause p level vars define loc) :=
  (expr_gathers hp level).bind fun _ => (reportUnless _ _ _).step fun _ => .pure (by simp)

theorem assignmentOrRange_gathers (hp : p.Gather) (position : SimplePosition) (level : Int) (op : Operator)
    (targets : List Expr) (loc : Location) : Gathers (leaves targets) (assignmentOrRange p position level op targets loc) :=
  consume.step fun _ => (andM (.pure (List.nil_sublist _)) (accept _)).step fun _ => .ite
    (rangeClause_gathers hp level targets _ loc) ((assignment_gathers hp level op targets loc).map fun _ => List.Sublist.refl _)

theorem send_gathers (hp : p.Gather) (level : Int) (channel : Expr) (others : List Expr) (loc : Location) :
    Gathers (leaves channel) (send p level channel others loc) :=
  consume.step fun _ => (reportUnless _ _ _).step fun _ => (expr_gathers hp level).bind fun _ => .pure (by simp)

theorem incDec_gathers (op : Operator) (operand : Expr) (others : List Expr) (loc : Location) :
    Gathers (leaves operand) (incDec op operand others loc) :=
  consume.step fun _ => (reportUnless _ _ _).step fun _ => .pure (by simp)

theorem labeled_gathers (hp : p.Gather) (label : Name) (loc : Location) : Gathers (leaves label) (labeled p label loc) :=
  consume.step fun _ => (isAt _).step fun _ => .ite (current.step fun _ => .pure (by simp))
    (hp.stmt.bind fun _ => .pure (by simp))

theorem alone_gathers (first : Expr) (others : List Expr) (loc : Location) :
    Gathers (leaves first) (alone first others loc) :=
  .ite (.pure (by simp)) ((reportExpected _).step fun _ => .pure (by simp))

theorem bare_gathers (hp : p.Gather) (position : SimplePosition) (first : Expr) (others : List Expr) (loc : Location) :
    Gathers (leaves first) (bare p position first others loc) := by
  unfold bare
  split
  · next labelLoc label =>
    exact (isAt _).step fun _ => .ite ((labeled_gathers hp ⟨labelLoc, label⟩ loc).weaken (by simp [Name.leaves_eq]))
      (alone_gathers _ _ _)
  · exact alone_gathers _ _ _

theorem simpleBy_gathers (hp : p.Gather) (position : SimplePosition) (level : Int) (op : Operator) (first : Expr)
    (others : List Expr) (loc : Location) :
    Gathers (leaves first ++ leaves others) (simpleBy p position level op first others loc) := by
  unfold simpleBy
  split
  · exact ((incDec_gathers op first others loc).weaken (List.sublist_append_left _ _)).map fun _ => List.Sublist.refl _
  · exact assignmentOrRange_gathers hp position level op (first :: others) loc
  · exact ((bare_gathers hp position first others loc).weaken (List.sublist_append_left _ _)).map fun _ => List.Sublist.refl _

theorem simple_gathers (hp : p.Gather) (position : SimplePosition) (level : Int) : Gathers [] (simple p position level) := by
  refine current.step fun start => (exprList_gathers hp level).bind fun (first, others) => current.step fun here => ?_
  change Gathers (leaves first ++ leaves others) _
  split
  · exact ((send_gathers hp level first others _).weaken (List.sublist_append_left _ _)).map fun _ => List.Sublist.refl _
  · exact simpleBy_gathers hp position level _ first others _
  · exact ((bare_gathers hp position first others _).weaken (List.sublist_append_left _ _)).map fun _ => List.Sublist.refl _

theorem simpleStmt_gathers (hp : p.Gather) (position : SimplePosition) (level : Int) :
    Gathers [] (simpleStmt p position level) := by
  refine current.step fun _ => (simple_gathers hp position level).bind fun s => ?_
  cases s with
  | stmt s => exact .pure (List.Sublist.refl _)
  | range vars define operand => exact .pure (List.nil_sublist _)

/-! ## Control statements -/

/-- A header statement is an expression, or it is dropped. -/
theorem headerExpr_still (what : String) (s : Stmt) (c : Cursor) :
    (headerExpr what s c).2.kinds = c.kinds ∧ (leaves (headerExpr what s c).1).Sublist (leaves s) := by
  cases s with
  | expr loc e => exact ⟨rfl, by rw [Stmt.leaves_expr]; exact List.Sublist.refl _⟩
  | _ => exact ⟨rfl, List.nil_sublist _⟩

theorem headerStmtBefore?_gathers (hp : p.Gather) (stop : TokenKind) : Gathers [] (headerStmtBefore? p stop) :=
  (isAt _).step fun _ => .ite (.pure (List.nil_sublist _)) ((simpleStmt_gathers hp _ _).map fun _ => by simp)

theorem header_gathers (hp : p.Gather) : Gathers [] (header p) :=
  (headerStmtBefore?_gathers hp _).bind fun _ => (accept _).step fun _ => .ite
    ((headerStmtBefore?_gathers hp _).bind fun _ => .pure (by simp)) (.pure (by simp))

theorem missingCondition_gathers : Gathers [] missingCondition :=
  current.step fun _ => (reportExpected _).step fun _ => .pure (List.nil_sublist _)

theorem ifHeader_gathers (hp : p.Gather) : Gathers [] (ifHeader p) := by
  refine (isAt _).step fun _ => .ite (missingCondition_gathers.bind fun _ => .pure (by simp))
    ((header_gathers hp).bind fun (init, cond) => ?_)
  cases cond with
  | some s =>
    refine .still (headerExpr_still "condition" s) fun e he => .pure ?_
    simpa using he
  | none => exact missingCondition_gathers.bind fun _ => .pure (by simp)

theorem otherwise_gathers (hp : p.Gather) : Gathers [] (otherwise p) :=
  (isAt _).step fun _ => .ite hp.stmt ((isAt _).step fun _ => .ite ((block_gathers hp).map fun _ => by simp)
    (current.step fun _ => (reportExpected _).step fun _ => .pure (List.nil_sublist _)))

theorem ifStmt_gathers (hp : p.Gather) : Gathers [] (ifStmt p) :=
  consume.step fun _ => (ifHeader_gathers hp).bind fun (_, _) => (block_gathers hp).bind fun _ => (accept _).step fun _ => .ite
    ((otherwise_gathers hp).bind fun _ => .pure (by simp)) (.pure (by simp))

theorem clauses_gathers {α : Type} [HasLeaves α] {clause : Parse α} (h : Gathers [] clause) : Gathers [] (clauses clause) := by
  refine (expect _).step fun _ => .bind (.loop (fun list => ?_) #[]) fun _ => (expect _).step fun _ => .pure (by simp)
  exact current.step fun _ => .ite (.pure (by simp)) (.ite (h.bind fun _ => .pure (by simp))
    ((reportExpected _).step fun _ => (skipTo _).step fun _ => .pure (by simp)))

theorem clauseLabel?_gathers {α : Type} [HasLeaves α] (here : Token) {label : Parse α} (h : Gathers [] label) :
    Gathers [] (clauseLabel? here label) :=
  .ite (h.map fun _ => by simp) (.pure (List.nil_sublist _))

theorem exprs_gathers (hp : p.Gather) : Gathers [] (exprs p) :=
  (exprList_gathers hp 0).bind fun (_, _) => .pure (List.Sublist.refl _)

theorem caseClause_gathers (hp : p.Gather) (ofTypes : Bool) : Gathers [] (caseClause p ofTypes) := by
  have htypes : Gathers [] (types p) := (separated (type_gathers hp)).bind fun (_, _) => .pure (List.Sublist.refl _)
  have hlist : Gathers [] (caseList p ofTypes) := .ite htypes (exprs_gathers hp)
  exact consume.step fun here => (clauseLabel?_gathers here hlist).bind fun _ => (expect _).step fun _ =>
    (statements_gathers hp).bind fun _ => .pure (by simp)

theorem switchStmt_gathers (hp : p.Gather) : Gathers [] (switchStmt p) := by
  have hheader : Gathers [] (switchHeader p) := (isAt _).step fun _ => .ite (.pure (List.nil_sublist _)) (header_gathers hp)
  refine consume.step fun _ => hheader.bind fun (init, tag) => ?_
  cases tag with
  | none => exact (clauses_gathers (caseClause_gathers hp false)).bind fun _ => .pure (by simp)
  | some s =>
    refine .ite ((clauses_gathers (caseClause_gathers hp true)).bind fun _ => .pure (by simp)) ?_
    refine (clauses_gathers (caseClause_gathers hp false)).bind fun list => .still (headerExpr_still _ s) fun e he => .pure ?_
    simpa using (he.append_right (leaves list)).append_left (leaves init)

/-- What a case of a select waits for starts with expressions that have been read. -/
theorem communication_gathers (hp : p.Gather) : Gathers [] (communication p) := by
  refine current.step fun start => (exprList_gathers hp 0).bind fun (first, others) => current.step fun here => ?_
  change Gathers (leaves first ++ leaves others) _
  have hreceive : Gathers (leaves first) (receive first others start.loc) := (reportUnless _ _ _).step fun _ => .pure (by simp)
  split
  · exact (send_gathers hp 0 first others _).weaken (List.sublist_append_left _ _)
  · refine .ite ?_ (hreceive.weaken (List.sublist_append_left _ _))
    exact consume.step fun _ => (reportUnless _ _ _).step fun _ => (expr_gathers hp 0).bind fun _ => .pure (by simp)
  · exact hreceive.weaken (List.sublist_append_left _ _)

theorem selectStmt_gathers (hp : p.Gather) : Gathers [] (selectStmt p) := by
  have hclause : Gathers [] (commClause p) :=
    consume.step fun here => (clauseLabel?_gathers here (communication_gathers hp)).bind fun _ => (expect _).step fun _ =>
      (statements_gathers hp).bind fun _ => .pure (by simp)
  exact consume.step fun _ => (clauses_gathers hclause).bind fun _ => .pure (by simp)

theorem loopClauses_gathers (hp : p.Gather) (init : Option Stmt) : Gathers (leaves init) (loopClauses p init) :=
  consume.step fun _ => (headerStmtBefore?_gathers hp _).bind fun _ => (expect _).step fun _ =>
    (headerStmtBefore?_gathers hp _).bind fun _ => .pure (by simp)

theorem loopHeader_gathers (hp : p.Gather) : Gathers [] (loopHeader p) := by
  have hfrom : Gathers [] (loopHeaderFrom p) := by
    refine (simple_gathers hp .loopHeader (-1)).bind fun s => ?_
    cases s with
    | range vars define operand => exact .pure (List.Sublist.refl _)
    | stmt s => exact (isAt _).step fun _ => .ite ((loopClauses_gathers hp (some s)).weaken (by simp)) (.pure (by simp))
  exact (isAt _).step fun _ => .ite (.pure (List.nil_sublist _)) ((accept _).step fun _ => .ite
    ((expr_gathers hp (-1)).bind fun _ => .pure (by simp))
    ((isAt _).step fun _ => .ite (loopClauses_gathers hp none) hfrom))

/-- The first two variables of a range clause stand where they were read. -/
theorem leaves_firstTwo (vars : List Expr) : (leaves vars[0]? ++ leaves vars[1]?).Sublist (leaves vars) := by
  match vars with
  | [] => exact List.nil_sublist _
  | [a] => simp
  | a :: b :: rest => simp

theorem forStmt_gathers (hp : p.Gather) : Gathers [] (forStmt p) := by
  refine consume.step fun _ => (loopHeader_gathers hp).bind fun head => (block_gathers hp).bind fun body => ?_
  split
  · next vars define operand =>
    refine .pure ?_
    simpa using (leaves_firstTwo vars).append_right (leaves operand ++ leaves body)
  · exact .pure (by simp)
  · next init cond post =>
    refine .still (headerExpr_still _ cond) fun e he => .pure ?_
    simpa using (he.append_right (leaves post ++ leaves body)).append_left (leaves init)

/-! ## Specifications -/

theorem importName?_gathers : Gathers [] importName? := by
  refine currentAt fun here hhere => ?_
  split
  · next hdot =>
    have hkind : here.kind = .punctuation .dot := (TokenKind.Bare.sameKind_iff _).1 hdot
    refine consumeAt fun _ => .pure ?_
    rw [hkind]
    exact List.Sublist.refl _
  · exact (Gathers.ite (name.map fun _ => by simp) (.pure (List.nil_sublist _))).at_ here

theorem importSpec_gathers : Gathers [] importSpec := by
  have hpath : Gathers [] importPath := by
    refine stringLiteral?.bind fun path => ?_
    cases path with
    | some path => exact .pure (by simp)
    | none => exact current.step fun _ => (reportExpected _).step fun _ => .pure (List.nil_sublist _)
  exact importName?_gathers.bind fun _ => hpath.bind fun _ => .pure (by simp)

theorem valueSpec_gathers (hp : p.Gather) (keyword : Keyword) (isFirst : Bool) (loc : Location) :
    Gathers [] (valueSpec p keyword isFirst loc) := by
  have hvalues : ∀ required, Gathers [] (specValues p required) := fun required =>
    (accept _).step fun _ => .ite ((exprList_gathers hp 0).bind fun (_, _) => .pure (List.Sublist.refl _))
      (Gathers.step (.ite (reportExpected _) (.pure (List.nil_sublist _))) fun _ => .pure (List.nil_sublist _))
  exact names.bind fun _ => hp.type?.bind fun _ => (hvalues _).bind fun _ => .pure (by simp)

theorem spec_gathers (hp : p.Gather) (keyword : Keyword) (isFirst : Bool) : Gathers [] (spec p keyword isFirst) := by
  refine current.step fun here => ?_
  split
  · exact importSpec_gathers.bind fun _ => .pure (by simp)
  · exact name.bind fun _ => (type_gathers hp).bind fun _ => .pure (by simp)
  · exact valueSpec_gathers hp _ _ _

theorem declGroup_gathers (hp : p.Gather) (keyword : Keyword) : Gathers [] (declGroup p keyword) := by
  have hresume : ∀ n (specs : Array Spec), Gathers (leaves specs) (resumeGroup n specs) := fun n specs =>
    (reportMissing_gathers n _).step fun _ => (skipTo _).step fun _ => (orM (accept _) (isAt _)).step fun _ =>
      .ite (.pure (by simp)) (.pure (by simp))
  have hpass : ∀ group : Array Spec × Bool, Gathers (leaves group) (specPass p keyword group) := by
    rintro ⟨specs, closes⟩
    refine current.step fun _ => .ite (.pure (by simp)) (reports.step fun n => .ite ?_ ((hresume n specs).weaken (by simp)))
    exact (spec_gathers hp keyword _).bind fun _ => (orM (isAt _) (accept _)).step fun _ =>
      .ite (.pure (by simp)) ((hresume n _).weaken (by simp))
  have hclose : ∀ closes, Gathers [] (closeGroup closes) := fun closes =>
    .ite ((expect _).step fun _ => .pure (List.nil_sublist _)) (.pure (List.nil_sublist _))
  have hgroup : Gathers [] (specGroup p keyword) :=
    Gathers.bind (.loop hpass (#[], true)) fun (_, _) => (hclose _).step fun _ => .pure (by simp)
  exact consume.step fun _ => (accept _).step fun _ => .ite (hgroup.bind fun _ => .pure (by simp))
    ((spec_gathers hp keyword true).bind fun _ => .pure (by simp))

/-! ## All statements -/

theorem badStmt_gathers : Gathers [] badStmt :=
  current.step fun _ => (reportExpected _).step fun _ => (skipTo _).step fun _ => .pure (List.nil_sublist _)

theorem branchStmt_gathers (keyword : Keyword) : Gathers [] (branchStmt keyword) :=
  consume.step fun _ => current.step fun _ => .ite (name.bind fun _ => .pure (by simp)) (.pure (by simp))

theorem keywordStmt_gathers (hp : p.Gather) (keyword : Keyword) : Gathers [] (keywordStmt p keyword) := by
  have hreturn : Gathers [] (returnStmt p) :=
    consume.step fun _ => (orM (isAt _) (isAt _)).step fun _ => .ite (.pure (by simp))
      ((exprs_gathers hp).bind fun _ => .pure (by simp))
  have hdeclaration : ∀ k, Gathers [] (do
      let here ← Parse.current
      return .declaration here.loc (← declGroup p k) : Parse Stmt) := fun k =>
    current.step fun _ => (declGroup_gathers hp k).bind fun _ => .pure (by simp)
  unfold keywordStmt
  split
  · exact hdeclaration _
  · exact hdeclaration _
  · exact hdeclaration _
  · exact consume.step fun _ => (expr_gathers hp 0).bind fun _ => .pure (by simp)
  · exact consume.step fun _ => (expr_gathers hp 0).bind fun _ => .pure (by simp)
  · exact hreturn
  · exact branchStmt_gathers _
  · exact branchStmt_gathers _
  · exact branchStmt_gathers _
  · exact consume.step fun _ => .pure (by simp)
  · exact ifStmt_gathers hp
  · exact switchStmt_gathers hp
  · exact selectStmt_gathers hp
  · exact forStmt_gathers hp
  · exact simpleStmt_gathers hp _ _
  · exact simpleStmt_gathers hp _ _
  · exact simpleStmt_gathers hp _ _
  · exact simpleStmt_gathers hp _ _
  · exact simpleStmt_gathers hp _ _
  · exact badStmt_gathers

theorem stmt_gathers (hp : p.Gather) : Gathers [] (stmt p) := by
  refine current.step fun here => ?_
  split
  · exact keywordStmt_gathers hp _
  · exact (block_gathers hp).map fun _ => by simp
  · exact .pure (List.nil_sublist _)
  · exact .pure (List.nil_sublist _)
  · exact .ite (simpleStmt_gathers hp _ _) badStmt_gathers

end GoSyntax.Grammar

/-! ## Files and fragments -/

namespace GoSyntax

open Gathers

theorem Productions.gather_exhausted : exhausted.Gather := by
  have hmissing : Gathers [] missingOperand := current.step fun _ => (reportHere _).step fun _ => .pure (List.nil_sublist _)
  exact ⟨.pure (List.nil_sublist _), fun _ => hmissing, fun _ => hmissing, fun _ => hmissing,
    current.step fun _ => (reportExpected _).step fun _ => .pure (List.nil_sublist _)⟩

theorem Productions.Gather.deepen {p : Productions} (hp : p.Gather) : p.deepen.Gather :=
  ⟨Grammar.type?_gathers hp false, Grammar.expr_gathers hp, Grammar.unary_gathers hp, Grammar.elementValue_gathers hp,
    Grammar.stmt_gathers hp⟩

theorem Productions.gather_ofDepth (depth : Nat) : (ofDepth depth).Gather := by
  induction depth with
  | zero => exact gather_exhausted
  | succ depth ih => exact ih.deepen

namespace Grammar

variable {p : Productions}

theorem declEnd_gathers (quiet : Bool) : Gathers [] (declEnd quiet) :=
  (accept _).step fun _ => .ite (.pure (List.nil_sublist _))
    (Gathers.step (.ite (.pure (List.nil_sublist _)) (reportExpected _)) fun _ => skipTo _)

theorem funcDecl_gathers (hp : p.Gather) : Gathers [] (funcDecl p) := by
  have hreceiver : Gathers [] (receiver? p) :=
    (isAt _).step fun _ => .ite ((parameters_gathers hp false).map fun _ => by simp) (.pure (List.nil_sublist _))
  have hbody : Gathers [] (body? p) :=
    (isAt _).step fun _ => .ite ((block_gathers hp).map fun _ => by simp) (.pure (List.nil_sublist _))
  exact consume.step fun _ => hreceiver.bind fun _ => name.bind fun _ => (signature_gathers hp).bind fun _ =>
    hbody.bind fun _ => .pure (by simp)

theorem decl_gathers (hp : p.Gather) : Gathers [] (decl p) := by
  have hbad : Gathers [] badDecl :=
    current.step fun _ => (reportHere _).step fun _ => (skipTo _).step fun _ => .pure (List.nil_sublist _)
  refine current.step fun here => reports.step fun before => ?_
  split
  · exact (funcDecl_gathers hp).bind fun _ => reports.step fun _ => (declEnd_gathers _).step fun _ => .pure (by simp)
  · exact .ite ((declGroup_gathers hp _).bind fun _ => reports.step fun _ => (declEnd_gathers _).step fun _ => .pure (by simp)) hbad
  · exact hbad

theorem packageClause_gathers : Gathers [] packageClause :=
  current.step fun _ => (accept _).step fun _ => .ite
    (name.bind fun _ => (declEnd_gathers _).step fun _ => .pure (by simp))
    ((reportExpected _).step fun _ => .pure (List.nil_sublist _))

theorem sourceFile_gathers (hp : p.Gather) : Gathers [] (sourceFile p) := by
  refine current.step fun _ => packageClause_gathers.bind fun _ => .bind (.loop (fun decls => ?_) #[]) fun _ => .pure (by simp)
  exact isAtEnd.step fun _ => .ite (.pure (by simp)) ((decl_gathers hp).bind fun _ => .pure (by simp))

theorem fragmentEnd_gathers : Gathers [] fragmentEnd :=
  (accept _).step fun _ => isAtEnd.step fun _ => .ite (.pure (List.nil_sublist _)) (reportExpected _)

theorem exprFragment_gathers (hp : p.Gather) : Gathers [] (exprFragment p) :=
  (expr_gathers hp 0).bind fun _ => fragmentEnd_gathers.step fun _ => .pure (by simp)

theorem stmtFragment_gathers (hp : p.Gather) : Gathers [] (stmtFragment p) :=
  (stmt_gathers hp).bind fun _ => fragmentEnd_gathers.step fun _ => .pure (by simp)

end Grammar

/-- The leaves of a tree are gathered from the tokens of its source. -/
theorem leaves_sublist_tokens {α : Type} [HasLeaves α] {parser : Productions → Parse α}
    (h : ∀ p : Productions, p.Gather → Gathers [] (parser p)) (path : SourcePath) (bytes : List UInt8) :
    (leaves (Parsed.ofBytes parser path bytes).tree).Sublist (leavesOfTokens (tokenize path bytes).1) := by
  obtain ⟨taken, hkinds, hleaves⟩ := h _ (Productions.gather_ofDepth _) (.start path bytes)
  refine hleaves.trans ?_
  have htokens : leavesOfTokens (tokenize path bytes).1 = ((tokenize path bytes).1.map Token.kind).filterMap TokenKind.leaf? := by
    rw [List.filterMap_map]
    rfl
  rw [htokens, kinds_tokenize, hkinds, List.append_assoc, List.filterMap_append]
  exact List.sublist_append_left _ _

/-- A tree is read in order: the nodes that are leaves stand for tokens of the source, each for one of its own, in the same order and
with the same names and values. In particular this is so of names and literals alone, without the dots of imports. -/
def ReadInOrder (nodes : List Node) (tokens : List Token) : Prop :=
  (leavesOfNodes nodes).Sublist (leavesOfTokens tokens)
    ∧ ((leavesOfNodes nodes).filter TokenKind.isWord).Sublist ((leavesOfTokens tokens).filter TokenKind.isWord)

/-- However a source is parsed, its tree is read in order: recovery from errors makes nothing up and turns nothing around. -/
theorem trees_read_in_order (path : SourcePath) (bytes : List UInt8) :
    ReadInOrder (parseFile path bytes).tree.nodes (tokenize path bytes).1
      ∧ ReadInOrder (parseExpr path bytes).tree.nodes (tokenize path bytes).1
      ∧ ReadInOrder (parseStmt path bytes).tree.nodes (tokenize path bytes).1 := by
  have hfile := leaves_sublist_tokens (fun _ => Grammar.sourceFile_gathers) path bytes
  have hexpr := leaves_sublist_tokens (fun _ => Grammar.exprFragment_gathers) path bytes
  have hstmt := leaves_sublist_tokens (fun _ => Grammar.stmtFragment_gathers) path bytes
  exact ⟨⟨hfile, hfile.filter _⟩, ⟨hexpr, hexpr.filter _⟩, ⟨hstmt, hstmt.filter _⟩⟩

/-- In `a, b := f x` the name `x` and what is wrong with it are dropped. -/
example : leavesOfNodes (parseStmt ⟨0, "p.go"⟩ (Utf8.encode "a, b := f x".toList)).tree.nodes = [.ident "a", .ident "b", .ident "f"] := by
  decide +kernel

end GoSyntax
