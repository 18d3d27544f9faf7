import GoSyntax.Proofs.Context.Expressions

/-!
# Statements are pursued

The first expressions of a simple statement, and the parts of a header, are read before it is known what they are for. What they turn
out to be depends on the tokens behind them and on their shape, which are the same in both runs.
-/

namespace GoSyntax.Grammar

open FollowsAt

variable {B : Pursuit} {p q : Productions}

/-! ## Simple statements -/

theorem checkAtMost_follows (limit : Nat) (context : String) (found : Nat) (loc : Location) :
    Follows B (checkAtMost limit context found loc) (checkAtMost limit context found (moved B.shift loc)) := reportUnless _ _ _

theorem checkAssignment_follows (op : Operator) (targets values : Nat) (loc : Location) :
    Follows B (checkAssignment op targets values loc) (checkAssignment op targets values (moved B.shift loc)) := by
  unfold checkAssignment
  split
  · exact report _ _
  · exact .pure rfl

theorem assignment_follows (h : p.Pursued B q) (level : Int) (op : Operator) (targets : List Expr) (loc : Location) :
    Follows B (assignment p level op targets loc) (assignment q level op (moved B.shift targets) (moved B.shift loc)) := by
  refine (exprList_follows h level).bind fun (value, values) => ?_
  dsimp only [moved_pair]
  rw [length_moved, length_moved]
  exact (checkAssignment_follows _ _ _ _).bind fun _ => .pure (by simp)

theorem rangeClause_follows (h : p.Pursued B q) (level : Int) (vars : List Expr) (define : Bool) (loc : Location) :
    Follows B (rangeClause p level vars define loc) (rangeClause q level (moved B.shift vars) define (moved B.shift loc)) := by
  rw [rangeClause, rangeClause, length_moved]
  exact (expr_follows h level).bind fun _ => (checkAtMost_follows _ _ _ _).bind fun _ => .pure rfl

theorem assignmentOrRange_follows (h : p.Pursued B q) (position : SimplePosition) (level : Int) (op : Operator)
    (targets : List Expr) (loc : Location) : Follows B (assignmentOrRange p position level op targets loc)
      (assignmentOrRange q position level op (moved B.shift targets) (moved B.shift loc)) :=
  consume.bind fun _ => (andM (.pure rfl) (accept _)).bind fun _ => .ite
    (rangeClause_follows h level targets _ loc) ((assignment_follows h level op targets loc).map fun _ => rfl)

theorem send_follows (h : p.Pursued B q) (level : Int) (channel : Expr) (others : List Expr) (loc : Location) :
    Follows B (send p level channel others loc)
      (send q level (moved B.shift channel) (moved B.shift others) (moved B.shift loc)) := by
  rw [send, send, length_moved]
  exact consume.bind fun _ => (checkAtMost_follows _ _ _ _).bind fun _ => (expr_follows h level).bind fun _ => .pure rfl

theorem incDec_follows (op : Operator) (operand : Expr) (others : List Expr) (loc : Location) :
    Follows B (incDec op operand others loc)
      (incDec op (moved B.shift operand) (moved B.shift others) (moved B.shift loc)) := by
  rw [incDec, incDec, length_moved]
  exact consume.bind fun _ => (checkAtMost_follows _ _ _ _).bind fun _ => .pure rfl

theorem labeled_follows (h : p.Pursued B q) (label : Name) (loc : Location) :
    Follows B (labeled p label loc) (labeled q (moved B.shift label) (moved B.shift loc)) :=
  consume.bind fun _ => (isAt _).bind fun _ => .ite (current.bind fun _ => .pure rfl) (h.stmt.bind fun _ => .pure rfl)

theorem alone_follows (first : Expr) (others : List Expr) (loc : Location) :
    Follows B (alone first others loc) (alone (moved B.shift first) (moved B.shift others) (moved B.shift loc)) := by
  rw [alone, alone, isEmpty_moved]
  exact .ite (.pure rfl) ((reportExpected _).bind fun _ => .pure rfl)

theorem bare_follows (h : p.Pursued B q) (position : SimplePosition) (first : Expr) (others : List Expr) (loc : Location) :
    Follows B (bare p position first others loc)
      (bare q position (moved B.shift first) (moved B.shift others) (moved B.shift loc)) := by
  have halone := alone_follows (B := B) first others loc
  cases position with
  | block =>
    cases first with
    | ident labelLoc label =>
      cases others with
      | nil => exact (isAt _).bind fun _ => .ite (labeled_follows h ⟨labelLoc, label⟩ loc) halone
      | cons => exact halone
    | _ => exact halone
  | _ => exact halone

theorem simpleBy_follows (h : p.Pursued B q) (position : SimplePosition) (level : Int) (op : Operator) (first : Expr)
    (others : List Expr) (loc : Location) : Follows B (simpleBy p position level op first others loc)
      (simpleBy q position level op (moved B.shift first) (moved B.shift others) (moved B.shift loc)) := by
  unfold simpleBy
  split
  · exact (incDec_follows op first others loc).map fun _ => rfl
  · exact assignmentOrRange_follows h position level op (first :: others) loc
  · exact (bare_follows h position first others loc).map fun _ => rfl

theorem simpleFrom_follows (h : p.Pursued B q) (position : SimplePosition) (level : Int) (first : Expr) (others : List Expr)
    (loc : Location) : Follows B (simpleFrom p position level first others loc)
      (simpleFrom q position level (moved B.shift first) (moved B.shift others) (moved B.shift loc)) := by
  refine current.bind fun here => ?_
  obtain ⟨kind, _⟩ := here
  dsimp only [Token.kind_moved]
  split
  · exact (send_follows h level first others loc).map fun _ => rfl
  · exact simpleBy_follows h position level _ first others loc
  · exact (bare_follows h position first others loc).map fun _ => rfl

theorem simple_follows (h : p.Pursued B q) (position : SimplePosition) (level : Int) :
    Follows B (simple p position level) (simple q position level) :=
  current.bind fun here => (exprList_follows h level).bind fun (first, others) => simpleFrom_follows h position level first others here.loc

theorem simpleStmt_follows (h : p.Pursued B q) (position : SimplePosition) (level : Int) :
    Follows B (simpleStmt p position level) (simpleStmt q position level) := by
  refine current.bind fun _ => (simple_follows h position level).bind fun s => ?_
  cases s with
  | stmt s => exact .pure rfl
  | range vars define operand => exact .pure rfl

/-! ## Control statements -/

theorem headerExpr_follows (what : String) (s : Stmt) : Follows B (headerExpr what s) (headerExpr what (moved B.shift s)) := by
  have hother : Follows B (do Parse.report (.expectedToken what "simple statement") s.loc; return Expr.bad s.loc)
      (do
        Parse.report (.expectedToken what "simple statement") (moved B.shift s).loc
        return Expr.bad (moved B.shift s).loc) := by
    rw [Stmt.loc_moved]
    exact (report _ _).bind fun _ => .pure rfl
  cases s with
  | expr loc e => exact .pure rfl
  | block body => cases body; exact hother
  | _ => exact hother

theorem headerStmtBefore?_follows (h : p.Pursued B q) (stop : TokenKind) :
    Follows B (headerStmtBefore? p stop) (headerStmtBefore? q stop) :=
  (isAt _).bind fun _ => .ite (.pure rfl) ((simpleStmt_follows h _ _).map fun _ => rfl)

theorem header_follows (h : p.Pursued B q) : Follows B (header p) (header q) :=
  (headerStmtBefore?_follows h _).bind fun _ => (accept _).bind fun _ => .ite
    ((headerStmtBefore?_follows h _).bind fun _ => .pure rfl) (.pure rfl)

theorem missingCondition_follows : Follows B missingCondition missingCondition :=
  current.bind fun _ => (reportExpected _).bind fun _ => .pure rfl

theorem ifHeader_follows (h : p.Pursued B q) : Follows B (ifHeader p) (ifHeader q) := by
  refine (isAt _).bind fun _ => .ite (missingCondition_follows.bind fun _ => .pure rfl)
    ((header_follows h).bind fun (init, cond) => ?_)
  cases cond with
  | some s => exact (headerExpr_follows _ s).bind fun _ => .pure rfl
  | none => exact missingCondition_follows.bind fun _ => .pure rfl

theorem otherwise_follows (h : p.Pursued B q) : Follows B (otherwise p) (otherwise q) :=
  (isAt _).bind fun _ => .ite h.stmt ((isAt _).bind fun _ => .ite ((block_follows h).map fun _ => rfl)
    (current.bind fun _ => (reportExpected _).bind fun _ => .pure rfl))

theorem ifStmt_follows (h : p.Pursued B q) : Follows B (ifStmt p) (ifStmt q) :=
  consume.bind fun _ => (ifHeader_follows h).bind fun (_, _) => (block_follows h).bind fun _ => (accept _).bind fun _ => .ite
    ((otherwise_follows h).bind fun _ => .pure (by simp)) (.pure (by simp))

section Clauses

variable {α : Type} [Movable α]

theorem clausePass_follows {clause clause' : Parse α} (h : Follows B clause clause') (list : Array α) :
    Follows B (clausePass clause list) (clausePass clause' (moved B.shift list)) :=
  current.bind fun _ => .ite (.pure rfl) (.ite (h.bind fun _ => .pure (by simp))
    ((reportExpected _).bind fun _ => (skipTo _).bind fun _ => .pure rfl))

theorem clauses_follows {clause clause' : Parse α} (hpaced : Paced B (clausePass clause)) (h : Follows B clause clause') :
    Follows B (clauses clause) (clauses clause') :=
  (expect _).bind fun _ => (loop hpaced (by simp) (clausePass_follows h)).bind fun _ => (expect _).bind fun _ => .pure (by simp)

theorem clauseLabel?_follows (here : Token) {label label' : Parse α} (h : Follows B label label') :
    Follows B (clauseLabel? here label) (clauseLabel? (moved B.shift here) label') :=
  .ite (h.map fun _ => rfl) (.pure rfl)

end Clauses

theorem exprs_follows (h : p.Pursued B q) : Follows B (exprs p) (exprs q) :=
  (exprList_follows h 0).bind fun (_, _) => .pure rfl

theorem caseClause_follows (h : p.Pursued B q) (ofTypes : Bool) : Follows B (caseClause p ofTypes) (caseClause q ofTypes) := by
  have htypes : Follows B (types p) (types q) := (separated h.paced.types (type_follows h)).bind fun (_, _) => .pure rfl
  have hlist : Follows B (caseList p ofTypes) (caseList q ofTypes) := .ite htypes (exprs_follows h)
  exact consume.bind fun here => (clauseLabel?_follows here hlist).bind fun _ => (expect _).bind fun _ =>
    (statements_follows h).bind fun _ => .pure (by simp)

theorem switchStmt_follows (h : p.Pursued B q) : Follows B (switchStmt p) (switchStmt q) := by
  have hheader : Follows B (switchHeader p) (switchHeader q) := (isAt _).bind fun _ => .ite (.pure rfl) (header_follows h)
  have hclauses : ∀ ofTypes, Follows B (clauses (caseClause p ofTypes)) (clauses (caseClause q ofTypes)) := fun ofTypes =>
    clauses_follows (h.paced.cases ofTypes) (caseClause_follows h ofTypes)
  refine consume.bind fun here => hheader.bind fun (init, tag) => ?_
  cases tag with
  | none => exact (hclauses false).bind fun _ => .pure (by simp)
  | some s =>
    dsimp only [moved_pair, moved_some]
    rw [isTypeSwitchGuard_moved]
    exact .ite ((hclauses true).bind fun _ => .pure (by simp))
      ((hclauses false).bind fun _ => (headerExpr_follows _ s).bind fun _ => .pure (by simp))

theorem receive_follows (first : Expr) (others : List Expr) (loc : Location) :
    Follows B (receive first others loc) (receive (moved B.shift first) (moved B.shift others) (moved B.shift loc)) := by
  rw [receive, receive, length_moved]
  exact (checkAtMost_follows _ _ _ _).bind fun _ => .pure rfl

theorem receiveInto_follows (h : p.Pursued B q) (op : Operator) (targets : List Expr) (loc : Location) :
    Follows B (receiveInto p op targets loc) (receiveInto q op (moved B.shift targets) (moved B.shift loc)) := by
  rw [receiveInto, receiveInto, length_moved]
  exact consume.bind fun _ => (checkAtMost_follows _ _ _ _).bind fun _ => (expr_follows h 0).bind fun _ => .pure (by simp)

theorem communication_follows (h : p.Pursued B q) : Follows B (communication p) (communication q) := by
  refine current.bind fun start => (exprList_follows h 0).bind fun (first, others) => current.bind fun here => ?_
  obtain ⟨kind, _⟩ := here
  dsimp only [moved_pair, Token.kind_moved, Token.loc_moved]
  split
  · exact send_follows h 0 first others _
  · exact .ite (receiveInto_follows h _ (first :: others) _) (receive_follows first others _)
  · exact receive_follows first others _

theorem commClause_follows (h : p.Pursued B q) : Follows B (commClause p) (commClause q) :=
  consume.bind fun here => (clauseLabel?_follows here (communication_follows h)).bind fun _ => (expect _).bind fun _ =>
    (statements_follows h).bind fun _ => .pure (by simp)

theorem selectStmt_follows (h : p.Pursued B q) : Follows B (selectStmt p) (selectStmt q) :=
  consume.bind fun _ => (clauses_follows h.paced.comms (commClause_follows h)).bind fun _ => .pure (by simp)

theorem loopClauses_follows (h : p.Pursued B q) (init : Option Stmt) :
    Follows B (loopClauses p init) (loopClauses q (moved B.shift init)) :=
  consume.bind fun _ => (headerStmtBefore?_follows h _).bind fun _ => (expect _).bind fun _ =>
    (headerStmtBefore?_follows h _).bind fun _ => .pure rfl

theorem loopHeader_follows (h : p.Pursued B q) : Follows B (loopHeader p) (loopHeader q) := by
  have hfrom : Follows B (loopHeaderFrom p) (loopHeaderFrom q) := by
    refine (simple_follows h .loopHeader (-1)).bind fun s => ?_
    cases s with
    | range vars define operand => exact .pure rfl
    | stmt s => exact (isAt _).bind fun _ => .ite (loopClauses_follows h (some s)) (.pure rfl)
  exact (isAt _).bind fun _ => .ite (.pure rfl) ((accept _).bind fun _ => .ite
    ((expr_follows h (-1)).bind fun _ => .pure rfl)
    ((isAt _).bind fun _ => .ite (loopClauses_follows h none) hfrom))

theorem forStmt_follows (h : p.Pursued B q) : Follows B (forStmt p) (forStmt q) := by
  refine consume.bind fun _ => (loopHeader_follows h).bind fun head => (block_follows h).bind fun body => ?_
  match head with
  | .range vars define operand =>
    refine .pure ?_
    rw [getElem?_moved, getElem?_moved, Stmt.moved_range]
    rfl
  | .clauses init none post => exact .pure (by simp)
  | .clauses init (some cond) post => exact (headerExpr_follows _ cond).bind fun _ => .pure (by simp)

/-! ## Specifications -/

theorem importName?_follows : Follows B importName? importName? :=
  current.bind fun _ => .ite (consume.bind fun _ => .pure rfl) (.ite (name.map fun _ => rfl) (.pure rfl))

theorem importSpec_follows : Follows B importSpec importSpec := by
  have hpath : Follows B importPath importPath := by
    refine stringLiteral?.bind fun path => ?_
    cases path with
    | some path => exact .pure rfl
    | none => exact current.bind fun _ => (reportExpected _).bind fun _ => .pure rfl
  exact importName?_follows.bind fun _ => hpath.bind fun _ => .pure rfl

theorem valueSpec_follows (h : p.Pursued B q) (keyword : Keyword) (isFirst : Bool) (loc : Location) :
    Follows B (valueSpec p keyword isFirst loc) (valueSpec q keyword isFirst (moved B.shift loc)) := by
  have hvalues : ∀ required, Follows B (specValues p required) (specValues q required) := fun required =>
    (accept _).bind fun _ => .ite ((exprList_follows h 0).bind fun (_, _) => .pure rfl)
      (bind (.ite (reportExpected _) (.pure rfl)) fun _ => .pure rfl)
  refine names.bind fun _ => h.type?.bind fun t => ?_
  rw [isSome_moved]
  exact (hvalues _).bind fun _ => .pure (by simp)

theorem spec_follows (h : p.Pursued B q) (keyword : Keyword) (isFirst : Bool) :
    Follows B (spec p keyword isFirst) (spec q keyword isFirst) := by
  refine current.bind fun here => ?_
  split
  · exact importSpec_follows.bind fun _ => .pure rfl
  · exact name.bind fun _ => (type_follows h).bind fun _ => .pure rfl
  · exact valueSpec_follows h _ _ _

theorem resumeGroup_follows {n n' : Nat} (hn : B.counts n n') (specs : Array Spec) :
    Follows B (resumeGroup n specs) (resumeGroup n' (moved B.shift specs)) := by
  have hnext : Follows B (nextMember specs) (nextMember (moved B.shift specs)) :=
    (orM (accept _) (isAt _)).bind fun _ => .ite (.pure rfl) (.pure rfl)
  exact (FollowsAt.reportMissing hn _).bind fun _ => (skipTo _).bind fun _ => hnext

theorem specPass_follows (h : p.Pursued B q) (keyword : Keyword) (group : Array Spec × Bool) :
    Follows B (specPass p keyword group) (specPass q keyword (moved B.shift group)) := by
  obtain ⟨specs, closes⟩ := group
  refine current.bind fun here => .ite (.pure rfl) (.reports fun n n' hn => .ite ?_ (resumeGroup_follows hn specs))
  dsimp only [moved_pair]
  rw [isEmpty_moved_array]
  refine (spec_follows h keyword _).bind fun spec => ?_
  rw [← moved_push]
  exact (orM (isAt _) (accept _)).bind fun _ => .ite (.pure rfl) (resumeGroup_follows hn _)

theorem declGroup_follows (h : p.Pursued B q) (keyword : Keyword) : Follows B (declGroup p keyword) (declGroup q keyword) := by
  have hgroup : Follows B (specGroup p keyword) (specGroup q keyword) :=
    (loop (h.paced.specs keyword) (by simp) (specPass_follows h keyword)).bind fun (_, _) =>
      bind (.ite ((expect _).bind fun _ => .pure rfl) (.pure rfl)) fun _ => .pure (by simp)
  exact consume.bind fun _ => (accept _).bind fun _ => .ite (hgroup.bind fun _ => .pure (by simp))
    ((spec_follows h keyword true).bind fun _ => .pure (by simp))

theorem receiver?_follows (h : p.Pursued B q) : Follows B (receiver? p) (receiver? q) :=
  (isAt _).bind fun _ => .ite ((parameters_follows h false).map fun _ => rfl) (.pure rfl)

theorem funcDecl_follows (h : p.Pursued B q) : Follows B (funcDecl p) (funcDecl q) := by
  have hbody : Follows B (body? p) (body? q) := (isAt _).bind fun _ => .ite ((block_follows h).map fun _ => rfl) (.pure rfl)
  exact consume.bind fun _ => (receiver?_follows h).bind fun _ => name.bind fun _ => (signature_follows h).bind fun _ =>
    hbody.bind fun _ => .pure (by simp)

/-! ## All statements -/

theorem badStmt_follows : Follows B badStmt badStmt :=
  current.bind fun _ => (reportExpected _).bind fun _ => (skipTo _).bind fun _ => .pure rfl

theorem branchStmt_follows (keyword : Keyword) : Follows B (branchStmt keyword) (branchStmt keyword) :=
  consume.bind fun _ => current.bind fun _ => .ite (name.bind fun _ => .pure rfl) (.pure rfl)

theorem keywordStmt_follows (h : p.Pursued B q) (keyword : Keyword) : Follows B (keywordStmt p keyword) (keywordStmt q keyword) := by
  have hreturn : Follows B (returnStmt p) (returnStmt q) :=
    consume.bind fun _ => (orM (isAt _) (isAt _)).bind fun _ => .ite (.pure (by simp))
      ((exprs_follows h).bind fun _ => .pure (by simp))
  have hdeclaration : ∀ k, Follows B (do return Stmt.declaration (← Parse.current).loc (← declGroup p k))
      (do return Stmt.declaration (← Parse.current).loc (← declGroup q k)) := fun k =>
    current.bind fun _ => (declGroup_follows h k).bind fun _ => .pure rfl
  unfold keywordStmt
  split
  · exact hdeclaration _
  · exact hdeclaration _
  · exact hdeclaration _
  · exact consume.bind fun _ => (expr_follows h 0).bind fun _ => .pure rfl
  · exact consume.bind fun _ => (expr_follows h 0).bind fun _ => .pure rfl
  · exact hreturn
  · exact branchStmt_follows _
  · exact branchStmt_follows _
  · exact branchStmt_follows _
  · exact consume.bind fun _ => .pure rfl
  · exact ifStmt_follows h
  · exact switchStmt_follows h
  · exact selectStmt_follows h
  · exact forStmt_follows h
  · exact simpleStmt_follows h _ _
  · exact simpleStmt_follows h _ _
  · exact simpleStmt_follows h _ _
  · exact simpleStmt_follows h _ _
  · exact simpleStmt_follows h _ _
  · exact badStmt_follows

theorem stmt_follows (h : p.Pursued B q) : Follows B (stmt p) (stmt q) := by
  refine current.bind fun here => ?_
  obtain ⟨kind, loc⟩ := here
  dsimp only [Token.kind_moved]
  split
  · exact keywordStmt_follows h _
  · exact (block_follows h).map fun _ => rfl
  · exact .pure rfl
  · exact .pure rfl
  · exact .ite (simpleStmt_follows h _ _) badStmt_follows

end GoSyntax.Grammar
