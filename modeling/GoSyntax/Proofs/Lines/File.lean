import GoSyntax.Grammar.File
import GoSyntax.Proofs.Lines.Expressions
import GoSyntax.Proofs.Lines.Source

/-!
# Locations are in order and in range

A statement stands where its first token does, which has been looked at before it is known what kind of statement it is. So the parsers
that go on behind the first expressions are given that place and those of the expressions. What a header has no place for is replaced by
something that stands where it did.

At every depth all productions trace their source, and so does a file. So the nodes of its tree, in the order of a walk from the root
down, stand where its tokens do, in their order, whatever is reported and skipped on the way; and a report stands at the place of a token
or has been met by the scan.
-/

namespace GoSyntax.Grammar

open Traces

variable {p : Productions} {loc : Location}

/-! ## Simple statements -/

theorem checkAssignment_traces {given : List Location} (op : Operator) (targets values : Nat) (h : loc ∈ given) :
    Traces given (checkAssignment op targets values loc) := by
  unfold checkAssignment
  split
  · exact report _ h
  · exact .pure (by simp)

theorem assignment_traces (hp : p.Trace) (level : Int) (op : Operator) (targets : List Expr) :
    Traces (loc :: places targets) (assignment p level op targets loc) := by
  refine (exprList_traces hp level).bind fun (value, values) => ?_
  exact (checkAssignment_traces _ _ _ (by simp)).step fun _ => .pure (by simp)

theorem rangeClause_traces (hp : p.Trace) (level : Int) (vars : List Expr) (define : Bool) :
    Traces (loc :: places vars) (rangeClause p level vars define loc) := by
  refine (expr_traces hp level).bind fun operand => (reportUnless _ _ (by simp)).step fun _ => .pure ?_
  exact .pass (.refl _)

theorem assignmentOrRange_traces (hp : p.Trace) (position : SimplePosition) (level : Int) (op : Operator) (targets : List Expr) :
    Traces (loc :: places targets) (assignmentOrRange p position level op targets loc) := by
  refine consume.among.step fun _ => (andM (.pure (by simp)) (accept _)).step fun _ => .ite (rangeClause_traces hp level targets _) ?_
  exact (assignment_traces hp level op targets).map fun _ => .refl _

theorem send_traces (hp : p.Trace) (level : Int) (channel : Expr) (others : List Expr) :
    Traces (loc :: places channel) (send p level channel others loc) := by
  refine consume.among.step fun _ => (reportUnless _ _ (by simp)).step fun _ => ?_
  exact (expr_traces hp level).bind fun _ => .pure (by simp)

theorem incDec_traces (op : Operator) (operand : Expr) (others : List Expr) :
    Traces (loc :: places operand) (incDec op operand others loc) :=
  consume.among.step fun _ => (reportUnless _ _ (by simp)).step fun _ => .pure (by simp)

theorem labeled_traces (hp : p.Trace) (label : Name) : Traces [loc, label.loc] (labeled p label loc) := by
  refine consume.among.step fun _ => (isAt _).step fun _ => .ite ?_ ?_
  · exact current.bind fun here => .pure (by simp)
  · exact hp.stmt.bind fun _ => .pure (by simp)

theorem alone_traces (first : Expr) (others : List Expr) : Traces (loc :: places first) (alone first others loc) :=
  .ite (.pure (by simp)) ((reportExpected _).step fun _ => .pure (by simp))

theorem bare_traces (hp : p.Trace) (position : SimplePosition) (first : Expr) (others : List Expr) :
    Traces (loc :: places first) (bare p position first others loc) := by
  unfold bare
  split
  · next labelLoc label =>
    exact (isAt _).step fun _ => .ite (labeled_traces hp ⟨labelLoc, label⟩) (alone_traces _ _)
  · exact alone_traces _ _

/-- The expressions behind the first one may be dropped. -/
theorem along_first (first : Expr) (others : List Expr) :
    Along (loc :: places first) (loc :: (places first ++ places others)) := by
  simpa using ((Along.refl (places first)).append (Along.nil (places others))).cons loc

theorem simpleBy_traces (hp : p.Trace) (position : SimplePosition) (level : Int) (op : Operator) (first : Expr)
    (others : List Expr) : Traces (loc :: (places first ++ places others)) (simpleBy p position level op first others loc) := by
  unfold simpleBy
  split
  · exact ((incDec_traces op first others).weaken (along_first first others)).map fun _ => .refl _
  · exact assignmentOrRange_traces hp position level op (first :: others)
  · exact ((bare_traces hp position first others).weaken (along_first first others)).map fun _ => .refl _

theorem simple_traces (hp : p.Trace) (position : SimplePosition) (level : Int) : Traces [] (simple p position level) := by
  refine current.bind fun start => (exprList_traces hp level).bind fun (first, others) => current.among.step fun here => ?_
  change Traces (start.loc :: (places first ++ places others)) _
  split
  · exact ((send_traces hp level first others).weaken (along_first first others)).map fun _ => .refl _
  · exact simpleBy_traces hp position level _ first others
  · exact ((bare_traces hp position first others).weaken (along_first first others)).map fun _ => .refl _

theorem simpleStmt_traces (hp : p.Trace) (position : SimplePosition) (level : Int) :
    Traces [] (simpleStmt p position level) := by
  refine current.bind fun here => (simple_traces hp position level).bind fun s => ?_
  cases s with
  | stmt s => exact .pure ((Along.refl _).behind _)
  | range vars define operand => exact .pure ((Along.nil _).stop)

/-! ## Control statements -/

/-- A header statement is an expression, or it is reported and something stands in for it where it starts. -/
theorem headerExpr_knowing (what : String) (s : Stmt) (c : Cursor) : (headerExpr what s c).2.feed = c.feed
    ∧ (∀ d ∈ (headerExpr what s c).2.log.toList, d ∈ c.log.toList ∨ d.loc ∈ places s)
    ∧ Along (places (headerExpr what s c).1) (places s) := by
  have hreport : ∀ fault : Fault, ∀ d ∈ (c.log.push ⟨fault, s.loc⟩).toList, d ∈ c.log.toList ∨ d.loc ∈ places s := by
    intro fault d hd
    rw [Array.toList_push, List.mem_append, List.mem_singleton] at hd
    rcases hd with hd | rfl
    · exact .inl hd
    · exact .inr s.loc_mem_places
  have hbad : Along (places (Expr.bad s.loc)) (places s) := by
    obtain ⟨rest, hplaces⟩ := s.exists_places
    rw [hplaces]
    exact (Along.nil rest).cons s.loc
  cases s with
  | expr loc e => exact ⟨rfl, fun d hd => .inl hd, .pass (.refl (places e))⟩
  | _ => exact ⟨rfl, hreport _, hbad⟩

/-- A header statement is put in its place between what stands before it and behind it. -/
theorem headerExpr_between {α : Type} [HasPlaces α] {k : Expr → Parse α} (before behind : List Location) (what : String) (s : Stmt)
    (hk : ∀ e, Along (places e) (places s) → Traces (before ++ places s ++ behind) (k e)) :
    Traces (before ++ places s ++ behind) (headerExpr what s >>= k) := by
  refine .knowing (P := fun e => Along (places e) (places s)) (fun c => ?_) hk
  obtain ⟨hfeed, hlog, hplaces⟩ := headerExpr_knowing what s c
  exact ⟨hfeed, fun d hd => (hlog d hd).imp_right fun hd => by simp [hd], hplaces⟩

theorem headerStmtBefore?_traces (hp : p.Trace) (stop : TokenKind) : Traces [] (headerStmtBefore? p stop) :=
  (isAt _).step fun _ => .ite (.pure (by simp)) ((simpleStmt_traces hp _ _).map fun _ => by simp)

theorem header_traces (hp : p.Trace) : Traces [] (header p) := by
  refine (headerStmtBefore?_traces hp _).bind fun _ => (accept _).step fun _ => .ite ?_ (.pure (by simp))
  exact (headerStmtBefore?_traces hp _).bind fun _ => .pure (by simp)

theorem missingCondition_traces : Traces [] missingCondition :=
  current.bind fun here => (reportExpected _).step fun _ => .pure (by simp)

theorem ifHeader_traces (hp : p.Trace) : Traces [] (ifHeader p) := by
  refine (isAt _).step fun _ => .ite (missingCondition_traces.bind fun _ => .pure (by simp)) ?_
  refine (header_traces hp).bind fun (init, cond) => ?_
  cases cond with
  | some s =>
    have hcond := headerExpr_between (k := fun e => pure (init, e)) (places init) [] "condition" s
      fun e he => .pure (by simpa using he.appendLeft (places init))
    simpa using hcond
  | none => exact missingCondition_traces.bind fun _ => .pure (by simp)

theorem otherwise_traces (hp : p.Trace) : Traces [] (otherwise p) := by
  refine (isAt _).step fun _ => .ite hp.stmt ((isAt _).step fun _ => .ite ?_ ?_)
  · exact (block_traces hp).map fun _ => by simp
  · exact current.bind fun here => (reportExpected _).step fun _ => .pure (by simp)

theorem ifStmt_traces (hp : p.Trace) : Traces [] (ifStmt p) := by
  refine consume.bind fun here => (ifHeader_traces hp).bind fun (init, cond) => (block_traces hp).bind fun body => ?_
  refine (accept _).step fun _ => .ite ?_ (.pure (by simp))
  exact (otherwise_traces hp).bind fun _ => .pure (by simp)

theorem clauses_traces {α : Type} [HasPlaces α] {clause : Parse α} (h : Traces [] clause) : Traces [] (clauses clause) := by
  refine (expect _).step fun _ => .bind (.loop (fun list => ?_) #[]) fun _ => (expect _).among.step fun _ => .pure (by simp)
  refine current.among.step fun _ => .ite (.pure (by simp)) (.ite (h.bind fun _ => .pure (by simp)) ?_)
  exact (reportExpected _).step fun _ => (skipTo _).step fun _ => .pure (by simp)

theorem clauseLabel?_traces {α : Type} [HasPlaces α] (here : Token) {label : Parse α} (h : Traces [] label) :
    Traces [] (clauseLabel? here label) := .ite (h.map fun _ => by simp) (.pure (by simp))

theorem exprs_traces (hp : p.Trace) : Traces [] (exprs p) := (exprList_traces hp 0).bind fun (_, _) => .pure (by simp)

theorem caseClause_traces (hp : p.Trace) (ofTypes : Bool) : Traces [] (caseClause p ofTypes) := by
  have htypes : Traces [] (types p) := (separated (type_traces hp)).bind fun (_, _) => .pure (by simp)
  have hlist : Traces [] (caseList p ofTypes) := .ite htypes (exprs_traces hp)
  refine consume.bind fun here => (clauseLabel?_traces here hlist).bind fun _ => (expect _).among.step fun _ => ?_
  exact (statements_traces hp).bind fun _ => .pure (by simp)

theorem switchStmt_traces (hp : p.Trace) : Traces [] (switchStmt p) := by
  have hheader : Traces [] (switchHeader p) := (isAt _).step fun _ => .ite (.pure (by simp)) (header_traces hp)
  refine consume.bind fun here => hheader.bind fun (init, tag) => ?_
  cases tag with
  | none => exact (clauses_traces (caseClause_traces hp false)).bind fun _ => .pure (by simp)
  | some s =>
    refine .ite ((clauses_traces (caseClause_traces hp true)).bind fun _ => .pure (by simp)) ?_
    refine (clauses_traces (caseClause_traces hp false)).bind fun list => ?_
    have htag := headerExpr_between (k := fun e => pure (Stmt.switch here.loc init (some e) list)) (here.loc :: places init)
      (places list) "switch expression" s fun e he => .pure (by
        simpa using ((he.appendRight (places list)).appendLeft (places init)).cons here.loc)
    simpa using htag

/-- What a case of a select waits for starts with expressions that have been read. -/
theorem communication_traces (hp : p.Trace) : Traces [] (communication p) := by
  refine current.bind fun start => (exprList_traces hp 0).bind fun (first, others) => current.among.step fun here => ?_
  change Traces (start.loc :: (places first ++ places others)) _
  have hreceive : Traces (start.loc :: (places first ++ places others)) (receive first others start.loc) :=
    (reportUnless _ _ (by simp)).step fun _ => .pure (by simpa using along_first first others)
  split
  · exact (send_traces hp 0 first others).weaken (along_first first others)
  · refine .ite ?_ hreceive
    refine consume.among.step fun _ => (reportUnless _ _ (by simp)).step fun _ => ?_
    exact (expr_traces hp 0).bind fun _ => .pure (by simp)
  · exact hreceive

theorem selectStmt_traces (hp : p.Trace) : Traces [] (selectStmt p) := by
  have hclause : Traces [] (commClause p) := by
    refine consume.bind fun here => (clauseLabel?_traces here (communication_traces hp)).bind fun _ => ?_
    exact (expect _).among.step fun _ => (statements_traces hp).bind fun _ => .pure (by simp)
  exact consume.bind fun here => (clauses_traces hclause).bind fun _ => .pure (by simp)

theorem loopClauses_traces (hp : p.Trace) (init : Option Stmt) : Traces (places init) (loopClauses p init) := by
  refine consume.among.step fun _ => (headerStmtBefore?_traces hp _).bind fun _ => (expect _).among.step fun _ => ?_
  exact (headerStmtBefore?_traces hp _).bind fun _ => .pure (by simp)

theorem loopHeader_traces (hp : p.Trace) : Traces [] (loopHeader p) := by
  have hfrom : Traces [] (loopHeaderFrom p) := by
    refine (simple_traces hp .loopHeader (-1)).bind fun s => ?_
    cases s with
    | range vars define operand => exact .pure (.refl _)
    | stmt s => exact (isAt _).step fun _ => .ite ((loopClauses_traces hp (some s)).weaken (by simp)) (.pure (by simp))
  refine (isAt _).step fun _ => .ite (.pure (.nil _)) ((accept _).step fun _ => .ite ?_ ?_)
  · exact (expr_traces hp (-1)).bind fun _ => .pure (by simp)
  · exact (isAt _).step fun _ => .ite (loopClauses_traces hp none) hfrom

/-- The first two variables of a range clause stand where they were read. -/
theorem along_firstTwo (vars : List Expr) : Along (places vars[0]? ++ places vars[1]?) (places vars) := by
  match vars with
  | [] => exact .nil _
  | [a] => simp
  | a :: b :: rest => simpa using ((Along.nil (places rest)).appendLeft (places b)).appendLeft (places a)

theorem forStmt_traces (hp : p.Trace) : Traces [] (forStmt p) := by
  refine consume.bind fun here => (loopHeader_traces hp).bind fun head => (block_traces hp).bind fun body => ?_
  split
  · next vars define operand =>
    refine .pure ?_
    simpa using ((along_firstTwo vars).appendRight (places operand ++ places body)).cons here.loc
  · exact .pure (by simp)
  · next init cond post =>
    have hcond := headerExpr_between (k := fun e => pure (Stmt.for here.loc init (some e) post body)) (here.loc :: places init)
      (places post ++ places body) "loop condition" cond fun e he => .pure (by
        simpa using ((he.appendRight (places post ++ places body)).appendLeft (places init)).cons here.loc)
    simpa using hcond

/-! ## Specifications -/

theorem importName?_traces : Traces [] importName? := by
  refine current.bind fun here => .ite (consume.among.step fun _ => .pure (by simp)) (.ite ?_ (.pure (by simp)))
  exact (name.map fun _ => by simp).among

theorem importSpec_traces : Traces [] importSpec := by
  have hpath : Traces [] importPath := by
    refine stringLiteral?.bind fun path => ?_
    cases path with
    | some path => exact .pure (by simp)
    | none => exact current.bind fun here => (reportExpected _).step fun _ => .pure (by simp)
  exact importName?_traces.bind fun _ => hpath.bind fun _ => .pure (by simp)

theorem valueSpec_traces (hp : p.Trace) (keyword : Keyword) (isFirst : Bool) :
    Traces [loc] (valueSpec p keyword isFirst loc) := by
  have hvalues : ∀ required, Traces [] (specValues p required) := by
    intro required
    refine (accept _).step fun _ => .ite ((exprList_traces hp 0).bind fun (_, _) => .pure (by simp)) ?_
    exact Traces.step (.ite (reportExpected _) (.pure (by simp))) fun _ => .pure (by simp)
  exact names.bind fun _ => hp.type?.bind fun _ => (hvalues _).bind fun _ => .pure (by simp)

theorem spec_traces (hp : p.Trace) (keyword : Keyword) (isFirst : Bool) : Traces [] (spec p keyword isFirst) := by
  refine current.bind fun here => ?_
  split
  · exact importSpec_traces.bind fun _ => .pure (by simp)
  · exact name.bind fun _ => (type_traces hp).bind fun _ => .pure (by simp)
  · exact valueSpec_traces hp _ _

theorem declGroup_traces (hp : p.Trace) (keyword : Keyword) : Traces [] (declGroup p keyword) := by
  have hresume : ∀ n (specs : Array Spec), Traces (places specs) (resumeGroup n specs) := by
    intro n specs
    refine (reportMissing_traces n _).step fun _ => (skipTo _).step fun _ => (orM (accept _) (isAt _)).step fun _ => ?_
    exact .ite (.pure (by simp)) (.pure (by simp))
  have hpass : ∀ group : Array Spec × Bool, Traces (places group) (specPass p keyword group) := by
    rintro ⟨specs, closes⟩
    refine current.among.step fun _ => .ite (.pure (by simp)) (reports.step fun n => .ite ?_ ((hresume n specs).weaken (by simp)))
    refine (spec_traces hp keyword _).bind fun _ => (orM (isAt _) (accept _)).step fun _ => .ite (.pure (by simp)) ?_
    exact (hresume n _).weaken (by simp)
  have hclose : ∀ closes (given : List Location), Traces given (closeGroup closes) := by
    intro closes given
    exact .ite ((expect _).among.step fun _ => .pure (by simp)) (.pure (by simp))
  have hgroup : Traces [] (specGroup p keyword) :=
    Traces.bind (.loop hpass (#[], true)) fun (_, _) => (hclose _ _).step fun _ => .pure (by simp)
  refine consume.step fun _ => (accept _).step fun _ => .ite ?_ ?_
  · exact hgroup.bind fun _ => .pure (by simp)
  · exact (spec_traces hp keyword true).bind fun _ => .pure (by simp)

/-! ## All statements -/

theorem badStmt_traces : Traces [] badStmt :=
  current.bind fun here => (reportExpected _).step fun _ => (skipTo _).step fun _ => .pure (by simp)

theorem branchStmt_traces (keyword : Keyword) : Traces [] (branchStmt keyword) := by
  refine consume.bind fun here => current.among.step fun _ => .ite ?_ (.pure (by simp))
  exact name.bind fun _ => .pure (by simp)

theorem keywordStmt_traces (hp : p.Trace) (keyword : Keyword) : Traces [] (keywordStmt p keyword) := by
  have hreturn : Traces [] (returnStmt p) := by
    refine consume.bind fun here => (orM (isAt _) (isAt _)).step fun _ => .ite (.pure (by simp)) ?_
    exact (exprs_traces hp).bind fun _ => .pure (by simp)
  have hdeclaration : ∀ k, Traces [] (do
      let here ← Parse.current
      return .declaration here.loc (← declGroup p k) : Parse Stmt) := by
    intro k
    exact current.bind fun here => (declGroup_traces hp k).bind fun _ => .pure (by simp)
  unfold keywordStmt
  split
  · exact hdeclaration _
  · exact hdeclaration _
  · exact hdeclaration _
  · exact consume.bind fun here => (expr_traces hp 0).bind fun _ => .pure (by simp)
  · exact consume.bind fun here => (expr_traces hp 0).bind fun _ => .pure (by simp)
  · exact hreturn
  · exact branchStmt_traces _
  · exact branchStmt_traces _
  · exact branchStmt_traces _
  · exact consume.bind fun here => .pure (by simp)
  · exact ifStmt_traces hp
  · exact switchStmt_traces hp
  · exact selectStmt_traces hp
  · exact forStmt_traces hp
  · exact simpleStmt_traces hp _ _
  · exact simpleStmt_traces hp _ _
  · exact simpleStmt_traces hp _ _
  · exact simpleStmt_traces hp _ _
  · exact simpleStmt_traces hp _ _
  · exact badStmt_traces

theorem stmt_traces (hp : p.Trace) : Traces [] (stmt p) := by
  refine current.bind fun here => ?_
  split
  · exact (keywordStmt_traces hp _).among
  · exact ((block_traces hp).map fun _ => by simp).among
  · exact .pure (by simp)
  · exact .pure (by simp)
  · exact .ite (simpleStmt_traces hp _ _).among badStmt_traces.among

end GoSyntax.Grammar

/-! ## Files -/

namespace GoSyntax

open Traces

theorem Productions.trace_exhausted : exhausted.Trace := by
  have hmissing : Traces [] missingOperand := current.bind fun here => (reportHere _).step fun _ => .pure (by simp)
  exact ⟨.pure (by simp), fun _ => hmissing, fun _ => hmissing, fun _ => hmissing,
    current.bind fun here => (reportExpected _).step fun _ => .pure (by simp)⟩

theorem Productions.Trace.deepen {p : Productions} (hp : p.Trace) : p.deepen.Trace :=
  ⟨Grammar.type?_traces hp false, Grammar.expr_traces hp, Grammar.unary_traces hp, Grammar.elementValue_traces hp, Grammar.stmt_traces hp⟩

theorem Productions.trace_ofDepth (depth : Nat) : (ofDepth depth).Trace := by
  induction depth with
  | zero => exact trace_exhausted
  | succ depth ih => exact ih.deepen

namespace Grammar

variable {p : Productions}

theorem declEnd_traces {given : List Location} (quiet : Bool) : Traces given (declEnd quiet) := by
  refine (accept _).step fun _ => .ite (.pure (by simp)) ?_
  exact Traces.step (.ite (.pure (by simp)) (reportExpected _)) fun _ => skipTo _

theorem funcDecl_traces (hp : p.Trace) : Traces [] (funcDecl p) := by
  have hreceiver : Traces [] (receiver? p) :=
    (isAt _).step fun _ => .ite ((parameters_traces hp false).map fun _ => by simp) (.pure (by simp))
  have hbody : Traces [] (body? p) := (isAt _).step fun _ => .ite ((block_traces hp).map fun _ => by simp) (.pure (by simp))
  refine consume.step fun _ => hreceiver.bind fun _ => name.bind fun _ => (signature_traces hp).bind fun _ => ?_
  exact hbody.bind fun _ => .pure (by simp)

theorem decl_traces (hp : p.Trace) : Traces [] (decl p) := by
  have hbad : Traces [] badDecl := current.bind fun here => (reportHere _).step fun _ => (skipTo _).step fun _ => .pure (by simp)
  refine current.bind fun here => reports.step fun before => ?_
  split
  · exact (funcDecl_traces hp).bind fun _ => reports.step fun _ => (declEnd_traces _).step fun _ => .pure (by simp)
  · refine .ite ?_ hbad.among
    exact (declGroup_traces hp _).bind fun _ => reports.step fun _ => (declEnd_traces _).step fun _ => .pure (by simp)
  · exact hbad.among

theorem packageClause_traces : Traces [] packageClause := by
  refine current.bind fun here => (accept _).step fun _ => .ite ?_ ((reportExpected _).step fun _ => .pure (by simp))
  exact name.among.bindGiven fun _ => (declEnd_traces _).step fun _ => .pure (by simp)

theorem sourceFile_traces (hp : p.Trace) : Traces [] (sourceFile p) := by
  refine current.bind fun here => packageClause_traces.bind fun _ => .bind (.loop (fun decls => ?_) #[]) fun _ => .pure (by simp)
  exact isAtEnd.step fun _ => .ite (.pure (by simp)) ((decl_traces hp).bind fun _ => .pure (by simp))

end Grammar

/-- The tree of a file goes along its tokens, and what is reported has been met by the scan or stands where a token does. -/
theorem parseFile_traced (path : SourcePath) (bytes : List UInt8) :
    Along (parseFile path bytes).tree.locations ((tokenize path bytes).1.map Token.loc)
      ∧ ∀ d ∈ (parseFile path bytes).diagnostics, d ∈ (tokenize path bytes).2 ∨ d.loc ∈ (tokenize path bytes).1.map Token.loc := by
  obtain ⟨-, horder, hreports⟩ := Grammar.sourceFile_traces (Productions.trace_ofDepth _) (.start path bytes)
  refine ⟨Along.trans ?_ horder, fun d hd => hreports d (List.mem_append_left _ hd)⟩
  exact .of_sublist (List.sublist_append_left _ _)

/-- Whatever a source holds, the lines of its tokens never go back along the stream, and those of the nodes of its tree never go back in a
walk from the root down and from left to right. Every token, every node and everything that is reported stands in the source: its location
has the path of the source, and a line between 1 and 1 and the number of line feeds. -/
theorem locations_ordered_inRange (path : SourcePath) (bytes : List UInt8) :
    let tokens := (tokenize path bytes).1.map Token.loc
    let nodes := (parseFile path bytes).tree.locations
    let reports := ((tokenize path bytes).2 ++ (parseFile path bytes).diagnostics).map Diagnostic.loc
    (tokens.Pairwise fun a b => a.line ≤ b.line)
      ∧ (nodes.Pairwise fun a b => a.line ≤ b.line)
      ∧ ∀ loc ∈ tokens ++ nodes ++ reports, loc.path = path ∧ 1 ≤ loc.line ∧ loc.line ≤ 1 + bytes.count 10 := by
  obtain ⟨halong, hreports⟩ := parseFile_traced path bytes
  have htokens := pairwise_line_tokens path bytes
  have hwithin : ∀ loc ∈ (tokenize path bytes).1.map Token.loc ++ (parseFile path bytes).tree.locations
      ++ ((tokenize path bytes).2 ++ (parseFile path bytes).diagnostics).map Diagnostic.loc, loc.IsLineOf path bytes := by
    intro loc hloc
    rw [List.mem_append, List.mem_append] at hloc
    rcases hloc with (hloc | hloc) | hloc
    · exact isLineOf_token path bytes loc hloc
    · exact isLineOf_token path bytes loc (halong.subset hloc)
    · obtain ⟨d, hd, rfl⟩ := List.mem_map.1 hloc
      rcases List.mem_append.1 hd with hd | hd
      · exact isLineOf_lexical path bytes d hd
      · rcases hreports d hd with hd | hd
        · exact isLineOf_lexical path bytes d hd
        · exact isLineOf_token path bytes d.loc hd
  refine ⟨htokens, halong.pairwise (fun a => Nat.le_refl a.line) htokens, fun loc hloc => ?_⟩
  obtain ⟨hpath, hfirst, hlast⟩ := hwithin loc hloc
  exact ⟨hpath, hfirst, hlast⟩

end GoSyntax
