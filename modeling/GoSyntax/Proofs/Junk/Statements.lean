import GoSyntax.Proofs.Junk.Expressions

/-!
# Statements with junk in them

Junk in front of the first clause of a switch or a select is skipped up to that clause. Elsewhere it does not stand in front of a clause,
since no `;` stands there.
-/

namespace GoSyntax.Grammar

open Grafts Productions

variable {S : Site} {p : Productions}

/-! ## Simple statements -/

theorem checkAtMost_grafts (limit : Nat) (context : String) (found : Nat) (loc : Location) :
    Grafted S (checkAtMost limit context found loc) (fun _ => checkAtMost limit context found loc) := reportUnless _ _ _

theorem checkAssignment_grafts (op : Operator) (targets values : Nat) (loc : Location) :
    Grafted S (checkAssignment op targets values loc) (fun _ => checkAssignment op targets values loc) := by
  unfold checkAssignment
  split
  · exact report _ _
  · exact .pure fun _ => rfl

theorem assignment_grafts (h : p.Grafting S) (level : Int) (op : Operator) (targets : List Expr) (loc : Location) :
    Grafted S (assignment p level op targets loc) (fun E => assignment full level op (edited E targets) loc) := by
  refine (exprList_grafts h level).bind fun (value, values) => ?_
  dsimp only [edited_pair]
  simp only [length_edited]
  exact (checkAssignment_grafts _ _ _ _).bind fun _ => .pure fun _ => by simp

theorem rangeClause_grafts (h : p.Grafting S) (level : Int) (vars : List Expr) (define : Bool) (loc : Location) :
    Grafted S (rangeClause p level vars define loc) (fun E => rangeClause full level (edited E vars) define loc) := by
  simp only [rangeClause, length_edited]
  exact (expr_grafts h level).bind fun _ => (checkAtMost_grafts _ _ _ _).bind fun _ => .pure fun _ => rfl

theorem assignmentOrRange_grafts (h : p.Grafting S) (position : SimplePosition) (level : Int) (op : Operator)
    (targets : List Expr) (loc : Location) : Grafted S (assignmentOrRange p position level op targets loc)
      (fun E => assignmentOrRange full position level op (edited E targets) loc) :=
  consume.bind fun _ => (andM (.pure fun _ => rfl) (accept _)).bind fun _ => .ite
    (rangeClause_grafts h level targets _ loc) ((assignment_grafts h level op targets loc).map fun _ _ => rfl)

theorem send_grafts (h : p.Grafting S) (level : Int) (channel : Expr) (others : List Expr) (loc : Location) :
    Grafted S (send p level channel others loc)
      (fun E => send full level (edited E channel) (edited E others) loc) := by
  simp only [send, length_edited]
  exact consume.bind fun _ => (checkAtMost_grafts _ _ _ _).bind fun _ => (expr_grafts h level).bind fun _ => .pure fun _ => rfl

theorem incDec_grafts (op : Operator) (operand : Expr) (others : List Expr) (loc : Location) :
    Grafted S (incDec op operand others loc)
      (fun E => incDec op (edited E operand) (edited E others) loc) := by
  simp only [incDec, length_edited]
  exact consume.bind fun _ => (checkAtMost_grafts _ _ _ _).bind fun _ => .pure fun _ => rfl

theorem labeled_grafts (h : p.Grafting S) (label : Name) (loc : Location) :
    Grafted S (labeled p label loc) (fun E => labeled full (edited E label) loc) :=
  consume.bind fun _ => (isAt _).bind fun _ => .ite (current.bind fun _ => .pure fun _ => rfl) (h.stmt.bind fun _ => .pure fun _ => rfl)

theorem alone_grafts (first : Expr) (others : List Expr) (loc : Location) :
    Grafted S (alone first others loc) (fun E => alone (edited E first) (edited E others) loc) := by
  simp only [alone, isEmpty_edited]
  exact .ite (.pure fun _ => rfl) ((reportExpected _).bind fun _ => .pure fun _ => rfl)

theorem bare_grafts (h : p.Grafting S) (position : SimplePosition) (first : Expr) (others : List Expr) (loc : Location) :
    Grafted S (bare p position first others loc)
      (fun E => bare full position (edited E first) (edited E others) loc) := by
  have halone := alone_grafts (S := S) first others loc
  cases position with
  | block =>
    cases first with
    | ident labelLoc label =>
      cases others with
      | nil => exact (isAt _).bind fun _ => .ite (labeled_grafts h ⟨labelLoc, label⟩ loc) halone
      | cons => exact halone
    | _ => exact halone
  | _ => exact halone

theorem simpleBy_grafts (h : p.Grafting S) (position : SimplePosition) (level : Int) (op : Operator) (first : Expr)
    (others : List Expr) (loc : Location) : Grafted S (simpleBy p position level op first others loc)
      (fun E => simpleBy full position level op (edited E first) (edited E others) loc) := by
  unfold simpleBy
  split
  · exact (incDec_grafts op first others loc).map fun _ _ => rfl
  · exact assignmentOrRange_grafts h position level op (first :: others) loc
  · exact (bare_grafts h position first others loc).map fun _ _ => rfl

theorem simpleFrom_grafts (h : p.Grafting S) (position : SimplePosition) (level : Int) (first : Expr) (others : List Expr)
    (loc : Location) : Grafted S (simpleFrom p position level first others loc)
      (fun E => simpleFrom full position level (edited E first) (edited E others) loc) := by
  refine current.bind fun here => ?_
  obtain ⟨kind, _⟩ := here
  dsimp only [edited_token]
  split
  · exact (send_grafts h level first others loc).map fun _ _ => rfl
  · exact simpleBy_grafts h position level _ first others loc
  · exact (bare_grafts h position first others loc).map fun _ _ => rfl

theorem simple_grafts (h : p.Grafting S) (position : SimplePosition) (level : Int) :
    Grafted S (simple p position level) (fun _ => simple full position level) :=
  current.bind fun here => (exprList_grafts h level).bind fun (first, others) => simpleFrom_grafts h position level first others here.loc

theorem simpleStmt_grafts (h : p.Grafting S) (position : SimplePosition) (level : Int) :
    Grafted S (simpleStmt p position level) (fun _ => simpleStmt full position level) := by
  refine current.bind fun _ => (simple_grafts h position level).bind fun s => ?_
  cases s with
  | stmt s => exact .pure fun _ => rfl
  | range vars define operand => exact .pure fun _ => rfl

/-! ## Control statements -/

theorem headerExpr_grafts (what : String) (s : Stmt) : Grafted S (headerExpr what s) (fun E => headerExpr what (edited E s)) := by
  have hother : Grafted S (do Parse.report (.expectedToken what "simple statement") s.loc; return Expr.bad s.loc) fun E => (do
        Parse.report (.expectedToken what "simple statement") (edited E s).loc
        return Expr.bad (edited E s).loc) :=
    (report _ _).bind fun _ => .pure fun E => by rw [Stmt.loc_edited]; rfl
  cases s with
  | expr loc e => exact .pure fun _ => rfl
  | block body => cases body; exact hother
  | _ => exact hother

theorem headerStmtBefore?_grafts (h : p.Grafting S) (stop : TokenKind) :
    Grafted S (headerStmtBefore? p stop) (fun _ => headerStmtBefore? full stop) :=
  (isAt _).bind fun _ => .ite (.pure fun _ => rfl) ((simpleStmt_grafts h _ _).map fun _ _ => rfl)

theorem header_grafts (h : p.Grafting S) : Grafted S (header p) (fun _ => header full) :=
  (headerStmtBefore?_grafts h _).bind fun _ => (accept _).bind fun _ => .ite
    ((headerStmtBefore?_grafts h _).bind fun _ => .pure fun _ => rfl) (.pure fun _ => rfl)

theorem missingCondition_grafts : Grafted S missingCondition (fun _ => missingCondition) :=
  current.bind fun _ => (reportExpected _).bind fun _ => .pure fun _ => rfl

theorem ifHeader_grafts (h : p.Grafting S) : Grafted S (ifHeader p) (fun _ => ifHeader full) := by
  refine (isAt _).bind fun _ => .ite (missingCondition_grafts.bind fun _ => .pure fun _ => rfl)
    ((header_grafts h).bind fun (init, cond) => ?_)
  cases cond with
  | some s => exact (headerExpr_grafts _ s).bind fun _ => .pure fun _ => rfl
  | none => exact missingCondition_grafts.bind fun _ => .pure fun _ => rfl

theorem otherwise_grafts (h : p.Grafting S) : Grafted S (otherwise p) (fun _ => otherwise full) :=
  (isAt _).bind fun _ => .ite h.stmt ((isAt _).bind fun _ => .ite ((block_grafts h).map fun _ _ => rfl)
    (current.bind fun _ => (reportExpected _).bind fun _ => .pure fun _ => rfl))

theorem ifStmt_grafts (h : p.Grafting S) : Grafted S (ifStmt p) (fun _ => ifStmt full) :=
  consume.bind fun _ => (ifHeader_grafts h).bind fun (_, _) => (block_grafts h).bind fun _ => (accept _).bind fun _ => .ite
    ((otherwise_grafts h).bind fun _ => .pure fun _ => by simp) (.pure fun _ => by simp)

/-! ## Clauses -/

section Clauses

variable {α : Type} [Editable α] {locOf : α → Location} {new : α} {L : Editing → List α → List α} {clause clause' : Parse α}

/-- How clauses are read: nothing is asked for behind a clause. -/
def clauseForm (locOf : α → Location) : ListForm α (Array α) :=
  ⟨fun kind => kind.sameKind Punctuation.rBrace || kind.sameKind .eof, startsClause, id, Array.push, Pure.pure true, locOf⟩

omit [Editable α] in
theorem clausePass_apply (clause : Parse α) (list : Array α) (c : Cursor) : clausePass clause list c
    = (if (c.here.kind.sameKind Punctuation.rBrace || c.here.kind.sameKind .eof) = true then return .done list
      else if startsClause c.here.kind = true then clause >>= fun a => return .yield (list.push a)
      else skipFrom (Listing.fault .clauses) Recovery.clauseEnd >>= fun _ => return .yield list) (Parse.current c).2 := rfl

theorem skipFrom_log_ne (fault : String → Fault) (stop : TokenSet) (c : Cursor) : (skipFrom fault stop c).2.log ≠ #[] := by
  have hskip : Follows .untilReport (Parse.skipTo stop) (Parse.skipTo stop) := .skipTo _
  exact (Quiet.of_follows hskip).log_ne Array.push_ne_empty

omit [Editable α] in
theorem clausePass_reads (clause : Parse α) : (clauseForm locOf).Reads (fun _ => clause) (clausePass clause) :=
  .of_apply (fun _ => id) fun list c => ⟨fun _ => skipFrom (Listing.fault .clauses) Recovery.clauseEnd >>= fun _ => return .yield list, _,
    clausePass_apply clause list c, fun _ _ _ => skipFrom_log_ne _ _ _, fun _ => skipFrom_log_ne _ _ _⟩

theorem contains_clauseEnd_of_starts {kind : TokenKind} (h : startsClause kind = true) : Recovery.clauseEnd.contains kind = true := by
  rw [startsClause, Bool.or_eq_true] at h
  rcases h with h | h
  · obtain rfl := (TokenKind.Bare.sameKind_iff _).1 h
    rfl
  · obtain rfl := (TokenKind.Bare.sameKind_iff _).1 h
    rfl

omit [Editable α] in
/-- Junk in front of the first clause is skipped up to that clause. -/
theorem clausePass_crosses (hlisting : S.listing = .clauses) (list : Array α) {c : Cursor} (hstarts : startsClause S.next.kind = true)
    (hc : c.feed.values = S.junk ++ S.next :: S.behind) (hreports : S.origin.Reports [] c) :
    ∃ d, clausePass clause' list c = (.yield list, d) ∧ d.feed.values = S.next :: S.behind ∧ S.origin.Reports [S.reported] d := by
  have hhere : c.here = S.first := Cursor.here_of_values hc
  have hstray : S.listing.starts S.first.kind = false := S.stray
  obtain ⟨hskipped, heof⟩ := S.skipped S.first List.mem_cons_self
  have hnone := S.separates
  rw [hlisting] at hstray hskipped hnone
  have hgoesOn : (c.here.kind.sameKind Punctuation.rBrace || c.here.kind.sameKind .eof) = false := by
    rw [hhere, Bool.eq_false_iff, Ne, Bool.or_eq_true]
    rintro (hkind | hkind)
    · rw [(TokenKind.Bare.sameKind_iff _).1 hkind] at hskipped
      exact absurd hskipped (by decide)
    · exact heof ((TokenKind.Bare.sameKind_iff _).1 hkind)
  have hlooked : (Parse.current c).2.feed.values = S.junk ++ S.next :: S.behind := (Feed.values_look c.feed 1).trans hc
  obtain ⟨hvalues, hskip⟩ := skipFrom_junk hlooked (hreports.trans (Cursor.reports_current hreports.lexical))
    (by rw [List.map_eq_nil_iff.1 hnone]; rfl) (by rw [hlisting]; exact contains_clauseEnd_of_starts hstarts)
  rw [hlisting] at hvalues hskip
  refine ⟨_, ?_, hvalues, hskip⟩
  have hother : ¬startsClause S.first.kind = true := fun hkind => Bool.false_ne_true (hstray.symm.trans hkind)
  rw [clausePass_apply, hgoesOn, if_neg Bool.false_ne_true, hhere, if_neg hother]
  rfl

/-- Clauses in braces, with junk in front of the first one or in one of them. -/
theorem clauses_grafts (hinserts : S.InsertsFirst locOf new L) (hloc : ∀ E m, locOf (edited E m) = locOf m)
    (hends : Parse.Ends (clausePass clause')) (hstrides : FollowsAt.Strides .untilReport (clausePass clause))
    (hclause : Grafted S clause (fun _ => clause')) (hclauseLoc : ∀ c, locOf (clause c).1 = c.here.loc) :
    Grafts S (fun _ => True) (fun E list => L E (edited E list)) (clauses clause) (fun _ => clauses clause') := by
  have hlaws : ListLaws S (clauseForm locOf) (inList L) (fun list => S.listing ≠ .clauses ∨ list ≠ #[]) (fun _ => clause) (fun _ => clause')
      (clausePass clause) (clausePass clause') (fun _ => True) := by
    refine ⟨hends, hstrides, clausePass_reads clause, clausePass_reads clause', fun _ => hclause.weaken fun _ _ => trivial, S.leadsTo_pure,
      fun list a d _ => .inr (.inr (.inr (Array.push_ne_empty))), fun _ c _ _ => hclauseLoc c, fun _ _ _ => rfl,
      fun E hE list a hplain => ?_,
      fun list c hfirst _ hstarts hc hreports => ?_⟩
    · refine hinserts.push hE list a ?_
      rw [hloc]
      exact or_assoc.1 hplain
    · obtain ⟨hlisting, hempty⟩ := not_or.1 hfirst
      obtain ⟨d, hpass, hvalues, hskip⟩ : ∃ d, clausePass clause' (inList L S.change list) c = (.yield (inList L S.change list), d)
          ∧ d.feed.values = S.next :: S.behind ∧ S.origin.Reports [S.reported] d :=
        clausePass_crosses (not_not.1 hlisting) _ hstarts hc hreports
      refine ⟨_, congrArg Prod.fst hpass, by rw [hpass]; exact hvalues, by rw [hpass]; exact hskip, rfl, fun a _ => ?_⟩
      exact (inList_push_of_id hinserts.change list a).symm
  have hloop : Enters S (inList L) (Parse.loop #[] (clausePass clause)) (fun _ => Parse.loop #[] (clausePass clause')) :=
    (hlaws.laws.enters #[]).congr fun E hE => by rw [hinserts.nil hE]
  exact expectOpening _ fun _ => hloop.bind fun list => (expect _).bind fun _ => .pure fun _ => rfl

theorem clauseLabel?_grafts (here : Token) {label label' : Parse α} (h : Grafted S label (fun _ => label')) :
    Grafted S (clauseLabel? here label) (fun _ => clauseLabel? here label') :=
  .ite (h.map fun _ _ => rfl) (.pure fun _ => rfl)

end Clauses

theorem exprs_grafts (h : p.Grafting S) : Grafted S (exprs p) (fun _ => exprs full) :=
  (exprList_grafts h 0).bind fun (_, _) => .pure fun _ => rfl

theorem caseClause_grafts (h : p.Grafting S) (ofTypes : Bool) : Grafted S (caseClause p ofTypes) (fun _ => caseClause full ofTypes) := by
  have hstrides := strides_of_follows loopsEnd_full.types (FollowsAt.separatedPass (type_follows h.clean))
  have htypes : Grafted S (types p) (fun _ => types full) :=
    (separated loopsEnd_full.types hstrides (type_grafts h)).bind fun (_, _) => .pure fun _ => rfl
  have hlist : Grafted S (caseList p ofTypes) (fun _ => caseList full ofTypes) := .ite htypes (exprs_grafts h)
  exact consume.bind fun here => (clauseLabel?_grafts here hlist).bind fun _ => expectOpening _ fun _ =>
    (statements_enters h).bind fun _ => .pure fun _ => by simp

theorem switchStmt_grafts (h : p.Grafting S) : Grafted S (switchStmt p) (fun _ => switchStmt full) := by
  have hheader : Grafted S (switchHeader p) (fun _ => switchHeader full) :=
    (isAt _).bind fun _ => .ite (.pure fun _ => rfl) (header_grafts h)
  have hclauses : ∀ ofTypes, Grafts S (fun _ => True) (fun E list => E.cases (edited E list)) (clauses (caseClause p ofTypes))
      (fun _ => clauses (caseClause full ofTypes)) := fun ofTypes =>
    clauses_grafts S.insertsFirst_cases (fun _ a => by cases a; rfl) (loopsEnd_full.cases ofTypes)
      (strides_of_follows (loopsEnd_full.cases ofTypes) (clausePass_follows (caseClause_follows h.clean ofTypes)))
        (caseClause_grafts h ofTypes)
      (caseClause_startsHere p ofTypes)
  refine consume.bind fun here => hheader.bind fun (init, tag) => ?_
  cases tag with
  | none => exact (hclauses false).bind fun _ => .pure fun _ => by simp
  | some s =>
    dsimp only [edited_pair, edited_some]
    simp only [isTypeSwitchGuard_edited]
    exact .ite ((hclauses true).bind fun _ => .pure fun _ => by simp)
      ((hclauses false).bind fun _ => (headerExpr_grafts _ s).bind fun _ => .pure fun _ => by simp)

theorem receive_grafts (first : Expr) (others : List Expr) (loc : Location) :
    Grafted S (receive first others loc) (fun E => receive (edited E first) (edited E others) loc) := by
  simp only [receive, length_edited]
  exact (checkAtMost_grafts _ _ _ _).bind fun _ => .pure fun _ => rfl

theorem receiveInto_grafts (h : p.Grafting S) (op : Operator) (targets : List Expr) (loc : Location) :
    Grafted S (receiveInto p op targets loc) (fun E => receiveInto full op (edited E targets) loc) := by
  simp only [receiveInto, length_edited]
  exact consume.bind fun _ => (checkAtMost_grafts _ _ _ _).bind fun _ => (expr_grafts h 0).bind fun _ => .pure fun _ => by simp

theorem communication_grafts (h : p.Grafting S) : Grafted S (communication p) (fun _ => communication full) := by
  refine current.bind fun start => (exprList_grafts h 0).bind fun (first, others) => current.bind fun here => ?_
  obtain ⟨kind, _⟩ := here
  dsimp only [edited_pair, edited_token]
  split
  · exact send_grafts h 0 first others _
  · exact .ite (receiveInto_grafts h _ (first :: others) _) (receive_grafts first others _)
  · exact receive_grafts first others _

theorem commClause_grafts (h : p.Grafting S) : Grafted S (commClause p) (fun _ => commClause full) :=
  consume.bind fun here => (clauseLabel?_grafts here (communication_grafts h)).bind fun _ => expectOpening _ fun _ =>
    (statements_enters h).bind fun _ => .pure fun _ => by simp

theorem selectStmt_grafts (h : p.Grafting S) : Grafted S (selectStmt p) (fun _ => selectStmt full) :=
  consume.bind fun _ => (clauses_grafts S.insertsFirst_comms (fun _ a => by cases a; rfl) loopsEnd_full.comms
    (strides_of_follows loopsEnd_full.comms (clausePass_follows (commClause_follows h.clean))) (commClause_grafts h)
    (commClause_startsHere p)).bind fun _ => .pure fun _ => by simp

theorem loopClauses_grafts (h : p.Grafting S) (init : Option Stmt) :
    Grafted S (loopClauses p init) (fun E => loopClauses full (edited E init)) :=
  consume.bind fun _ => (headerStmtBefore?_grafts h _).bind fun _ => (expect _).bind fun _ =>
    (headerStmtBefore?_grafts h _).bind fun _ => .pure fun _ => rfl

theorem loopHeader_grafts (h : p.Grafting S) : Grafted S (loopHeader p) (fun _ => loopHeader full) := by
  have hfrom : Grafted S (loopHeaderFrom p) (fun _ => loopHeaderFrom full) := by
    refine (simple_grafts h .loopHeader (-1)).bind fun s => ?_
    cases s with
    | range vars define operand => exact .pure fun _ => rfl
    | stmt s => exact (isAt _).bind fun _ => .ite (loopClauses_grafts h (some s)) (.pure fun _ => rfl)
  exact (isAt _).bind fun _ => .ite (.pure fun _ => rfl) ((accept _).bind fun _ => .ite
    ((expr_grafts h (-1)).bind fun _ => .pure fun _ => rfl)
    ((isAt _).bind fun _ => .ite (loopClauses_grafts h none) hfrom))

theorem forStmt_grafts (h : p.Grafting S) : Grafted S (forStmt p) (fun _ => forStmt full) := by
  refine consume.bind fun _ => (loopHeader_grafts h).bind fun head => (block_grafts h).bind fun body => ?_
  match head with
  | .range vars define operand =>
    refine .pure fun E => ?_
    rw [getElem?_edited, getElem?_edited, Stmt.edited_range]
    rfl
  | .clauses init none post => exact .pure fun _ => by simp
  | .clauses init (some cond) post => exact (headerExpr_grafts _ cond).bind fun _ => .pure fun _ => by simp


end GoSyntax.Grammar
