import GoSyntax.Grammar.Statement
import GoSyntax.Proofs.Rules.Expressions
import GoSyntax.Proofs.Steps

/-!
# Statements keep the rules

A simple statement is read as a list of expressions before it shows what it is, so the numbers of targets and values are checked when both
are there. Of a header only an expression is used, and whether it is the guard of a type switch has been asked before. A group of constants
is grown one specification at a time; each must have values if it is typed or no other stands before it.
-/

namespace GoSyntax.Grammar

open Assures

variable {p : Productions}

/-! ## Specifications -/

/-- A specification that keeps the rules and, as a constant that is typed or the first of its declaration, has values. -/
def Given (keyword : Keyword) (isFirst : Bool) (s : Spec) : Prop :=
  KeepRules s.nodes ∧ (keyword = .const → isFirst = true ∨ s.isTyped = true → s.values ≠ [])

theorem specValues_assures (hp : p.Assured) (required : Bool) : Assures
    (fun values => (∀ e ∈ values, e.Sound .plain) ∧ (required = true → values ≠ [])) (specValues p required) := by
  have hmissing : Assures (fun _ => required = false) (missingValues required) := by
    cases required with
    | true => exact (reportExpected _).weaken fun _ h => h.elim
    | false => exact .pure rfl
  refine (accept _).step fun _ => .ite ?_ ?_
  · refine (exprList_assures hp 0).bind fun (value, values) => .pure ?_
    rintro ⟨hvalue, hvalues⟩
    exact ⟨by simpa using ⟨hvalue, hvalues⟩, fun _ => List.cons_ne_nil _ _⟩
  · refine hmissing.bind fun _ => .pure ?_
    intro hoptional
    simp [hoptional]

theorem valueSpec_assures (hp : p.Assured) (keyword : Keyword) (isFirst : Bool) (loc : Location) :
    Assures (Given keyword isFirst) (valueSpec p keyword isFirst loc) := by
  refine names.step fun list => hp.type?.bind fun t => (specValues_assures hp _).bind fun values => .pure ?_
  rintro ⟨hvalues, hrequired⟩ ht
  refine ⟨Spec.keepRules_value.2 ⟨ht, hvalues⟩, fun hconst hdue => hrequired ?_⟩
  cases t with
  | none => simpa [hconst, Spec.isTyped] using hdue
  | some t => simp [hconst]

theorem importSpec_assures : Assures (fun _ => True) importSpec := by
  have hname : Assures (fun _ => True) importName? := by
    refine current.step fun here => .ite (consume.step fun _ => .pure trivial) (.ite ?_ (.pure trivial))
    exact name.map fun _ _ => trivial
  have hpath : Assures (fun _ => True) importPath := by
    refine stringLiteral?.step fun path => ?_
    cases path with
    | some path => exact .pure trivial
    | none => exact current.step fun _ => (reportExpected _).step fun _ => .pure trivial
  exact hname.step fun _ => hpath.step fun _ => .pure trivial

theorem spec_assures (hp : p.Assured) (keyword : Keyword) (isFirst : Bool) :
    Assures (Given keyword isFirst) (spec p keyword isFirst) := by
  refine current.step fun here => ?_
  split
  · refine importSpec_assures.step fun spec => .pure ⟨Spec.keepRules_import, ?_⟩
    intro hconst
    nomatch hconst
  · refine name.step fun name => (type_assures hp).bind fun t => .pure ?_
    intro ht
    refine ⟨Spec.keepRules_type.2 ht, ?_⟩
    intro hconst
    nomatch hconst
  · exact valueSpec_assures hp keyword isFirst here.loc

/-- One more specification keeps a declaration sound. -/
theorem sound_concat {keyword : Keyword} {specs : List Spec} {s : Spec} {grouped : Bool}
    (hspecs : (⟨keyword, specs, grouped⟩ : DeclGroup).Sound) (hs : Given keyword specs.isEmpty s) :
    (⟨keyword, specs ++ [s], grouped⟩ : DeclGroup).Sound := by
  obtain ⟨hkeep, hcoheres⟩ := hspecs
  obtain ⟨hkeep', hdue⟩ := hs
  constructor
  · intro t ht
    rcases List.mem_append.1 ht with ht | ht
    · exact hkeep t ht
    · obtain rfl := List.mem_singleton.1 ht
      exact hkeep'
  · intro hconst
    obtain ⟨hfirst, htyped⟩ := hcoheres hconst
    constructor
    · cases specs with
      | nil => simpa using hdue hconst (.inl rfl)
      | cons t specs => simpa using hfirst
    · intro t ht
      rcases List.mem_append.1 ht with ht | ht
      · exact htyped t ht
      · obtain rfl := List.mem_singleton.1 ht
        exact fun h => hdue hconst (.inr h)

theorem sound_nil (keyword : Keyword) (grouped : Bool) : (⟨keyword, [], grouped⟩ : DeclGroup).Sound :=
  ⟨fun _ h => (nomatch h), fun _ => ⟨fun _ h => (nomatch h), fun _ h => (nomatch h)⟩⟩

theorem specGroup_assures (hp : p.Assured) (keyword : Keyword) :
    Assures (fun specs => (⟨keyword, specs, true⟩ : DeclGroup).Sound) (specGroup p keyword) := by
  have hresume : ∀ n (specs : Array Spec), Assures (fun s => s.value.1 = specs) (resumeGroup n specs) := by
    intro n specs
    have hmissing : Assures (fun _ => True) (reportMissing n Punctuation.rParen) :=
      reports.step fun _ => .ite ((reportExpected _).weaken fun _ _ => trivial) (.pure trivial)
    exact hmissing.step fun _ => (skipTo _).step fun _ => (orM (accept _) (isAt _)).step fun _ => .ite (.pure rfl) (.pure rfl)
  have hpass : ∀ group : Array Spec × Bool, Assures (fun s => (⟨keyword, group.1.toList, true⟩ : DeclGroup).Sound →
      (⟨keyword, s.value.1.toList, true⟩ : DeclGroup).Sound) (specPass p keyword group) := by
    rintro ⟨specs, closes⟩
    have hskip : ∀ n, Assures (fun s => (⟨keyword, specs.toList, true⟩ : DeclGroup).Sound →
        (⟨keyword, s.value.1.toList, true⟩ : DeclGroup).Sound) (resumeGroup n specs) := fun n =>
      (hresume n specs).weaken fun s hs hspecs => hs ▸ hspecs
    refine current.step fun here => .ite (.pure id) (reports.step fun n => .ite ?_ (hskip n))
    refine (spec_assures hp keyword specs.isEmpty).bind fun s => ?_
    have hpush : Given keyword specs.isEmpty s → (⟨keyword, specs.toList, true⟩ : DeclGroup).Sound →
        (⟨keyword, (specs.push s).toList, true⟩ : DeclGroup).Sound := by
      intro hs hspecs
      rw [Array.toList_push]
      exact sound_concat hspecs (by simpa using hs)
    refine (orM (isAt _) (accept _)).step fun _ => .ite (.pure hpush) ((hresume n _).weaken fun r hr hs hspecs => ?_)
    rw [hr]
    exact hpush hs hspecs
  have hclose : ∀ closes, Assures (fun _ => True) (closeGroup closes) := fun closes =>
    .ite ((expect _).step fun _ => .pure trivial) (.pure trivial)
  refine (loop (fun _ => id) hpass (#[], true)).bind fun (specs, closes) => (hclose closes).step fun _ => .pure ?_
  intro hspecs
  exact hspecs (sound_nil keyword true)

theorem declGroup_assures (hp : p.Assured) (keyword : Keyword) : Assures DeclGroup.Sound (declGroup p keyword) := by
  refine consume.step fun _ => (accept _).step fun _ => .ite ?_ ?_
  · exact (specGroup_assures hp keyword).bind fun specs => .pure id
  · refine (spec_assures hp keyword true).bind fun s => .pure ?_
    intro hs
    have hnil : (⟨keyword, [], false⟩ : DeclGroup).Sound := sound_nil keyword false
    exact sound_concat hnil hs

/-! ## Simple statements -/

/-- What a simple statement turns out to be keeps the rules. -/
def Simple.Sound : Simple → Prop
  | .stmt s => KeepRules s.nodes
  | .range vars define operand => (∀ e ∈ vars, e.Sound .plain) ∧ operand.Sound .plain ∧ (define = true → vars ≠ [])

/-- The numbers of targets and values go together, or they are reported. -/
theorem checkAssignment_assures (op : Operator) (left right : List Expr) (loc at_ : Location) (hright : right ≠ []) : Assures
    (fun _ => (Stmt.assign loc op left right).Coheres) (checkAssignment op left.length right.length at_) := by
  unfold checkAssignment
  split
  · exact (report _ _).weaken fun _ h => h.elim
  · next hfault =>
    refine .pure ?_
    have hpos : 0 < right.length := List.length_pos_iff.2 hright
    change if op = .assign ∨ op = .define then _ else _
    unfold assignmentFault? at hfault
    grind

theorem assignment_assures (hp : p.Assured) (level : Int) (op : Operator) (targets : List Expr) (loc : Location) : Assures
    (fun s => (∀ e ∈ targets, e.Sound .plain) → KeepRules s.nodes) (assignment p level op targets loc) := by
  refine (exprList_assures hp level).bind fun (value, values) => ?_
  refine (checkAssignment_assures op targets (value :: values) loc loc (List.cons_ne_nil _ _)).bind fun _ => .pure ?_
  rintro hcoheres ⟨hvalue, hvalues⟩ htargets
  exact Stmt.keepRules_assign.2 ⟨⟨htargets, by simpa using ⟨hvalue, hvalues⟩⟩, hcoheres⟩

theorem rangeClause_assures (hp : p.Assured) (level : Int) (vars : List Expr) (define : Bool) (loc : Location) : Assures
    (fun s => vars ≠ [] → (∀ e ∈ vars, e.Sound .plain) → s.Sound) (rangeClause p level vars define loc) := by
  refine (expr_assures hp level).bind fun operand => (reportUnless _ _ _).step fun _ => .pure ?_
  intro hoperand hne hvars
  exact ⟨hvars, hoperand, fun _ => hne⟩

theorem assignmentOrRange_assures (hp : p.Assured) (position : SimplePosition) (level : Int) (op : Operator)
    (targets : List Expr) (loc : Location) : Assures (fun s => targets ≠ [] → (∀ e ∈ targets, e.Sound .plain) → s.Sound)
      (assignmentOrRange p position level op targets loc) := by
  refine consume.step fun _ => (andM (.pure trivial) (accept _)).step fun _ => .ite ?_ ?_
  · exact rangeClause_assures hp level targets _ loc
  · exact (assignment_assures hp level op targets loc).map fun s hs _ htargets => hs htargets

theorem send_assures (hp : p.Assured) (level : Int) (channel : Expr) (others : List Expr) (loc : Location) :
    Assures (fun s => channel.Sound .plain → KeepRules s.nodes) (send p level channel others loc) := by
  refine consume.step fun _ => (reportUnless _ _ _).step fun _ => (expr_assures hp level).bind fun value => .pure ?_
  intro hvalue hchannel
  exact Stmt.keepRules_send.2 ⟨hchannel, hvalue⟩

theorem incDec_assures (op : Operator) (operand : Expr) (others : List Expr) (loc : Location) :
    Assures (fun s => operand.Sound .plain → KeepRules s.nodes) (incDec op operand others loc) := by
  refine consume.step fun _ => (reportUnless _ _ _).step fun _ => .pure ?_
  intro hoperand
  exact Stmt.keepRules_incDec.2 hoperand

theorem labeled_assures (hp : p.Assured) (label : Name) (loc : Location) :
    Assures (fun s : Stmt => KeepRules s.nodes) (labeled p label loc) := by
  refine consume.step fun _ => (isAt _).step fun _ => .ite ?_ (hp.stmt.bind fun s => .pure ?_)
  · exact current.step fun here => .pure (Stmt.keepRules_labeled.2 Stmt.keepRules_empty)
  · intro hs
    exact Stmt.keepRules_labeled.2 hs

theorem alone_assures (first : Expr) (others : List Expr) (loc : Location) :
    Assures (fun s => first.Sound .plain → KeepRules s.nodes) (alone first others loc) :=
  .ite (.pure Stmt.keepRules_expr.2) ((reportExpected _).step fun _ => .pure Stmt.keepRules_expr.2)

theorem bare_assures (hp : p.Assured) (position : SimplePosition) (first : Expr) (others : List Expr) (loc : Location) :
    Assures (fun s => first.Sound .plain → KeepRules s.nodes) (bare p position first others loc) := by
  unfold bare
  split
  · refine (isAt _).step fun _ => .ite ?_ (alone_assures _ _ _)
    exact (labeled_assures hp _ loc).weaken fun s hs _ => hs
  · exact alone_assures _ _ _

theorem simpleBy_assures (hp : p.Assured) (position : SimplePosition) (level : Int) (op : Operator) (first : Expr)
    (others : List Expr) (loc : Location) : Assures
      (fun s => first.Sound .plain → (∀ e ∈ others, e.Sound .plain) → s.Sound) (simpleBy p position level op first others loc) := by
  unfold simpleBy
  split
  · exact (incDec_assures op first others loc).map fun s hs hfirst _ => hs hfirst
  · refine (assignmentOrRange_assures hp position level op (first :: others) loc).weaken fun s hs hfirst hothers => ?_
    exact hs (List.cons_ne_nil _ _) (by simpa using ⟨hfirst, hothers⟩)
  · exact (bare_assures hp position first others loc).map fun s hs hfirst _ => hs hfirst

theorem simple_assures (hp : p.Assured) (position : SimplePosition) (level : Int) :
    Assures Simple.Sound (simple p position level) := by
  refine current.step fun start => (exprList_assures hp level).bind fun (first, others) => ?_
  refine Assures.weaken (P := fun s => first.Sound .plain → (∀ e ∈ others, e.Sound .plain) → s.Sound) ?_
    fun s hs hboth => hs hboth.1 hboth.2
  refine current.step fun here => ?_
  split
  · exact (send_assures hp level first others _).map fun s hs hfirst _ => hs hfirst
  · exact simpleBy_assures hp position level _ first others _
  · exact (bare_assures hp position first others _).map fun s hs hfirst _ => hs hfirst

theorem simpleStmt_assures (hp : p.Assured) (position : SimplePosition) (level : Int) :
    Assures (fun s : Stmt => KeepRules s.nodes) (simpleStmt p position level) := by
  refine current.step fun here => (simple_assures hp position level).bind fun s => ?_
  cases s with
  | stmt s => exact .pure id
  | range vars define operand => exact .pure fun _ => Stmt.keepRules_bad

/-! ## Headers -/

/-- Only an expression is used as one. -/
theorem headerExpr_assures (what : String) (s : Stmt) : Assures (fun e => ∃ loc, s = .expr loc e) (headerExpr what s) := by
  unfold headerExpr
  split
  · exact .pure ⟨_, rfl⟩
  · exact (report _ _).bind fun _ => .pure fun h => h.elim

theorem headerStmtBefore?_assures (hp : p.Assured) (stop : TokenKind) :
    Assures (fun s => ∀ t ∈ s, KeepRules t.nodes) (headerStmtBefore? p stop) := by
  refine (isAt _).step fun _ => .ite (.pure ?_) ((simpleStmt_assures hp _ _).map fun s hs => ?_)
  · simp
  · simpa using hs

theorem header_assures (hp : p.Assured) :
    Assures (fun h => (∀ s ∈ h.1, KeepRules s.nodes) ∧ ∀ s ∈ h.2, KeepRules s.nodes) (header p) := by
  refine (headerStmtBefore?_assures hp _).bind fun first => (accept _).step fun _ => .ite ?_ (.pure ?_)
  · refine (headerStmtBefore?_assures hp _).bind fun second => .pure ?_
    intro hsecond hfirst
    exact ⟨hfirst, hsecond⟩
  · intro hfirst
    exact ⟨by simp, hfirst⟩

/-! ## If -/

theorem missingCondition_assures : Assures (Expr.Sound .plain) missingCondition :=
  current.step fun _ => (reportExpected _).step fun _ => .pure Expr.sound_bad

theorem ifHeader_assures (hp : p.Assured) :
    Assures (fun h => (∀ s ∈ h.1, KeepRules s.nodes) ∧ h.2.Sound .plain) (ifHeader p) := by
  refine (isAt _).step fun _ => .ite (missingCondition_assures.bind fun cond => .pure ?_) ?_
  · intro hcond
    exact ⟨by simp, hcond⟩
  · refine (header_assures hp).bind fun (init, cond) => ?_
    cases cond with
    | some s =>
      refine (headerExpr_assures "condition" s).bind fun e => .pure ?_
      rintro ⟨loc, rfl⟩ ⟨hinit, hcond⟩
      exact ⟨hinit, Stmt.keepRules_expr.1 (hcond _ rfl)⟩
    | none =>
      refine missingCondition_assures.bind fun e => .pure ?_
      rintro he ⟨hinit, -⟩
      exact ⟨hinit, he⟩

/-- Behind an `else` stands an `if` or a block. -/
theorem otherwise_assures (hp : p.Assured) : Assures (fun s : Stmt => KeepRules s.nodes ∧ s.IsElse) (otherwise p) := by
  refine ifAt ?_ fun c hif hlog => ?_
  · refine (isAt _).step fun _ => .ite ((block_assures hp).map fun b hb => ?_) ?_
    · exact ⟨Stmt.keepRules_block.2 hb, .inr ⟨b, rfl⟩⟩
    · exact current.step fun _ => (reportExpected _).bind fun _ => .pure fun h => h.elim
  · obtain ⟨hstart, hkeep⟩ := hp.stmt c hlog
    exact ⟨hstart, hkeep, hp.ifStmt c ((TokenKind.Bare.sameKind_iff _).1 hif) hlog⟩

theorem ifStmt_assures (hp : p.Assured) : Assures (fun s : Stmt => KeepRules s.nodes ∧ s.IsElse) (ifStmt p) := by
  refine consume.step fun here => (ifHeader_assures hp).bind fun (init, cond) => (block_assures hp).bind fun body => ?_
  refine (accept _).step fun _ => .ite ((otherwise_assures hp).bind fun s => .pure ?_) (.pure ?_)
  · rintro hs hbody ⟨hinit, hcond⟩
    exact ⟨Stmt.keepRules_if.2 ⟨hinit, hcond, hbody, by simpa using hs⟩, .inl ⟨_, _, _, _, _, rfl⟩⟩
  · rintro hbody ⟨hinit, hcond⟩
    exact ⟨Stmt.keepRules_if.2 ⟨hinit, hcond, hbody, by simp⟩, .inl ⟨_, _, _, _, _, rfl⟩⟩

/-! ## Switch and select -/

theorem isTypeGuard_iff (e : Expr) : isTypeGuard e = true ↔ e.IsTypeGuard := by
  constructor
  · intro h
    unfold isTypeGuard at h
    split at h
    · exact ⟨_, _, rfl⟩
    · nomatch h
  · rintro ⟨loc, y, rfl⟩
    rfl

theorem isTypeGuard_of_isTypeSwitchGuard {s : Stmt} (h : isTypeSwitchGuard s = true) : s.IsTypeGuard := by
  unfold isTypeSwitchGuard at h
  split at h
  · next loc e => exact ⟨loc, e, (isTypeGuard_iff e).1 h, .inl rfl⟩
  · next loc x e => exact ⟨loc, e, (isTypeGuard_iff e).1 h, .inr ⟨x, rfl⟩⟩
  · nomatch h

theorem clauses_assures {α : Type} {P : α → Prop} {clause : Parse α} (h : Assures P clause) :
    Assures (fun list => ∀ a ∈ list, P a) (clauses clause) := by
  have hpass : ∀ list : Array α, Assures (Collecting P list) (clausePass clause list) := by
    intro list
    refine current.step fun here => .ite (.pure id) (.ite (h.bind fun a => .pure (collecting_push rfl)) ?_)
    exact (reportExpected _).step fun _ => (skipTo _).step fun _ => .pure id
  exact (expect _).step fun _ => (collect hpass).bind fun list => (expect _).step fun _ => .pure id

theorem clauseLabel?_assures {α : Type} {P : α → Prop} (here : Token) {label : Parse α} (h : Assures P label) :
    Assures (fun l => ∀ a ∈ l, P a) (clauseLabel? here label) := by
  refine .ite (h.map fun a ha => ?_) (.pure ?_)
  · simpa using ha
  · simp

theorem exprs_assures (hp : p.Assured) : Assures (fun es => ∀ e ∈ es, e.Sound .plain) (exprs p) := by
  refine (exprList_assures hp 0).bind fun (first, others) => .pure ?_
  intro h
  simpa using h

theorem caseClause_assures (hp : p.Assured) (ofTypes : Bool) :
    Assures (fun c : CaseClause => KeepRules c.nodes) (caseClause p ofTypes) := by
  have htypes : Assures (fun ts => ∀ t ∈ ts, t.Sound .plain) (types p) := by
    refine (separated (type_assures hp)).bind fun (first, others) => .pure ?_
    intro h
    simpa using h
  have hlist : Assures (fun es => ∀ e ∈ es, e.Sound .plain) (caseList p ofTypes) := .ite htypes (exprs_assures hp)
  refine consume.step fun here => (clauseLabel?_assures here hlist).bind fun list => (expect _).step fun _ => ?_
  refine (statements_assures hp).bind fun body => .pure ?_
  intro hbody hlist
  exact (CaseClause.keepRules_nodes _).2 ⟨hlist, hbody⟩

theorem switchStmt_assures (hp : p.Assured) : Assures (fun s : Stmt => KeepRules s.nodes) (switchStmt p) := by
  have hheader : Assures (fun h : Option Stmt × Option Stmt => (∀ s ∈ h.1, KeepRules s.nodes) ∧ ∀ s ∈ h.2, KeepRules s.nodes)
      (switchHeader p) := by
    refine (isAt _).step fun _ => .ite (.pure ?_) (header_assures hp)
    simp
  refine consume.step fun here => hheader.bind fun (init, tag) => ?_
  cases tag with
  | none =>
    refine (clauses_assures (caseClause_assures hp false)).bind fun list => .pure ?_
    rintro hlist ⟨hinit, -⟩
    exact Stmt.keepRules_switch.2 ⟨hinit, by simp, hlist⟩
  | some s =>
    change Assures _ (if isTypeSwitchGuard s = true then _ else _)
    split
    · next hguard =>
      refine (clauses_assures (caseClause_assures hp true)).bind fun list => .pure ?_
      rintro hlist ⟨hinit, hs⟩
      exact Stmt.keepRules_typeSwitch.2 ⟨hinit, hs s rfl, isTypeGuard_of_isTypeSwitchGuard hguard, hlist⟩
    · next hguard =>
      refine (clauses_assures (caseClause_assures hp false)).bind fun list => ?_
      refine (headerExpr_assures "switch expression" s).bind fun e => .pure ?_
      rintro ⟨loc, rfl⟩ hlist ⟨hinit, hs⟩
      refine Stmt.keepRules_switch.2 ⟨hinit, ?_, hlist⟩
      rintro e' ⟨⟩
      exact ⟨Stmt.keepRules_expr.1 (hs _ rfl), fun htype => hguard ((isTypeGuard_iff e).2 htype)⟩

theorem communication_assures (hp : p.Assured) : Assures (fun s : Stmt => KeepRules s.nodes) (communication p) := by
  refine current.step fun start => (exprList_assures hp 0).bind fun (first, others) => ?_
  have hreceive : Assures (fun s : Stmt => first.Sound .plain ∧ (∀ e ∈ others, e.Sound .plain) → KeepRules s.nodes)
      (receive first others start.loc) :=
    (reportUnless _ _ _).step fun _ => .pure fun h => Stmt.keepRules_expr.2 h.1
  refine current.step fun here => ?_
  split
  · exact (send_assures hp 0 first others _).weaken fun s hs h => hs h.1
  · next op _ _ =>
    split
    · next hop =>
      refine consume.step fun _ => (reportUnless _ _ _).step fun _ => (expr_assures hp 0).bind fun value => .pure ?_
      intro hvalue hlists
      refine Stmt.keepRules_assign.2 ⟨⟨by simpa using hlists, by simpa using hvalue⟩, ?_⟩
      have hop : op = .assign ∨ op = .define := by simpa using hop
      simp [Stmt.Coheres, hop]
    · exact hreceive
  · exact hreceive

theorem selectStmt_assures (hp : p.Assured) : Assures (fun s : Stmt => KeepRules s.nodes) (selectStmt p) := by
  have hclause : Assures (fun c : CommClause => KeepRules c.nodes) (commClause p) := by
    refine consume.step fun here => (clauseLabel?_assures here (communication_assures hp)).bind fun comm => ?_
    refine (expect _).step fun _ => (statements_assures hp).bind fun body => .pure ?_
    intro hbody hcomm
    exact (CommClause.keepRules_nodes _).2 ⟨hcomm, hbody⟩
  refine consume.step fun here => (clauses_assures hclause).bind fun list => .pure ?_
  intro hlist
  exact Stmt.keepRules_select.2 hlist

/-! ## For -/

/-- The header of a loop keeps the rules. -/
def LoopHeader.Sound : LoopHeader → Prop
  | .clauses init cond post =>
    (∀ s ∈ init, KeepRules s.nodes) ∧ (∀ s ∈ cond, KeepRules s.nodes) ∧ ∀ s ∈ post, KeepRules s.nodes
  | .range vars define operand => (∀ e ∈ vars, e.Sound .plain) ∧ operand.Sound .plain ∧ (define = true → vars ≠ [])

theorem loopClauses_assures (hp : p.Assured) (init : Option Stmt) :
    Assures (fun h => (∀ s ∈ init, KeepRules s.nodes) → h.Sound) (loopClauses p init) := by
  refine consume.step fun _ => (headerStmtBefore?_assures hp _).bind fun cond => (expect _).step fun _ => ?_
  refine (headerStmtBefore?_assures hp _).bind fun post => .pure ?_
  intro hpost hcond hinit
  exact ⟨hinit, hcond, hpost⟩

theorem loopHeader_assures (hp : p.Assured) : Assures LoopHeader.Sound (loopHeader p) := by
  have hfrom : Assures LoopHeader.Sound (loopHeaderFrom p) := by
    refine (simple_assures hp .loopHeader (-1)).bind fun s => ?_
    cases s with
    | range vars define operand => exact .pure id
    | stmt s =>
      refine (isAt _).step fun _ => .ite ?_ (.pure fun hs => ?_)
      · refine (loopClauses_assures hp (some s)).weaken fun h hh hs => hh ?_
        simpa [Simple.Sound] using hs
      · exact ⟨by simp, by simpa [Simple.Sound] using hs, by simp⟩
  refine (isAt _).step fun _ => .ite (.pure ?_) ((accept _).step fun _ => .ite ?_ ((isAt _).step fun _ => .ite ?_ hfrom))
  · exact ⟨by simp, by simp, by simp⟩
  · refine (expr_assures hp (-1)).bind fun operand => .pure ?_
    intro hoperand
    exact ⟨by simp, hoperand, by simp⟩
  · exact (loopClauses_assures hp none).weaken fun h hh => hh (by simp)

theorem forStmt_assures (hp : p.Assured) : Assures (fun s : Stmt => KeepRules s.nodes) (forStmt p) := by
  refine consume.step fun here => (loopHeader_assures hp).bind fun head => (block_assures hp).bind fun body => ?_
  split
  · next vars define operand =>
    refine .pure ?_
    rintro hbody ⟨hvars, hoperand, hdefine⟩
    have hvar : ∀ i : Nat, ∀ e ∈ vars[i]?, e.Sound .plain := fun i e he => hvars e (List.mem_of_getElem? he)
    refine Stmt.keepRules_range.2 ⟨⟨hvar 0, hvar 1, hoperand⟩, hbody, ?_, fun h => ?_⟩
    · simp
      omega
    · simpa [List.length_pos_iff] using hdefine h
  · refine .pure ?_
    rintro hbody ⟨hinit, -, hpost⟩
    exact Stmt.keepRules_for.2 ⟨hinit, by simp, hpost, hbody⟩
  · next init cond post =>
    refine (headerExpr_assures "loop condition" cond).bind fun e => .pure ?_
    rintro ⟨loc, rfl⟩ hbody ⟨hinit, hcond, hpost⟩
    refine Stmt.keepRules_for.2 ⟨hinit, ?_, hpost, hbody⟩
    rintro e' ⟨⟩
    exact Stmt.keepRules_expr.1 (hcond _ rfl)

/-! ## All statements -/

theorem badStmt_assures : Assures (fun s : Stmt => KeepRules s.nodes) badStmt :=
  current.step fun _ => (reportExpected _).step fun _ => (skipTo _).step fun _ => .pure Stmt.keepRules_bad

theorem returnStmt_assures (hp : p.Assured) : Assures (fun s : Stmt => KeepRules s.nodes) (returnStmt p) := by
  refine consume.step fun here => (orM (isAt _) (isAt _)).step fun _ => .ite (.pure ?_) ((exprs_assures hp).bind fun values => .pure ?_)
  · exact Stmt.keepRules_return.2 (by simp)
  · intro hvalues
    exact Stmt.keepRules_return.2 hvalues

theorem branchStmt_assures (keyword : Keyword) : Assures (fun s : Stmt => KeepRules s.nodes) (branchStmt keyword) :=
  consume.step fun _ => current.step fun _ => .ite (name.step fun _ => .pure Stmt.keepRules_branch) (.pure Stmt.keepRules_branch)

theorem keywordStmt_assures (hp : p.Assured) (keyword : Keyword) :
    Assures (fun s : Stmt => KeepRules s.nodes) (keywordStmt p keyword) := by
  have hdeclaration : ∀ k, Assures (fun s : Stmt => KeepRules s.nodes) (do
      let here ← Parse.current
      return .declaration here.loc (← declGroup p k) : Parse Stmt) := by
    intro k
    refine current.step fun here => (declGroup_assures hp k).bind fun g => .pure ?_
    intro hg
    exact Stmt.keepRules_declaration.2 hg
  unfold keywordStmt
  split
  · exact hdeclaration _
  · exact hdeclaration _
  · exact hdeclaration _
  · exact consume.step fun here => (expr_assures hp 0).bind fun e => .pure Stmt.keepRules_go.2
  · exact consume.step fun here => (expr_assures hp 0).bind fun e => .pure Stmt.keepRules_defer.2
  · exact returnStmt_assures hp
  · exact branchStmt_assures _
  · exact branchStmt_assures _
  · exact branchStmt_assures _
  · exact consume.step fun here => .pure Stmt.keepRules_branch
  · exact (ifStmt_assures hp).weaken fun s hs => hs.1
  · exact switchStmt_assures hp
  · exact selectStmt_assures hp
  · exact forStmt_assures hp
  · exact simpleStmt_assures hp _ _
  · exact simpleStmt_assures hp _ _
  · exact simpleStmt_assures hp _ _
  · exact simpleStmt_assures hp _ _
  · exact simpleStmt_assures hp _ _
  · exact badStmt_assures

theorem stmt_assures (hp : p.Assured) : Assures (fun s : Stmt => KeepRules s.nodes) (stmt p) := by
  refine current.step fun here => ?_
  split
  · exact keywordStmt_assures hp _
  · exact (block_assures hp).map fun b hb => Stmt.keepRules_block.2 hb
  · exact .pure Stmt.keepRules_empty
  · exact .pure Stmt.keepRules_empty
  · exact .ite (simpleStmt_assures hp _ _) badStmt_assures

end GoSyntax.Grammar
