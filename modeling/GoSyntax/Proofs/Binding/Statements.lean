import GoSyntax.Grammar.Statement
import GoSyntax.Proofs.Binding.Expressions
import GoSyntax.Proofs.Lengths.File

/-!
# What braces bind in statements

The statements of a header are read at a negative nesting level, where expressions are shielded, and they are simple statements. All other
statements are read at level 0, and only their nodes matter.
-/

namespace GoSyntax

@[simp] theorem settled_stmt? (s : Option Stmt) : Settled (nodesOfStmt? s) ↔ ∀ s' ∈ s, Settled s'.nodes := by
  cases s <;> simp [nodesOfStmt?]

@[simp] theorem settled_cases (cs : List CaseClause) : Settled (nodesOfCases cs) ↔ ∀ c ∈ cs, Settled c.nodes := by
  rw [nodesOfCases_eq, settled_flatMap]

@[simp] theorem settled_comms (cs : List CommClause) : Settled (nodesOfComms cs) ↔ ∀ c ∈ cs, Settled c.nodes := by
  rw [nodesOfComms_eq, settled_flatMap]

@[simp] theorem settled_specs (ss : List Spec) : Settled (nodesOfSpecs ss) ↔ ∀ s ∈ ss, Settled s.nodes := by
  rw [nodesOfSpecs_eq, settled_flatMap]

/-- A statement that has been read in a header. -/
structure Stmt.SettledHeader (s : Stmt) : Prop where
  nodes : Settled s.nodes
  shielded : s.Shielded

/-- A simple statement that has been read at a nesting level: one of a header is shielded. -/
structure Stmt.SettledAt (position : Grammar.SimplePosition) (level : Int) (s : Stmt) : Prop where
  nodes : Settled s.nodes
  shielded : position ≠ .block → level < 0 → s.Shielded

namespace Grammar

/-- What a simple statement turns out to be, as it has been read at a nesting level. -/
inductive Simple.SettledAt (position : SimplePosition) (level : Int) : Simple → Prop
  | stmt {s : Stmt} (hs : s.SettledAt position level) : SettledAt position level (.stmt s)
  | range {vars : List Expr} {define : Bool} {operand : Expr} (hvars : ∀ e ∈ vars, e.SettledAt level) (hoperand : operand.SettledAt level) :
    SettledAt position level (.range vars define operand)

/-- The header of a loop, as it has been read. -/
inductive LoopHeader.Settled : LoopHeader → Prop
  | clauses {init cond post : Option Stmt} (hinit : ∀ s ∈ init, s.SettledHeader) (hcond : ∀ s ∈ cond, s.SettledHeader)
    (hpost : ∀ s ∈ post, s.SettledHeader) : Settled (.clauses init cond post)
  | range {vars : List Expr} {define : Bool} {operand : Expr} (hvars : ∀ e ∈ vars, e.SettledAt (-1)) (hoperand : operand.SettledAt (-1)) :
    Settled (.range vars define operand)

open Gives

variable {p : Productions} {position : SimplePosition} {level : Int}

theorem Simple.gives_stmt {f : Parse Stmt} (h : Gives (Stmt.SettledAt position level) f) :
    Gives (Simple.SettledAt position level) (.stmt <$> f) := h.map fun _ => .stmt

attribute [local simp] Stmt.nodes Stmt.HeaderShielded Stmt.headerStmts Stmt.headerExprs Expr.nodes Expr.Ordered

/-! ## Declarations -/

theorem importSpec_settled : Gives (fun s => ∀ loc, Settled (Spec.import loc s).nodes) importSpec := by
  refine step fun name => step fun path => .pure fun loc => ?_
  cases name <;> simp [Spec.nodes, ImportSpec.nodes]

theorem spec_settled (hp : p.GiveSettled) (keyword : Keyword) (isFirst : Bool) :
    Gives (fun s => Settled s.nodes) (spec p keyword isFirst) := by
  have hvalues : ∀ required, Gives (fun es => ∀ e ∈ es, Settled e.nodes) (specValues p required) := fun required =>
    step fun _ => .ite ((exprList_settled hp 0).bind fun (e, es) h =>
      .pure (List.forall_mem_cons.2 ⟨h.1.nodes, fun e he => (h.2 e he).nodes⟩))
      (step fun _ => .pure (List.forall_mem_nil _))
  refine step fun here => ?_
  split
  · exact importSpec_settled.bind fun s hs => .pure (hs here.loc)
  · exact step fun name => (type_settled hp).bind fun t ht => .pure (by simpa [Spec.nodes] using ht.nodes)
  · refine step fun list => hp.type?.bind fun t ht => (hvalues _).bind fun values hvalues => .pure ?_
    simpa [Spec.nodes] using ⟨fun e he => (ht e he).nodes, hvalues⟩

theorem declGroup_settled (hp : p.GiveSettled) (keyword : Keyword) : Gives (fun g => Settled g.nodes) (declGroup p keyword) := by
  let fine (group : Array Spec × Bool) : Prop := ∀ s ∈ group.1, Settled s.nodes
  have hresume : ∀ before specs, (∀ s ∈ specs, Settled s.nodes) →
      Gives (fun s : ForInStep (Array Spec × Bool) => fine s.value) (resumeGroup before specs) := fun before specs hspecs =>
    step fun _ => step fun _ => step fun _ => .ite (.pure hspecs) (.pure hspecs)
  have hpass : ∀ group, fine group → Gives (fun s => fine s.value) (specPass p keyword group) := by
    rintro ⟨specs, closes⟩ hspecs
    refine step fun here => .ite (.pure hspecs) (step fun before => .ite ?_ (hresume _ _ hspecs))
    refine (spec_settled hp keyword _).bind fun s hs => step fun _ => ?_
    have hpush : ∀ s' ∈ specs.push s, Settled s'.nodes := Array.forall_mem_push.2 ⟨hs, hspecs⟩
    exact .ite (.pure hpush) (hresume _ _ hpush)
  have hgroup : Gives (fun ss => ∀ s ∈ ss, Settled s.nodes) (specGroup p keyword) := by
    have hstart : fine (#[], true) := by simp [fine]
    refine (loop hpass hstart).bind fun (specs, closes) hspecs => step fun _ => .pure ?_
    simpa [fine] using hspecs
  refine step fun _ => step fun _ => .ite (hgroup.bind fun specs hspecs => .pure ?_)
    ((spec_settled hp keyword true).bind fun s hs => .pure ?_)
  · simpa [DeclGroup.nodes] using hspecs
  · simpa [DeclGroup.nodes] using hs

/-! ## Simple statements -/

theorem alone_settled (position : SimplePosition) (first : Expr) (others : List Expr) (loc : Location) (h : first.SettledAt level) :
    Gives (Stmt.SettledAt position level) (alone first others loc) := by
  have hs : (Stmt.expr loc first).SettledAt position level :=
    ⟨by simpa using h.nodes, fun _ hlevel => ⟨rfl, List.forall_mem_singleton.2 (h.shielded hlevel)⟩⟩
  exact .ite (.pure hs) (step fun _ => .pure hs)

theorem send_settled (hp : p.GiveSettled) (position : SimplePosition) (level : Int) (first : Expr) (others : List Expr) (loc : Location)
    (h : first.SettledAt level) : Gives (Stmt.SettledAt position level) (send p level first others loc) := by
  refine step fun _ => step fun _ => (expr_settled hp level).bind fun value hvalue => .pure ⟨?_, fun _ hlevel => ⟨rfl, ?_⟩⟩
  · simpa using ⟨h.nodes, hvalue.nodes⟩
  · exact List.forall_mem_cons.2 ⟨h.shielded hlevel, List.forall_mem_singleton.2 (hvalue.shielded hlevel)⟩

theorem bare_settled (hp : p.GiveSettled) (position : SimplePosition) (first : Expr) (others : List Expr) (loc : Location)
    (h : first.SettledAt level) : Gives (Stmt.SettledAt position level) (bare p position first others loc) := by
  have hlabeled : ∀ label, Gives (Stmt.SettledAt .block level) (labeled p label loc) := fun label =>
    step fun _ => step fun _ => .ite (step fun _ => .pure ⟨by simp, fun hne => absurd rfl hne⟩)
      (hp.stmt.bind fun s hs => .pure ⟨by simpa using hs, fun hne => absurd rfl hne⟩)
  unfold bare
  split
  · exact step fun _ => .ite (hlabeled _) (alone_settled _ _ _ _ h)
  · exact alone_settled _ _ _ _ h

theorem assignmentOrRange_settled (hp : p.GiveSettled) (position : SimplePosition) (level : Int) (op : Operator) (targets : List Expr)
    (loc : Location) (h : ∀ e ∈ targets, e.SettledAt level) :
    Gives (Simple.SettledAt position level) (assignmentOrRange p position level op targets loc) := by
  have hassign : Gives (Stmt.SettledAt position level) (assignment p level op targets loc) := by
    refine (exprList_settled hp level).bind fun (value, values) hvalues => step fun _ => .pure ⟨?_, fun _ hlevel => ⟨rfl, ?_⟩⟩
    · simpa using ⟨fun e he => (h e he).nodes, hvalues.1.nodes, fun e he => (hvalues.2 e he).nodes⟩
    · have hleft : ∀ e ∈ targets, e.Shielded := fun e he => (h e he).shielded hlevel
      have hright : ∀ e ∈ value :: values, e.Shielded :=
        List.forall_mem_cons.2 ⟨hvalues.1.shielded hlevel, fun e he => (hvalues.2 e he).shielded hlevel⟩
      exact List.forall_mem_append.2 ⟨hleft, hright⟩
  have hrange : Gives (Simple.SettledAt position level) (rangeClause p level targets (op == .define) loc) :=
    (expr_settled hp level).bind fun e he => step fun _ => .pure (.range h he)
  exact step fun _ => step fun _ => .ite hrange (Simple.gives_stmt hassign)

theorem simple_settled (hp : p.GiveSettled) (position : SimplePosition) (level : Int) :
    Gives (Simple.SettledAt position level) (simple p position level) := by
  refine step fun here => (exprList_settled hp level).bind fun (first, others) ⟨hfirst, hothers⟩ => step fun next => ?_
  have hbare : Gives (Simple.SettledAt position level) (.stmt <$> bare p position first others here.loc) :=
    Simple.gives_stmt (bare_settled hp position first others here.loc hfirst)
  have hincDec : ∀ op, Gives (Stmt.SettledAt position level) (incDec op first others here.loc) := fun op =>
    step fun _ => step fun _ => .pure ⟨by simpa using hfirst.nodes,
      fun _ hlevel => ⟨rfl, List.forall_mem_singleton.2 (hfirst.shielded hlevel)⟩⟩
  split
  · exact Simple.gives_stmt (send_settled hp position level first others here.loc hfirst)
  · unfold simpleBy
    split
    · exact Simple.gives_stmt (hincDec _)
    · exact assignmentOrRange_settled hp position level _ _ here.loc (List.forall_mem_cons.2 ⟨hfirst, hothers⟩)
    · exact hbare
  · exact hbare

theorem simpleStmt_settled (hp : p.GiveSettled) (position : SimplePosition) (level : Int) :
    Gives (Stmt.SettledAt position level) (simpleStmt p position level) := by
  refine step fun here => (simple_settled hp position level).bind fun s hs => ?_
  cases hs with
  | stmt hs => exact .pure hs
  | range hvars hoperand => exact .pure ⟨by simp, fun _ _ => ⟨rfl, List.forall_mem_nil _⟩⟩

/-! ## Control statements -/

theorem Stmt.SettledAt.header {position : SimplePosition} {s : Stmt} (h : s.SettledAt position (-1)) (hposition : position ≠ .block) :
    s.SettledHeader := ⟨h.nodes, h.shielded hposition (by decide)⟩

theorem headerExpr_settled (what : String) (s : Stmt) (h : s.SettledHeader) :
    Gives (fun e => Settled e.nodes ∧ e.Shielded) (headerExpr what s) := by
  obtain ⟨hnodes, hsimple, hexprs⟩ := h
  unfold headerExpr
  split
  · exact .pure ⟨by simpa using hnodes, hexprs _ List.mem_cons_self⟩
  · exact step fun _ => .pure ⟨(Expr.settledType_bad _).nodes, (Expr.settledType_bad _).shielded⟩

theorem headerStmtBefore?_settled (hp : p.GiveSettled) (stop : TokenKind) :
    Gives (fun s => ∀ s' ∈ s, s'.SettledHeader) (headerStmtBefore? p stop) := by
  have hheader : Gives Stmt.SettledHeader (headerStmt p) :=
    (simpleStmt_settled hp .header (-1)).weaken fun s hs => Stmt.SettledAt.header hs (by decide)
  exact step fun _ => .ite .none_ hheader.some_

/-- The two statements of a header, as they have been read. -/
def SettledHeaders (h : Option Stmt × Option Stmt) : Prop := (∀ s ∈ h.1, s.SettledHeader) ∧ ∀ s ∈ h.2, s.SettledHeader

theorem header_settled (hp : p.GiveSettled) : Gives SettledHeaders (header p) :=
  (headerStmtBefore?_settled hp _).bind fun _ hfirst => step fun _ =>
    .ite ((headerStmtBefore?_settled hp _).bind fun _ hsecond => .pure ⟨hfirst, hsecond⟩)
      (.pure ⟨fun _ h => absurd h (Option.not_mem_none _), hfirst⟩)

theorem ifStmt_settled (hp : p.GiveSettled) : Gives (fun s => Settled s.nodes) (ifStmt p) := by
  have hmissing : Gives (fun e => Settled e.nodes ∧ e.Shielded) missingCondition :=
    step fun here => step fun _ => .pure ⟨(Expr.settledType_bad here.loc).nodes, (Expr.settledType_bad here.loc).shielded⟩
  have hheader : Gives (fun h : Option Stmt × Expr => (∀ s ∈ h.1, s.SettledHeader) ∧ Settled h.2.nodes ∧ h.2.Shielded) (ifHeader p) := by
    refine step fun _ => .ite (hmissing.bind fun e he => .pure ⟨fun _ h => absurd h (Option.not_mem_none _), he⟩)
      ((header_settled hp).bind fun (init, cond) h => ?_)
    cases cond with
    | some s => exact (headerExpr_settled _ s (h.2 s rfl)).bind fun e he => .pure ⟨h.1, he⟩
    | none => exact hmissing.bind fun e he => .pure ⟨h.1, he⟩
  have hotherwise : Gives (fun s => Settled s.nodes) (otherwise p) := by
    refine step fun _ => .ite hp.stmt (step fun _ => .ite ((block_settled hp).map fun b hb => ?_) (step fun _ => step fun _ => .pure ?_))
    · obtain ⟨loc, stmts⟩ := b
      simpa using hb
    · simp
  refine step fun here => hheader.bind fun (init, cond) ⟨hinit, hcond, hshielded⟩ => (block_settled hp).bind fun body hbody =>
    step fun _ => ?_
  have hinits : ∀ s ∈ init, s.Shielded := fun s hs => (hinit s hs).shielded
  have hnodes : ∀ s ∈ init, Settled s.nodes := fun s hs => (hinit s hs).nodes
  refine .ite (hotherwise.bind fun s hs => .pure ?_) (.pure ?_)
  · simpa using ⟨⟨hinits, hshielded⟩, hnodes, hcond, hbody, hs⟩
  · simpa using ⟨⟨hinits, hshielded⟩, hnodes, hcond, hbody⟩

theorem caseClause_settled (hp : p.GiveSettled) (ofTypes : Bool) : Gives (fun c => Settled c.nodes) (caseClause p ofTypes) := by
  have hlist : Gives (fun es => ∀ e ∈ es, Settled e.nodes) (caseList p ofTypes) := by
    cases ofTypes with
    | true =>
      refine (separated (type_settled hp)).bind fun (t, ts) h => .pure (List.forall_mem_cons.2 ⟨h.1.nodes, fun e he => ?_⟩)
      exact (h.2 e he).nodes
    | false =>
      refine (exprList_settled hp 0).bind fun (e, es) h => .pure (List.forall_mem_cons.2 ⟨h.1.nodes, fun e he => ?_⟩)
      exact (h.2 e he).nodes
  refine step fun here => (clauseLabel?_gives here hlist).bind fun list hlist => step fun _ =>
    (statements_settled hp).bind fun body hbody => ?_
  cases list with
  | none => exact .pure (by simpa [CaseClause.nodes, nodesOfCaseList] using hbody)
  | some es => exact .pure (by simpa [CaseClause.nodes, nodesOfCaseList] using ⟨hlist es rfl, hbody⟩)

theorem switchStmt_settled (hp : p.GiveSettled) : Gives (fun s => Settled s.nodes) (switchStmt p) := by
  have hheader : Gives SettledHeaders (switchHeader p) :=
    step fun _ => .ite (.pure ⟨fun _ h => absurd h (Option.not_mem_none _), fun _ h => absurd h (Option.not_mem_none _)⟩)
      (header_settled hp)
  have hcases : ∀ ofTypes, Gives (fun cs => ∀ c ∈ cs, Settled c.nodes) (clauses (caseClause p ofTypes)) :=
    fun ofTypes => clauses_gives (caseClause_settled hp ofTypes)
  refine step fun here => hheader.bind fun (init, tag) ⟨hinit, htag⟩ => ?_
  have hinits : ∀ s ∈ init, s.Shielded := fun s hs => (hinit s hs).shielded
  have hnodes : ∀ s ∈ init, Settled s.nodes := fun s hs => (hinit s hs).nodes
  cases tag with
  | none =>
    refine (hcases false).bind fun cs hcs => .pure ?_
    simpa [nodesOfExpr?] using ⟨hinits, hnodes, hcs⟩
  | some s =>
    have hs : s.SettledHeader := htag s rfl
    refine .ite ((hcases true).bind fun cs hcs => .pure ?_) ((hcases false).bind fun cs hcs =>
      (headerExpr_settled _ s hs).bind fun e he => .pure ?_)
    · have hboth : ∀ h, h ∈ init ∨ h = s → h.Shielded := fun h hh => hh.elim (hinits h) fun heq => heq ▸ hs.shielded
      simpa using ⟨hboth, hnodes, hs.nodes, hcs⟩
    · simpa [nodesOfExpr?] using ⟨⟨hinits, he.2⟩, hnodes, he.1, hcs⟩

theorem selectStmt_settled (hp : p.GiveSettled) : Gives (fun s => Settled s.nodes) (selectStmt p) := by
  have hcomm : Gives (fun s => Settled s.nodes) (communication p) := by
    refine step fun here => (exprList_settled hp 0).bind fun (first, others) ⟨hfirst, hothers⟩ => step fun next => ?_
    have hreceive : Gives (fun s => Settled s.nodes) (receive first others here.loc) := step fun _ => .pure (by simpa using hfirst.nodes)
    split
    · exact (send_settled hp .block 0 first others here.loc hfirst).weaken fun s hs => hs.nodes
    · refine .ite (step fun _ => step fun _ => (expr_settled hp 0).bind fun e he => .pure ?_) hreceive
      simpa using ⟨⟨hfirst.nodes, fun e he => (hothers e he).nodes⟩, he.nodes⟩
    · exact hreceive
  have hclause : Gives (fun c : CommClause => Settled c.nodes) (commClause p) := by
    refine step fun here => (clauseLabel?_gives here hcomm).bind fun comm hcomm => step fun _ => ?_
    refine (statements_settled hp).bind fun body hbody => .pure ?_
    simpa [CommClause.nodes] using ⟨hcomm, hbody⟩
  exact step fun here => (clauses_gives hclause).bind fun cs hcs => .pure (by simpa using hcs)

theorem loopHeader_settled (hp : p.GiveSettled) : Gives LoopHeader.Settled (loopHeader p) := by
  have hnone : ∀ s ∈ (none : Option Stmt), s.SettledHeader := fun _ h => absurd h (Option.not_mem_none _)
  have hclauses : ∀ init : Option Stmt, (∀ s ∈ init, s.SettledHeader) → Gives LoopHeader.Settled (loopClauses p init) := fun init hinit =>
    step fun _ => (headerStmtBefore?_settled hp _).bind fun cond hcond => step fun _ =>
      (headerStmtBefore?_settled hp _).bind fun post hpost => .pure (.clauses hinit hcond hpost)
  have hfrom : Gives LoopHeader.Settled (loopHeaderFrom p) := by
    refine (simple_settled hp .loopHeader (-1)).bind fun s hs => ?_
    cases hs with
    | range hvars hoperand => exact .pure (.range hvars hoperand)
    | @stmt s hs =>
      have hs : ∀ s' ∈ some s, s'.SettledHeader := by
        rintro s' hs'
        obtain rfl := Option.some.inj hs'
        exact Stmt.SettledAt.header hs (by decide)
      exact step fun _ => .ite (hclauses _ hs) (.pure (.clauses hnone hs hnone))
  refine step fun _ => .ite (.pure (.clauses hnone hnone hnone)) (step fun _ => ?_)
  exact .ite ((expr_settled hp _).bind fun e he => .pure (.range (List.forall_mem_nil _) he))
    (step fun _ => .ite (hclauses none hnone) hfrom)

theorem forStmt_settled (hp : p.GiveSettled) : Gives (fun s => Settled s.nodes) (forStmt p) := by
  refine step fun here => (loopHeader_settled hp).bind fun head hhead => (block_settled hp).bind fun body hbody => ?_
  cases hhead with
  | @range vars define operand hvars hoperand =>
    have hvar : ∀ (i : Nat), ∀ e ∈ vars[i]?, e.SettledAt (-1) := fun i e he => hvars e (List.mem_of_getElem? he)
    have hshielded : ∀ e, e ∈ vars[0]? ∨ e ∈ vars[1]? ∨ e = operand → e.Shielded := by
      rintro e (he | he | rfl)
      · exact (hvar 0 e he).shielded (by decide)
      · exact (hvar 1 e he).shielded (by decide)
      · exact hoperand.shielded (by decide)
    refine .pure ?_
    simpa using ⟨hshielded, fun e he => (hvar 0 e (by simpa using he)).nodes, fun e he => (hvar 1 e (by simpa using he)).nodes,
      hoperand.nodes, hbody⟩
  | @clauses init cond post hinit hcond hpost =>
    have hshielded : ∀ s, s ∈ init ∨ s ∈ post → s.Shielded :=
      fun s hs => hs.elim (fun hs => (hinit s hs).shielded) fun hs => (hpost s hs).shielded
    cases cond with
    | none =>
      refine .pure ?_
      simpa [nodesOfExpr?] using ⟨hshielded, fun s hs => (hinit s hs).nodes, fun s hs => (hpost s hs).nodes, hbody⟩
    | some cond =>
      refine (headerExpr_settled _ cond (hcond cond rfl)).bind fun e he => .pure ?_
      simpa [nodesOfExpr?] using ⟨⟨hshielded, he.2⟩, fun s hs => (hinit s hs).nodes, he.1, fun s hs => (hpost s hs).nodes, hbody⟩

/-! ## All statements -/

theorem keywordStmt_settled (hp : p.GiveSettled) (keyword : Keyword) : Gives (fun s => Settled s.nodes) (keywordStmt p keyword) := by
  have hgroup : ∀ keyword, Gives (fun s : Stmt => Settled s.nodes) (do
      let here ← Parse.current
      return .declaration here.loc (← declGroup p keyword)) := fun keyword =>
    step fun _ => (declGroup_settled hp keyword).bind fun g hg => .pure (by simpa using hg)
  have hexprs : Gives (fun es => ∀ e ∈ es, Settled e.nodes) (exprs p) :=
    (exprList_settled hp 0).bind fun (e, es) h => .pure (List.forall_mem_cons.2 ⟨h.1.nodes, fun e he => (h.2 e he).nodes⟩)
  have hbranch : ∀ keyword, Gives (fun s => Settled s.nodes) (branchStmt keyword) := fun keyword =>
    step fun _ => step fun _ => .ite (step fun label => .pure (by simp)) (.pure (by simp))
  have hsimple : Gives (fun s => Settled s.nodes) (simpleStmt p .block 0) := (simpleStmt_settled hp .block 0).weaken fun s hs => hs.nodes
  have hbad : Gives (fun s => Settled s.nodes) badStmt := step fun _ => step fun _ => step fun _ => .pure (by simp)
  unfold keywordStmt
  split
  · exact hgroup _
  · exact hgroup _
  · exact hgroup _
  · exact step fun _ => (expr_settled hp 0).bind fun e he => .pure (by simpa using he.nodes)
  · exact step fun _ => (expr_settled hp 0).bind fun e he => .pure (by simpa using he.nodes)
  · exact step fun _ => step fun _ => .ite (.pure (by simp)) (hexprs.bind fun es hes => .pure (by simpa using hes))
  · exact hbranch _
  · exact hbranch _
  · exact hbranch _
  · exact step fun _ => .pure (by simp)
  · exact ifStmt_settled hp
  · exact switchStmt_settled hp
  · exact selectStmt_settled hp
  · exact forStmt_settled hp
  · exact hsimple
  · exact hsimple
  · exact hsimple
  · exact hsimple
  · exact hsimple
  · exact hbad

theorem stmt_settled (hp : p.GiveSettled) : Gives (fun s => Settled s.nodes) (stmt p) := by
  have hbad : Gives (fun s => Settled s.nodes) badStmt := step fun _ => step fun _ => step fun _ => .pure (by simp)
  refine step fun here => ?_
  split
  · exact keywordStmt_settled hp _
  · refine (block_settled hp).map fun b hb => ?_
    obtain ⟨loc, stmts⟩ := b
    simpa using hb
  · exact .pure (by simp)
  · exact .pure (by simp)
  · exact .ite ((simpleStmt_settled hp .block 0).weaken fun s hs => hs.nodes) hbad

end Grammar

end GoSyntax
