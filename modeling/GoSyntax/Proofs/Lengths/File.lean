import GoSyntax.Grammar.File
import GoSyntax.Proofs.Lengths.Expressions
import GoSyntax.Proofs.Rules.Places

/-!
# Where a length may be left open

The cases of a type switch are types, those of another switch are expressions. They are read alike but for this, so the property of a
clause is told apart by the switch it belongs to.

Whatever is read and reported, the length of an array type is left open nowhere in a file but in an operand. An operand need not be the
type of a composite literal: whether a body follows shows only behind it, and nothing is reported if none does.
-/

namespace GoSyntax

@[simp] theorem sized_stmt? (s : Option Stmt) : Sized (nodesOfStmt? s) ↔ ∀ s' ∈ s, Sized s'.nodes := by
  cases s <;> simp [nodesOfStmt?]

@[simp] theorem sized_cases (cs : List CaseClause) : Sized (nodesOfCases cs) ↔ ∀ c ∈ cs, Sized c.nodes := by
  rw [nodesOfCases_eq, sized_flatMap]

@[simp] theorem sized_comms (cs : List CommClause) : Sized (nodesOfComms cs) ↔ ∀ c ∈ cs, Sized c.nodes := by
  rw [nodesOfComms_eq, sized_flatMap]

@[simp] theorem sized_specs (ss : List Spec) : Sized (nodesOfSpecs ss) ↔ ∀ s ∈ ss, Sized s.nodes := by
  rw [nodesOfSpecs_eq, sized_flatMap]

/-- All types below the statement have lengths where they must. -/
def Stmt.SizedBelow (s : Stmt) : Prop := Sized s.nodes

/-- The nodes of what a simple statement turns out to be. -/
def Grammar.Simple.nodes : Grammar.Simple → List Node
  | .stmt s => s.nodes
  | .range vars _ operand => nodesOfExprs vars ++ operand.nodes

/-- The nodes of the header of a loop. -/
def Grammar.LoopHeader.nodes : Grammar.LoopHeader → List Node
  | .clauses init cond post => nodesOfStmt? init ++ nodesOfStmt? cond ++ nodesOfStmt? post
  | .range vars _ operand => nodesOfExprs vars ++ operand.nodes

/-- All types below a clause of a switch have lengths where they must; so have the cases of a type switch. -/
def CaseClause.SizedIn (ofTypes : Bool) (c : CaseClause) : Prop :=
  Sized c.nodes ∧ (ofTypes = true → ∀ t ∈ c.list.getD [], t.infersLength = false)

namespace Grammar

open Gives

variable {p : Productions}

attribute [local simp] Stmt.nodes Node.typeParts Stmt.typeParts Stmt.SizedBelow Expr.SizedBelow Expr.nodes Expr.typeParts
  Simple.nodes LoopHeader.nodes

/-! ## Declarations -/

theorem importSpec_sized : Gives (fun s => ∀ loc, Sized (Spec.import loc s).nodes) importSpec := by
  refine step fun name => step fun path => .pure fun loc => ?_
  cases name <;> simp [Spec.nodes, ImportSpec.nodes, Spec.typeParts]

theorem spec_sized (hp : p.GiveSized) (keyword : Keyword) (isFirst : Bool) : Gives (fun s => Sized s.nodes) (spec p keyword isFirst) := by
  have hvalues : ∀ required, Gives (fun es => ∀ e ∈ es, e.SizedBelow) (specValues p required) := fun required =>
    step fun _ => .ite ((exprList_sized hp 0).bind fun (e, es) h => .pure (List.forall_mem_cons.2 h))
      (step fun _ => .pure fun _ h => nomatch h)
  refine step fun here => ?_
  split
  · exact importSpec_sized.bind fun s hs => .pure (hs here.loc)
  · exact step fun name => (type_sized hp).bind fun t ht => .pure (by simpa [Spec.nodes, Spec.typeParts] using ht.symm)
  · refine step fun list => hp.type?.bind fun t ht => (hvalues _).bind fun values hvalues => .pure ?_
    simpa [Spec.nodes, Spec.typeParts] using ⟨fun e he => (ht e he).2, fun e he => (ht e he).1, hvalues⟩

theorem declGroup_sized (hp : p.GiveSized) (keyword : Keyword) : Gives (fun g => Sized g.nodes) (declGroup p keyword) := by
  let fine (group : Array Spec × Bool) : Prop := ∀ s ∈ group.1, Sized s.nodes
  have hresume : ∀ before specs, (∀ s ∈ specs, Sized s.nodes) →
      Gives (fun s : ForInStep (Array Spec × Bool) => fine s.value) (resumeGroup before specs) := fun before specs hspecs =>
    step fun _ => step fun _ => step fun _ => .ite (.pure hspecs) (.pure hspecs)
  have hpass : ∀ group, fine group → Gives (fun s => fine s.value) (specPass p keyword group) := by
    rintro ⟨specs, closes⟩ hspecs
    refine step fun here => .ite (.pure hspecs) (step fun before => .ite ?_ (hresume _ _ hspecs))
    refine (spec_sized hp keyword _).bind fun s hs => step fun _ => ?_
    have hpush : ∀ s' ∈ specs.push s, Sized s'.nodes := Array.forall_mem_push.2 ⟨hs, hspecs⟩
    exact .ite (.pure hpush) (hresume _ _ hpush)
  have hgroup : Gives (fun ss => ∀ s ∈ ss, Sized s.nodes) (specGroup p keyword) := by
    have hstart : fine (#[], true) := by simp [fine]
    refine (loop hpass hstart).bind fun (specs, closes) hspecs => step fun _ => .pure ?_
    simpa [fine] using hspecs
  refine step fun _ => step fun _ => .ite (hgroup.bind fun specs hspecs => .pure ?_)
    ((spec_sized hp keyword true).bind fun s hs => .pure ?_)
  · simpa [DeclGroup.nodes] using hspecs
  · simpa [DeclGroup.nodes] using hs

/-! ## Simple statements -/

theorem alone_sized (first : Expr) (others : List Expr) (loc : Location) (h : first.SizedBelow) :
    Gives Stmt.SizedBelow (alone first others loc) := .ite (.pure (by simpa using h)) (step fun _ => .pure (by simpa using h))

theorem send_sized (hp : p.GiveSized) (level : Int) (first : Expr) (others : List Expr) (loc : Location) (h : first.SizedBelow) :
    Gives Stmt.SizedBelow (send p level first others loc) :=
  step fun _ => step fun _ => (expr_sized hp level).bind fun value hvalue => .pure (by simpa using ⟨h, hvalue⟩)

theorem bare_sized (hp : p.GiveSized) (position : SimplePosition) (first : Expr) (others : List Expr) (loc : Location)
    (h : first.SizedBelow) : Gives Stmt.SizedBelow (bare p position first others loc) := by
  have hlabeled : ∀ label, Gives Stmt.SizedBelow (labeled p label loc) := fun label =>
    step fun _ => step fun _ => .ite (step fun _ => .pure (by simp)) (hp.stmt.bind fun s hs => .pure (by simpa using hs))
  unfold bare
  split
  · exact step fun _ => .ite (hlabeled _) (alone_sized _ _ _ h)
  · exact alone_sized _ _ _ h

theorem assignmentOrRange_sized (hp : p.GiveSized) (position : SimplePosition) (level : Int) (op : Operator) (targets : List Expr)
    (loc : Location) (h : ∀ e ∈ targets, e.SizedBelow) :
    Gives (fun s : Simple => Sized s.nodes) (assignmentOrRange p position level op targets loc) := by
  have hassign : Gives Stmt.SizedBelow (assignment p level op targets loc) := by
    refine (exprList_sized hp level).bind fun (value, values) hvalues => step fun _ => .pure ?_
    simpa using ⟨h, hvalues⟩
  exact step fun _ => step fun _ => .ite ((expr_sized hp level).bind fun e he => step fun _ => .pure (by simpa using ⟨h, he⟩))
    (hassign.map fun _ hs => hs)

theorem simple_sized (hp : p.GiveSized) (position : SimplePosition) (level : Int) :
    Gives (fun s : Simple => Sized s.nodes) (simple p position level) := by
  refine step fun here => (exprList_sized hp level).bind fun (first, others) ⟨hfirst, hothers⟩ => step fun next => ?_
  have hbare : Gives (fun s : Simple => Sized s.nodes) (.stmt <$> bare p position first others here.loc) :=
    (bare_sized hp position first others here.loc hfirst).map fun _ hs => hs
  split
  · exact (send_sized hp level first others here.loc hfirst).map fun _ hs => hs
  · unfold simpleBy
    split
    · exact .map (P := Stmt.SizedBelow) (step fun _ => step fun _ => .pure (by simpa using hfirst)) fun _ hs => hs
    · exact assignmentOrRange_sized hp position level _ _ here.loc (List.forall_mem_cons.2 ⟨hfirst, hothers⟩)
    · exact hbare
  · exact hbare

theorem simpleStmt_sized (hp : p.GiveSized) (position : SimplePosition) (level : Int) :
    Gives Stmt.SizedBelow (simpleStmt p position level) := by
  refine step fun here => (simple_sized hp position level).bind fun s hs => ?_
  cases s with
  | stmt s => exact .pure hs
  | range vars define operand => exact .pure (by simp)

/-! ## Control statements -/

theorem headerExpr_sized (what : String) (s : Stmt) (h : s.SizedBelow) : Gives Expr.SizedBelow (headerExpr what s) := by
  unfold headerExpr
  split
  · exact .pure (by simpa using h)
  · exact step fun _ => .pure (by simp)

theorem headerStmtBefore?_sized (hp : p.GiveSized) (stop : TokenKind) :
    Gives (fun s => ∀ s' ∈ s, s'.SizedBelow) (headerStmtBefore? p stop) := step fun _ => .ite .none_ (simpleStmt_sized hp _ _).some_

/-- The two statements of a header. -/
def SizedHeader (h : Option Stmt × Option Stmt) : Prop := (∀ s ∈ h.1, s.SizedBelow) ∧ ∀ s ∈ h.2, s.SizedBelow

theorem header_sized (hp : p.GiveSized) : Gives SizedHeader (header p) :=
  (headerStmtBefore?_sized hp _).bind fun _ hfirst => step fun _ =>
    .ite ((headerStmtBefore?_sized hp _).bind fun _ hsecond => .pure ⟨hfirst, hsecond⟩) (.pure ⟨fun _ h => (nomatch h), hfirst⟩)

theorem ifStmt_sized (hp : p.GiveSized) : Gives Stmt.SizedBelow (ifStmt p) := by
  have hmissing : Gives Expr.SizedBelow missingCondition := step fun _ => step fun _ => .pure (by simp)
  have hheader : Gives (fun h : Option Stmt × Expr => (∀ s ∈ h.1, s.SizedBelow) ∧ h.2.SizedBelow) (ifHeader p) := by
    refine step fun _ => .ite (hmissing.bind fun e he => .pure ⟨fun _ h => (nomatch h), he⟩)
      ((header_sized hp).bind fun (init, cond) h => ?_)
    cases cond with
    | some s => exact (headerExpr_sized _ s (h.2 s rfl)).bind fun e he => .pure ⟨h.1, he⟩
    | none => exact hmissing.bind fun e he => .pure ⟨h.1, he⟩
  have hotherwise : Gives Stmt.SizedBelow (otherwise p) := by
    refine step fun _ => .ite hp.stmt (step fun _ => .ite ((block_sized hp).map fun b hb => ?_) (step fun _ => step fun _ => .pure ?_))
    · obtain ⟨loc, stmts⟩ := b
      simpa using hb
    · simp
  refine step fun here => hheader.bind fun (init, cond) ⟨hinit, hcond⟩ => (block_sized hp).bind fun body hbody => step fun _ => ?_
  simp only [Stmt.SizedBelow, Expr.SizedBelow] at hinit hcond
  refine .ite (hotherwise.bind fun s hs => .pure ?_) (.pure ?_)
  · simpa using ⟨hinit, hcond, hbody, hs⟩
  · simpa using ⟨hinit, hcond, hbody⟩

theorem clauses_gives {α : Type} {P : α → Prop} {clause : Parse α} (h : Gives P clause) :
    Gives (fun cs => ∀ c ∈ cs, P c) (clauses clause) := by
  have hpass : ∀ list, Gives (Keeps P list) (clausePass clause list) := fun list =>
    step fun here => .ite (.pure id) (.ite (h.bind fun c hc => .pure (keeps_push rfl hc)) (step fun _ => step fun _ => .pure id))
  exact step fun _ => (collect hpass).bind fun list hlist => step fun _ => .pure hlist

theorem clauseLabel?_gives {α : Type} {P : α → Prop} (here : Token) {label : Parse α} (h : Gives P label) :
    Gives (fun l => ∀ a ∈ l, P a) (clauseLabel? here label) := .ite h.some_ .none_

theorem caseClause_sized (hp : p.GiveSized) (ofTypes : Bool) : Gives (CaseClause.SizedIn ofTypes) (caseClause p ofTypes) := by
  have hlist : Gives (fun es => ∀ e ∈ es, Sized e.nodes ∧ (ofTypes = true → e.infersLength = false)) (caseList p ofTypes) := by
    cases ofTypes with
    | true =>
      refine (separated (type_sized hp)).bind fun (t, ts) h => .pure (List.forall_mem_cons.2 ⟨⟨h.1.1, fun _ => h.1.2⟩, fun e he => ?_⟩)
      exact ⟨(h.2 e he).1, fun _ => (h.2 e he).2⟩
    | false =>
      refine (exprList_sized hp 0).bind fun (e, es) h => .pure (List.forall_mem_cons.2 ⟨⟨h.1, fun h => nomatch h⟩, fun e he => ?_⟩)
      exact ⟨h.2 e he, fun h => nomatch h⟩
  refine step fun here => (clauseLabel?_gives here hlist).bind fun list hlist => step fun _ =>
    (statements_sized hp).bind fun body hbody => ?_
  refine .pure ⟨?_, fun htypes => ?_⟩
  · cases list with
    | none => simpa [CaseClause.nodes, nodesOfCaseList] using hbody
    | some es => simpa [CaseClause.nodes, nodesOfCaseList] using ⟨fun e he => (hlist es rfl e he).1, hbody⟩
  · cases list with
    | none => exact fun _ h => nomatch h
    | some es => exact fun e he => (hlist es rfl e he).2 htypes

theorem switchStmt_sized (hp : p.GiveSized) : Gives Stmt.SizedBelow (switchStmt p) := by
  have hheader : Gives SizedHeader (switchHeader p) :=
    step fun _ => .ite (.pure ⟨fun _ h => (nomatch h), fun _ h => nomatch h⟩) (header_sized hp)
  have hcases : ∀ ofTypes, Gives (fun cs => ∀ c ∈ cs, CaseClause.SizedIn ofTypes c) (clauses (caseClause p ofTypes)) :=
    fun ofTypes => clauses_gives (caseClause_sized hp ofTypes)
  refine step fun here => hheader.bind fun (init, tag) ⟨hinit, htag⟩ => ?_
  simp only [Stmt.SizedBelow] at hinit
  cases tag with
  | none =>
    refine (hcases false).bind fun cs hcs => .pure ?_
    simpa [nodesOfExpr?] using ⟨hinit, fun c hc => (hcs c hc).1⟩
  | some s =>
    refine .ite ((hcases true).bind fun cs hcs => .pure ?_)
      ((hcases false).bind fun cs hcs => (headerExpr_sized _ s (htag s rfl)).bind fun e he => .pure ?_)
    · have hs : Sized s.nodes := htag s rfl
      have htypes : ∀ t, ∀ c ∈ cs, t ∈ c.list.getD [] → t.infersLength = false := fun t c hc ht => (hcs c hc).2 rfl t ht
      simpa using ⟨htypes, hinit, hs, fun c hc => (hcs c hc).1⟩
    · simpa [nodesOfExpr?] using ⟨hinit, he, fun c hc => (hcs c hc).1⟩

theorem selectStmt_sized (hp : p.GiveSized) : Gives Stmt.SizedBelow (selectStmt p) := by
  have hcomm : Gives Stmt.SizedBelow (communication p) := by
    refine step fun here => (exprList_sized hp 0).bind fun (first, others) ⟨hfirst, hothers⟩ => step fun next => ?_
    have hreceive : Gives Stmt.SizedBelow (receive first others here.loc) := step fun _ => .pure (by simpa using hfirst)
    split
    · exact send_sized hp 0 first others here.loc hfirst
    · refine .ite (step fun _ => step fun _ => (expr_sized hp 0).bind fun e he => .pure ?_) hreceive
      simpa using ⟨⟨hfirst, hothers⟩, he⟩
    · exact hreceive
  have hclause : Gives (fun c : CommClause => Sized c.nodes) (commClause p) := by
    refine step fun here => (clauseLabel?_gives here hcomm).bind fun comm hcomm => step fun _ => ?_
    refine (statements_sized hp).bind fun body hbody => .pure ?_
    simpa [CommClause.nodes] using ⟨hcomm, hbody⟩
  exact step fun here => (clauses_gives hclause).bind fun cs hcs => .pure (by simpa using hcs)

theorem loopHeader_sized (hp : p.GiveSized) : Gives (fun h : LoopHeader => Sized h.nodes) (loopHeader p) := by
  have hclauses : ∀ init : Option Stmt, (∀ s ∈ init, Sized s.nodes) →
      Gives (fun h : LoopHeader => Sized h.nodes) (loopClauses p init) := fun init hinit =>
    step fun _ => (headerStmtBefore?_sized hp _).bind fun cond hcond => step fun _ =>
      (headerStmtBefore?_sized hp _).bind fun post hpost => .pure (by simpa using ⟨hinit, hcond, hpost⟩)
  have hfrom : Gives (fun h : LoopHeader => Sized h.nodes) (loopHeaderFrom p) := by
    refine (simple_sized hp _ _).bind fun s hs => ?_
    cases s with
    | range vars define operand => exact .pure (by simpa using hs)
    | stmt s => exact step fun _ => .ite (hclauses _ (by simpa using hs)) (.pure (by simpa [nodesOfStmt?] using hs))
  refine step fun _ => .ite (.pure (by simp)) (step fun _ => ?_)
  refine .ite ((expr_sized hp _).bind fun e he => .pure (by simpa [nodesOfExprs] using he)) (step fun _ => .ite ?_ hfrom)
  exact hclauses none fun _ h => nomatch h

theorem forStmt_sized (hp : p.GiveSized) : Gives Stmt.SizedBelow (forStmt p) := by
  refine step fun here => (loopHeader_sized hp).bind fun head hhead => (block_sized hp).bind fun body hbody => ?_
  split
  · next vars define operand =>
    obtain ⟨hvars, hoperand⟩ : (∀ e ∈ vars, Sized e.nodes) ∧ Sized operand.nodes := by simpa using hhead
    have hvar : ∀ (i : Nat), ∀ e ∈ vars[i]?, Sized e.nodes := fun i e he => hvars e (List.mem_of_getElem? he)
    refine .pure ?_
    simpa using ⟨fun e he => hvar 0 e (by simpa using he), fun e he => hvar 1 e (by simpa using he), hoperand, hbody⟩
  · next init post =>
    obtain ⟨hinit, hpost⟩ : (∀ s ∈ init, Sized s.nodes) ∧ ∀ s ∈ post, Sized s.nodes := by simpa [nodesOfStmt?] using hhead
    refine .pure ?_
    simpa [nodesOfExpr?] using ⟨hinit, hpost, hbody⟩
  · next init cond post =>
    obtain ⟨hinit, hcond, hpost⟩ : (∀ s ∈ init, Sized s.nodes) ∧ Sized cond.nodes ∧ ∀ s ∈ post, Sized s.nodes := by
      simpa [nodesOfStmt?] using hhead
    refine (headerExpr_sized _ cond hcond).bind fun e he => .pure ?_
    simpa [nodesOfExpr?] using ⟨hinit, he, hpost, hbody⟩

/-! ## All statements -/

theorem stmt_sized (hp : p.GiveSized) : Gives Stmt.SizedBelow (stmt p) := by
  have hbad : Gives Stmt.SizedBelow badStmt := step fun _ => step fun _ => step fun _ => .pure (by simp)
  have hsimple : Gives Stmt.SizedBelow (simpleStmt p .block 0) := simpleStmt_sized hp .block 0
  have hkeyword : ∀ keyword, Gives Stmt.SizedBelow (keywordStmt p keyword) := by
    intro keyword
    have hgroup : ∀ keyword, Gives Stmt.SizedBelow (do
        let here ← Parse.current
        return .declaration here.loc (← declGroup p keyword)) := fun keyword =>
      step fun _ => (declGroup_sized hp keyword).bind fun g hg => .pure (by simpa using hg)
    have hexprs : Gives (fun es => ∀ e ∈ es, e.SizedBelow) (exprs p) :=
      (exprList_sized hp 0).bind fun (e, es) h => .pure (List.forall_mem_cons.2 h)
    have hbranch : ∀ keyword, Gives Stmt.SizedBelow (branchStmt keyword) := fun keyword =>
      step fun _ => step fun _ => .ite (step fun label => .pure (by simp)) (.pure (by simp))
    unfold keywordStmt
    split
    · exact hgroup _
    · exact hgroup _
    · exact hgroup _
    · exact step fun _ => (expr_sized hp 0).bind fun e he => .pure (by simpa using he)
    · exact step fun _ => (expr_sized hp 0).bind fun e he => .pure (by simpa using he)
    · exact step fun _ => step fun _ => .ite (.pure (by simp)) (hexprs.bind fun es hes => .pure (by simpa using hes))
    · exact hbranch _
    · exact hbranch _
    · exact hbranch _
    · exact step fun _ => .pure (by simp)
    · exact ifStmt_sized hp
    · exact switchStmt_sized hp
    · exact selectStmt_sized hp
    · exact forStmt_sized hp
    · exact hsimple
    · exact hsimple
    · exact hsimple
    · exact hsimple
    · exact hsimple
    · exact hbad
  refine step fun here => ?_
  split
  · exact hkeyword _
  · refine (block_sized hp).map fun b hb => ?_
    obtain ⟨loc, stmts⟩ := b
    simpa using hb
  · exact .pure (by simp)
  · exact .pure (by simp)
  · exact .ite hsimple hbad

end Grammar

end GoSyntax

/-! ## Files -/

namespace GoSyntax

open Gives

theorem Productions.giveSized_exhausted : exhausted.GiveSized := by
  have hmissing : Gives (fun e : Expr => Sized e.nodes) missingOperand :=
    step fun _ => step fun _ => .pure (by simp [Expr.nodes, Node.typeParts, Expr.typeParts])
  refine ⟨.none_, fun _ => hmissing, fun _ => hmissing, fun _ => hmissing, step fun _ => step fun _ => .pure ?_⟩
  simp [Stmt.nodes, Node.typeParts, Stmt.typeParts]

theorem Productions.GiveSized.deepen {p : Productions} (hp : p.GiveSized) : p.deepen.GiveSized where
  type? := (Grammar.type?_sized hp false).weaken fun _ ht e he => ⟨(ht e he).1, (ht e he).2 rfl⟩
  expr := Grammar.expr_sized hp
  unary := Grammar.unary_sized hp
  elementValue := Grammar.elementValue_sized hp
  stmt := Grammar.stmt_sized hp

theorem Productions.giveSized_ofDepth (depth : Nat) : (ofDepth depth).GiveSized := by
  induction depth with
  | zero => exact giveSized_exhausted
  | succ depth ih => exact ih.deepen

namespace Grammar

variable {p : Productions}

theorem funcDecl_sized (hp : p.GiveSized) : Gives (fun f => ∀ loc, Sized (Decl.func loc f).nodes) (funcDecl p) := by
  have hreceiver : Gives (fun r => ∀ fields ∈ r, SizedFields fields) (receiver? p) :=
    step fun _ => .ite (parameters_sized hp false).some_ .none_
  have hbody : Gives (fun b => ∀ block ∈ b, ∀ s ∈ block.stmts, Sized s.nodes) (body? p) :=
    step fun _ => .ite (block_sized hp).some_ .none_
  refine step fun _ => hreceiver.bind fun receiver hreceiver => step fun name => (signature_sized hp).bind fun sig hsig => ?_
  refine hbody.bind fun body hbody => .pure fun loc => ?_
  have hblock : Sized (nodesOfBlock? body) := by
    cases body with
    | none => exact sized_nil
    | some b => exact (sized_block b).2 (hbody b rfl)
  cases receiver with
  | none => simpa [Decl.nodes, FuncDecl.nodes, nodesOfFields?, Node.typeParts, Decl.typeParts] using ⟨hsig.typeParts, hsig.nodes, hblock⟩
  | some fields =>
    obtain ⟨hnodes, hinfers⟩ := Expr.SizedType.fields.1 (hreceiver fields rfl)
    simp only [Decl.nodes, FuncDecl.nodes, nodesOfFields?, sized_cons, sized_append, sized_fields, Node.typeParts, Decl.typeParts,
      Option.getD_some, List.forall_mem_append, List.forall_mem_map]
    exact ⟨⟨hinfers, hsig.typeParts⟩, ⟨hnodes, fun _ h => absurd h List.not_mem_nil, hsig.nodes⟩, hblock⟩

theorem decl_sized (hp : p.GiveSized) : Gives (fun d : Decl => Sized d.nodes) (decl p) := by
  have hbad : Gives (fun d : Decl => Sized d.nodes) badDecl :=
    step fun _ => step fun _ => step fun _ => .pure (by simp [Decl.nodes, Node.typeParts, Decl.typeParts])
  refine step fun here => step fun before => ?_
  split
  · exact (funcDecl_sized hp).bind fun f hf => step fun _ => step fun _ => .pure (hf here.loc)
  · refine .ite ((declGroup_sized hp _).bind fun g hg => step fun _ => step fun _ => .pure ?_) hbad
    simpa [Decl.nodes, Node.typeParts, Decl.typeParts] using hg
  · exact hbad

theorem sourceFile_sized (hp : p.GiveSized) : Gives (fun f : SourceFile => Sized f.nodes) (sourceFile p) := by
  have hpass : ∀ decls, Gives (Keeps (fun d : Decl => Sized d.nodes) decls) (declPass p decls) := fun _ =>
    step fun _ => .ite (.pure id) ((decl_sized hp).bind fun d hd => .pure (keeps_push (P := fun d : Decl => Sized d.nodes) rfl hd))
  refine step fun here => step fun package => (collect hpass).bind fun decls hdecls => .pure ?_
  simp only [SourceFile.nodes, sized_cons, sized_flatMap, Node.typeParts]
  exact ⟨fun _ h => absurd h List.not_mem_nil, hdecls⟩

end Grammar

/-- Whatever is read and reported, no type in a file leaves its length open where only a type can stand, not even in parentheses or behind
a star. So each type that leaves it open stands directly below a node of the file that it is an operand of. -/
theorem lengths_open_in_operands (path : SourcePath) (bytes : List UInt8) :
    (∀ n ∈ (parseFile path bytes).tree.nodes, ∀ t ∈ n.typeParts, t.infersLength = false)
      ∧ ∀ e, .expr e ∈ (parseFile path bytes).tree.nodes → e.infersLength = true →
        ∃ n ∈ (parseFile path bytes).tree.nodes, e ∈ n.operandParts := by
  have hsized : Sized (parseFile path bytes).tree.nodes :=
    Grammar.sourceFile_sized (Productions.giveSized_ofDepth ((Feed.tokens path bytes).items.length + 1)) (.start path bytes)
  refine ⟨hsized, fun e he hopen => ?_⟩
  obtain ⟨n, hn, role, hpart⟩ := (parseFile path bytes).tree.exists_role he
  rcases Node.mem_parts hpart with htype | hoperand
  · rw [hsized n hn e htype] at hopen
    exact absurd hopen Bool.false_ne_true
  · exact ⟨n, hn, hoperand⟩

/-- In a file without a diagnostic a length may be left open though there is no composite literal. -/
theorem exists_length_open : ∃ (path : SourcePath) (bytes : List UInt8), (parseFile path bytes).diagnostics = []
    ∧ ((parseFile path bytes).tree.nodes.any fun n => match n with
      | .expr (.arrayType _ .inferred _) => true
      | _ => false) = true
    ∧ ((parseFile path bytes).tree.nodes.any fun n => match n with
      | .expr (.composite _ _ _) => true
      | _ => false) = false :=
  ⟨⟨0, "<input>"⟩, Utf8.encode "package p\nvar x = [...]int\n".toList, by decide +kernel, by decide +kernel, by decide +kernel⟩

end GoSyntax
