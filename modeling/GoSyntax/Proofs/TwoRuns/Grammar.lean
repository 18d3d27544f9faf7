import GoSyntax.Grammar.File
import GoSyntax.Proofs.Steps
import GoSyntax.Proofs.TwoRuns.Bond

/-!
# The grammar keeps every bond

Every production keeps a bond between two runs if the productions that it enters again do, so by induction on the depth all of them
do. Most productions are put together from bonded parsers in the ways that the instances know, and where one looks at what it has
read, each case is. Two things are left to do by hand. Brackets: what stands in them is read at a level one higher. And the parsers
that ask for the number of reports: the statements of a list, the members of a group and the declarations of a file.
-/

namespace GoSyntax

/-- Two sets of productions of which each two that correspond are bonded. -/
class Productions.AreBonded {ι : Type} (B : Bond ι) (p q : Productions) : Prop where
  type? : Bonded B 0 p.type? q.type?
  expr : ∀ level, Bonded B level (p.expr level) (q.expr level)
  unary : ∀ level, Bonded B level (p.unary level) (q.unary level)
  elementValue : ∀ level, Bonded B level (p.elementValue level) (q.elementValue level)
  stmt : Bonded B 0 p.stmt q.stmt

attribute [instance] Productions.AreBonded.expr Productions.AreBonded.unary Productions.AreBonded.elementValue

namespace Bonded

variable {ι : Type} {B : Bond ι} {level : Int} {α : Type} {p q : Productions} [h : p.AreBonded B q]

/-! ## Productions that do not know the level -/

instance productions_type? : Bonded B level p.type? q.type? := h.type?.of_ground
instance productions_expr_zero : Bonded B level (p.expr 0) (q.expr 0) := (h.expr 0).of_ground
instance productions_stmt : Bonded B level p.stmt q.stmt := h.stmt.of_ground

/-! ## Types -/

instance type : Bonded B level (Grammar.type p) (Grammar.type q) := by
  refine bind_of inferInstance fun t => ?_
  cases t <;> infer_instance

instance qualified (base : Name) :
    Bonded B level (Grammar.qualified base) (Grammar.qualified base) := by
  unfold Grammar.qualified
  infer_instance
instance typeName : Bonded B level Grammar.typeName Grammar.typeName := by unfold Grammar.typeName; infer_instance

instance givenLength (inferable : Bool) :
    Bonded B level (Grammar.givenLength p inferable) (Grammar.givenLength q inferable) := by
  unfold Grammar.givenLength
  infer_instance
instance arrayLength (inferable : Bool) :
    Bonded B level (Grammar.arrayLength p inferable) (Grammar.arrayLength q inferable) := by
  unfold Grammar.arrayLength
  infer_instance
instance arrayType (inferable : Bool) :
    Bonded B level (Grammar.arrayType p inferable) (Grammar.arrayType q inferable) := by
  unfold Grammar.arrayType
  infer_instance
instance mapType : Bonded B level (Grammar.mapType p) (Grammar.mapType q) := by unfold Grammar.mapType; infer_instance
instance channelDirection :
    Bonded B level Grammar.channelDirection Grammar.channelDirection := by
  unfold Grammar.channelDirection
  infer_instance
instance channelType :
    Bonded B level (Grammar.channelType p) (Grammar.channelType q) := by
  unfold Grammar.channelType
  infer_instance

/-! ## Parameters and signatures -/

instance variadicType (allowed : Bool) :
    Bonded B level (Grammar.variadicType p allowed) (Grammar.variadicType q allowed) := by
  unfold Grammar.variadicType
  infer_instance

instance parameterType? (variadic : Bool) :
    Bonded B level (Grammar.parameterType? p variadic) (Grammar.parameterType? q variadic) := by
  unfold Grammar.parameterType?
  infer_instance

instance parameterType (variadic : Bool) :
    Bonded B level (Grammar.parameterType p variadic) (Grammar.parameterType q variadic) := by
  refine bind_of inferInstance fun t => ?_
  cases t <;> infer_instance

instance nameOf (entry : Expr) : Bonded B level (Grammar.nameOf entry) (Grammar.nameOf entry) := by
  unfold Grammar.nameOf
  split <;> infer_instance

instance namesOf (entries : List Expr) : Bonded B level (Grammar.namesOf entries) (Grammar.namesOf entries) := by
  induction entries with
  | nil => exact Bonded.pure []
  | cons entry entries ih => unfold Grammar.namesOf; infer_instance

instance checkField (isLast : Bool) (field : Field) :
    Bonded B level (Grammar.checkField isLast field) (Grammar.checkField isLast field) := by
  unfold Grammar.checkField
  split <;> infer_instance

instance checkVariadic (fields : List Field) :
    Bonded B level (Grammar.checkVariadic fields) (Grammar.checkVariadic fields) := by
  induction fields with
  | nil => exact Bonded.pure ()
  | cons field fields ih => unfold Grammar.checkVariadic; infer_instance

instance checkFields (variadic : Bool) (fields : List Field) :
    Bonded B level (Grammar.checkFields variadic fields) (Grammar.checkFields variadic fields) := by
  unfold Grammar.checkFields
  infer_instance

instance entryPass (variadic : Bool) (entries : Array Expr) :
    Bonded B level (Grammar.entryPass p variadic entries) (Grammar.entryPass q variadic entries) := by
  unfold Grammar.entryPass
  infer_instance

instance parameterEntries (variadic : Bool) :
    Bonded B level (Grammar.parameterEntries p variadic) (Grammar.parameterEntries q variadic) := by
  unfold Grammar.parameterEntries
  infer_instance

instance parameterGroup (variadic : Bool) :
    Bonded B level (Grammar.parameterGroup p variadic) (Grammar.parameterGroup q variadic) := by
  unfold Grammar.parameterGroup
  infer_instance

instance groupPass (variadic : Bool) (groups : Array Field) :
    Bonded B level (Grammar.groupPass p variadic groups) (Grammar.groupPass q variadic groups) := by
  unfold Grammar.groupPass
  infer_instance

instance moreGroups (variadic : Bool) :
    Bonded B level (Grammar.moreGroups p variadic) (Grammar.moreGroups q variadic) := by
  unfold Grammar.moreGroups
  infer_instance

instance namedParameters (variadic : Bool) (entries : List Expr) (t : Expr) :
    Bonded B level (Grammar.namedParameters p variadic entries t) (Grammar.namedParameters q variadic entries t) := by
  unfold Grammar.namedParameters
  infer_instance

instance parameterList (variadic : Bool) :
    Bonded B level (Grammar.parameterList p variadic) (Grammar.parameterList q variadic) := by
  refine bind_of inferInstance fun entries => bind_of inferInstance fun t => ?_
  cases t <;> infer_instance

instance parameterFields (variadic : Bool) :
    Bonded B level (Grammar.parameterFields p variadic) (Grammar.parameterFields q variadic) := by
  unfold Grammar.parameterFields
  infer_instance

instance parameters (variadic : Bool) :
    Bonded B level (Grammar.parameters p variadic) (Grammar.parameters q variadic) := by
  unfold Grammar.parameters
  infer_instance

instance results : Bonded B level (Grammar.results p) (Grammar.results q) := by
  unfold Grammar.results
  refine bind_of inferInstance fun b => ?_
  split
  · infer_instance
  · refine bind_of inferInstance fun t => ?_
    cases t <;> infer_instance

instance signature : Bonded B level (Grammar.signature p) (Grammar.signature q) := by unfold Grammar.signature; infer_instance

/-! ## Bodies of structs and interfaces -/

instance resumeBody (items : Array α) :
    Bonded B level (Grammar.resumeBody items) (Grammar.resumeBody items) := by
  unfold Grammar.resumeBody
  infer_instance

instance itemPass (starts : TokenKind → Bool) {item item' : Parse α} [Bonded B level item item'] (missing : String → Fault)
    [∀ found, (missing found).Syntactic] (items : Array α) :
    Bonded B level (Grammar.itemPass starts item missing items) (Grammar.itemPass starts item' missing items) := by
  unfold Grammar.itemPass
  infer_instance

instance bodyItems (starts : TokenKind → Bool) {item item' : Parse α} [Bonded B level item item'] (missing : String → Fault)
    [∀ found, (missing found).Syntactic] :
    Bonded B level (Grammar.bodyItems starts item missing) (Grammar.bodyItems starts item' missing) := by
  unfold Grammar.bodyItems
  infer_instance

instance fieldType : Bonded B level (Grammar.fieldType p) (Grammar.fieldType q) := by unfold Grammar.fieldType; infer_instance
instance field : Bonded B level (Grammar.field p) (Grammar.field q) := by unfold Grammar.field; infer_instance
instance structType :
    Bonded B level (Grammar.structType p) (Grammar.structType q) := by
  unfold Grammar.structType
  infer_instance
instance interfaceElem :
    Bonded B level (Grammar.interfaceElem p) (Grammar.interfaceElem q) := by
  unfold Grammar.interfaceElem
  infer_instance
instance interfaceType :
    Bonded B level (Grammar.interfaceType p) (Grammar.interfaceType q) := by
  unfold Grammar.interfaceType
  infer_instance

instance functionType :
    Bonded B level (Grammar.functionType p) (Grammar.functionType q) := by
  unfold Grammar.functionType
  infer_instance
instance parenType : Bonded B level (Grammar.parenType p) (Grammar.parenType q) := by unfold Grammar.parenType; infer_instance
instance pointerType :
    Bonded B level (Grammar.pointerType p) (Grammar.pointerType q) := by
  unfold Grammar.pointerType
  infer_instance

instance type? (inferable : Bool) : Bonded B level (Grammar.type? p inferable) (Grammar.type? q inferable) := by
  refine bind_of inferInstance fun here => ?_
  split <;> infer_instance

/-! ## Statements in braces -/

instance isAtStatementsEnd :
    Bonded B level Grammar.isAtStatementsEnd Grammar.isAtStatementsEnd := by
  unfold Grammar.isAtStatementsEnd
  infer_instance

/-- A `;` that is missing is reported unless the statement before it has been; both runs skip alike. -/
theorem resumeStatements_together {i : ι} {n n' : Nat} (hi : B.scope level i) (hbase : B.base i n n') :
    Together (B.holds i) (Grammar.resumeStatements n) (Grammar.resumeStatements n') (B.holds i) := by
  refine (reportMissing_together hi hbase _).bind fun _ => ?_
  exact (bind_of (skipTo Recovery.statement) inferInstance).together i hi

instance statementPass (stmts : Array Stmt) :
    Bonded B level (Grammar.statementPass p stmts) (Grammar.statementPass q stmts) := by
  refine bind_of inferInstance fun atEnd => ?_
  split
  · infer_instance
  · refine since fun i n n' hi hbase => ?_
    refine (together i hi).bind fun stmt => (together i hi).bind fun ended => ?_
    split
    · exact together i hi
    · exact (resumeStatements_together hi hbase).bind fun _ => together i hi

instance statements :
    Bonded B level (Grammar.statements p) (Grammar.statements q) := by
  unfold Grammar.statements
  infer_instance
instance block : Bonded B level (Grammar.block p) (Grammar.block q) := by unfold Grammar.block; infer_instance

/-! ## Expressions -/

instance sliceBound :
    Bonded B level (Grammar.sliceBound p level) (Grammar.sliceBound q level) := by
  unfold Grammar.sliceBound
  infer_instance

instance requireBound (bound : Option Expr) (reason : String) (loc : Location) :
    Bonded B level (Grammar.requireBound bound reason loc) (Grammar.requireBound bound reason loc) := by
  unfold Grammar.requireBound
  infer_instance

instance sliceFrom (operand : Expr) (low : Option Expr) :
    Bonded B level (Grammar.sliceFrom p level operand low) (Grammar.sliceFrom q level operand low) := by
  refine bind_of inferInstance fun _ => bind_of inferInstance fun high => bind_of inferInstance fun hasMax => ?_
  split <;> infer_instance

instance indexFrom (operand low : Expr) :
    Bonded B level (Grammar.indexFrom p level operand low) (Grammar.indexFrom q level operand low) := by
  unfold Grammar.indexFrom
  infer_instance

instance argument :
    Bonded B level (Grammar.argument p level) (Grammar.argument q level) := by
  unfold Grammar.argument
  infer_instance
instance element :
    Bonded B level (Grammar.element p level) (Grammar.element q level) := by
  unfold Grammar.element
  infer_instance

instance assertedType? :
    Bonded B level (Grammar.assertedType? p) (Grammar.assertedType? q) := by
  unfold Grammar.assertedType?
  infer_instance

instance selectorOrAssertion (operand : Expr) :
    Bonded B level (Grammar.selectorOrAssertion p operand) (Grammar.selectorOrAssertion q operand) := by
  unfold Grammar.selectorOrAssertion
  infer_instance

/-! ### Brackets -/

section Brackets

variable {i : ι}

/-- The next token of the first run is of this kind. -/
def AtKind (B : Bond ι) (i : ι) (kind : TokenKind) (c c' : Cursor) : Prop := B.holds i c c' ∧ c.here.kind = kind

theorem AtKind.opens {mark : Punctuation} (h : (TokenKind.punctuation mark).opens = true) {c c' : Cursor}
    (hc : AtKind B i (.punctuation mark) c c') : B.holds i c c' ∧ c.here.kind.opens = true := ⟨hc.1, hc.2.symm ▸ h⟩

/-- Where the next token has been looked at, its kind is known. -/
theorem atKind_of_here {here : Token} {kind : TokenKind} (hkind : here.kind = kind) {c c' : Cursor}
    (hc : B.holds i c c' ∧ c.here = here) : AtKind B i kind c c' := ⟨hc.1, hc.2.symm ▸ hkind⟩

theorem indexOrSlice_together (hi : B.scope level i) (operand : Expr) : Together (AtKind B i Punctuation.lBracket)
    (Grammar.indexOrSlice p level operand) (Grammar.indexOrSlice q level operand) (B.holds i) :=
  (within (fun _ => inferInstance) hi).conseq (fun _ _ hc => hc.opens rfl) fun _ _ h => h

theorem call_together (hi : B.scope level i) (callee : Expr) : Together (AtKind B i Punctuation.lParen)
    (Grammar.call p level callee) (Grammar.call q level callee) (B.holds i) :=
  (within (fun _ => inferInstance) hi).conseq (fun _ _ hc => hc.opens rfl) fun _ _ h => h

theorem parenExpr_together (hi : B.scope level i) : Together (AtKind B i Punctuation.lParen)
    (Grammar.parenExpr p level) (Grammar.parenExpr q level) (B.holds i) :=
  (within (fun _ => inferInstance) hi).conseq (fun _ _ hc => hc.opens rfl) fun _ _ h => h

theorem composite_together (hi : B.scope level i) (t : Option Expr) : Together (AtKind B i Punctuation.lBrace)
    (Grammar.composite p level t) (Grammar.composite q level t) (B.holds i) := by
  refine Together.bind (Q := AtKind B i Punctuation.lBrace) (fun c c' hc => ?_) fun here => ?_
  · exact ⟨(B.peek hc.1 0).1, (B.peek hc.1 0).2, (congrArg Token.kind (Cursor.here_peek 0 c)).trans hc.2⟩
  · exact expect_within rfl (fun _ => inferInstance) hi

end Brackets

instance suffix (operand : Expr) : Bonded B level (Grammar.suffix p level operand) (Grammar.suffix q level operand) := by
  refine ⟨fun i hi => current_bind fun here => ?_⟩
  split
  · exact (together i hi).conseq (fun _ _ hc => hc.1) fun _ _ hc => hc
  · next hkind => exact (indexOrSlice_together hi operand).map.conseq (fun _ _ hc => atKind_of_here hkind hc) fun _ _ hc => hc
  · next hkind => exact (call_together hi operand).map.conseq (fun _ _ hc => atKind_of_here hkind hc) fun _ _ hc => hc
  · next hkind =>
    split
    · exact (composite_together hi (some operand)).map.conseq (fun _ _ hc => atKind_of_here hkind hc) fun _ _ hc => hc
    · exact .pure _ fun _ _ hc => hc.1
  · exact .pure _ fun _ _ hc => hc.1

instance suffixes (operand : Expr) : Bonded B level (Grammar.suffixes p level operand) (Grammar.suffixes q level operand) := by
  unfold Grammar.suffixes
  infer_instance

instance functionOrType :
    Bonded B level (Grammar.functionOrType p) (Grammar.functionOrType q) := by
  unfold Grammar.functionOrType
  infer_instance
instance typeOperand : Bonded B level (Grammar.typeOperand p) (Grammar.typeOperand q) := by
  refine bind_of inferInstance fun t => ?_
  cases t <;> infer_instance

instance operand : Bonded B level (Grammar.operand p level) (Grammar.operand q level) := by
  refine ⟨fun i hi => current_bind fun here => ?_⟩
  split
  · exact (together i hi).conseq (fun _ _ hc => hc.1) fun _ _ hc => hc
  · exact (together i hi).conseq (fun _ _ hc => hc.1) fun _ _ hc => hc
  · next hkind => exact (parenExpr_together hi).conseq (fun _ _ hc => atKind_of_here hkind hc) fun _ _ hc => hc
  · exact (together i hi).conseq (fun _ _ hc => hc.1) fun _ _ hc => hc
  · exact (together i hi).conseq (fun _ _ hc => hc.1) fun _ _ hc => hc

instance primary :
    Bonded B level (Grammar.primary p level) (Grammar.primary q level) := by
  unfold Grammar.primary
  infer_instance

instance prefixed (op : Operator) : Bonded B level (Grammar.prefixed p level op) (Grammar.prefixed q level op) := by
  unfold Grammar.prefixed
  infer_instance

instance unary : Bonded B level (Grammar.unary p level) (Grammar.unary q level) := by
  refine bind_of inferInstance fun here => ?_
  split <;> infer_instance

instance binaryPass (family : Operator.Family) {operand operand' : Parse Expr} [Bonded B level operand operand'] (left : Expr) :
    Bonded B level (Grammar.binaryPass family operand left) (Grammar.binaryPass family operand' left) := by
  refine bind_of inferInstance fun here => ?_
  split <;> infer_instance

instance binaryLevel (family : Operator.Family) {operand operand' : Parse Expr} [Bonded B level operand operand'] :
    Bonded B level (Grammar.binaryLevel family operand) (Grammar.binaryLevel family operand') := by
  unfold Grammar.binaryLevel
  infer_instance

instance expr : Bonded B level (Grammar.expr p level) (Grammar.expr q level) := by
  unfold Grammar.expr Grammar.binaryFamilies
  simp only [List.foldr_cons, List.foldr_nil]
  infer_instance

instance exprList :
    Bonded B level (Grammar.exprList p level) (Grammar.exprList q level) := by
  unfold Grammar.exprList
  infer_instance
instance elementValue : Bonded B level (Grammar.elementValue p level) (Grammar.elementValue q level) := by
  refine ⟨fun i hi => ?_⟩
  change Together _
    (Parse.current >>= fun here => if here.kind.sameKind Punctuation.lBrace then Grammar.composite p level none else Grammar.expr p level)
    (Parse.current >>= fun here => if here.kind.sameKind Punctuation.lBrace then Grammar.composite q level none else Grammar.expr q level) _
  refine current_bind fun here => ?_
  by_cases hbrace : here.kind.sameKind Punctuation.lBrace = true
  · rw [if_pos hbrace, if_pos hbrace]
    have hkind := (TokenKind.Bare.sameKind_iff here.kind).1 hbrace
    exact (composite_together hi none).conseq (fun _ _ hc => atKind_of_here hkind hc) fun _ _ hc => hc
  · rw [if_neg hbrace, if_neg hbrace]
    exact (together i hi).conseq (fun _ _ hc => hc.1) fun _ _ hc => hc

/-! ## Simple statements -/

instance checkAtMost (limit : Nat) (context : String) (found : Nat) (loc : Location) :
    Bonded B level (Grammar.checkAtMost limit context found loc) (Grammar.checkAtMost limit context found loc) := by
  unfold Grammar.checkAtMost
  infer_instance

/-- What is wrong with an assignment lies in the order of the tokens. -/
theorem syntactic_assignmentFault (op : Operator) (targets values : Nat) :
    ∀ fault ∈ Grammar.assignmentFault? op targets values, fault.Syntactic := by
  intro fault h
  unfold Grammar.assignmentFault? at h
  split at h
  · split at h
    · obtain rfl := Option.some.inj h
      infer_instance
    · nomatch h
  · split at h
    · obtain rfl := Option.some.inj h
      infer_instance
    · split at h
      · obtain rfl := Option.some.inj h
        infer_instance
      · nomatch h

instance checkAssignment (op : Operator) (targets values : Nat) (loc : Location) :
    Bonded B level (Grammar.checkAssignment op targets values loc) (Grammar.checkAssignment op targets values loc) := by
  unfold Grammar.checkAssignment
  split
  · next fault h =>
    have := syntactic_assignmentFault op targets values fault h
    infer_instance
  · infer_instance

instance rangeClause (vars : List Expr) (define : Bool) (loc : Location) :
    Bonded B level (Grammar.rangeClause p level vars define loc) (Grammar.rangeClause q level vars define loc) := by
  unfold Grammar.rangeClause
  infer_instance

instance assignment (op : Operator) (targets : List Expr) (loc : Location) :
    Bonded B level (Grammar.assignment p level op targets loc) (Grammar.assignment q level op targets loc) := by
  unfold Grammar.assignment
  infer_instance

instance assignmentOrRange (position : Grammar.SimplePosition) (op : Operator) (targets : List Expr) (loc : Location) :
    Bonded B level (Grammar.assignmentOrRange p position level op targets loc)
    (Grammar.assignmentOrRange q position level op targets loc) := by
  unfold Grammar.assignmentOrRange
  infer_instance

instance send (channel : Expr) (others : List Expr) (loc : Location) :
    Bonded B level (Grammar.send p level channel others loc) (Grammar.send q level channel others loc) := by
  unfold Grammar.send
  infer_instance

instance incDec (op : Operator) (operand : Expr) (others : List Expr) (loc : Location) :
    Bonded B level (Grammar.incDec op operand others loc) (Grammar.incDec op operand others loc) := by
  unfold Grammar.incDec
  infer_instance

instance labeled (label : Name) (loc : Location) :
    Bonded B level (Grammar.labeled p label loc) (Grammar.labeled q label loc) := by
  unfold Grammar.labeled
  infer_instance

instance alone (first : Expr) (others : List Expr) (loc : Location) :
    Bonded B level (Grammar.alone first others loc) (Grammar.alone first others loc) := by
  unfold Grammar.alone
  infer_instance

instance bare (position : Grammar.SimplePosition) (first : Expr) (others : List Expr) (loc : Location) :
    Bonded B level (Grammar.bare p position first others loc) (Grammar.bare q position first others loc) := by
  unfold Grammar.bare
  split <;> infer_instance

instance simpleBy (position : Grammar.SimplePosition) (op : Operator) (first : Expr) (others : List Expr)
    (loc : Location) :
    Bonded B level (Grammar.simpleBy p position level op first others loc) (Grammar.simpleBy q position level op first others loc) := by
  unfold Grammar.simpleBy
  split <;> infer_instance

instance simpleFrom (position : Grammar.SimplePosition) (first : Expr) (others : List Expr) (loc : Location) :
    Bonded B level (Grammar.simpleFrom p position level first others loc) (Grammar.simpleFrom q position level first others loc) := by
  refine bind_of inferInstance fun here => ?_
  split <;> infer_instance

instance simple (position : Grammar.SimplePosition) :
    Bonded B level (Grammar.simple p position level) (Grammar.simple q position level) := by
  unfold Grammar.simple
  infer_instance

instance simpleStmt (position : Grammar.SimplePosition) :
    Bonded B level (Grammar.simpleStmt p position level) (Grammar.simpleStmt q position level) := by
  refine bind_of inferInstance fun here => bind_of inferInstance fun s => ?_
  cases s <;> infer_instance

/-! ## Control statements -/

instance headerExpr (what : String) (s : Stmt) : Bonded B 0 (Grammar.headerExpr what s) (Grammar.headerExpr what s) := by
  unfold Grammar.headerExpr
  split <;> infer_instance

instance headerStmt : Bonded B 0 (Grammar.headerStmt p) (Grammar.headerStmt q) := of_header (simpleStmt .header)
instance headerStmtBefore? (stop : TokenKind) :
    Bonded B 0 (Grammar.headerStmtBefore? p stop) (Grammar.headerStmtBefore? q stop) := by
  unfold Grammar.headerStmtBefore?
  infer_instance

instance header : Bonded B 0 (Grammar.header p) (Grammar.header q) := by unfold Grammar.header; infer_instance
instance missingCondition :
    Bonded B 0 Grammar.missingCondition Grammar.missingCondition := by
  unfold Grammar.missingCondition
  infer_instance

instance ifHeader : Bonded B 0 (Grammar.ifHeader p) (Grammar.ifHeader q) := by
  refine bind_of inferInstance fun b => ?_
  split
  · infer_instance
  · refine bind_of inferInstance fun r => ?_
    obtain ⟨init, cond⟩ := r
    cases cond <;> infer_instance

instance otherwise : Bonded B 0 (Grammar.otherwise p) (Grammar.otherwise q) := by unfold Grammar.otherwise; infer_instance
instance ifStmt : Bonded B 0 (Grammar.ifStmt p) (Grammar.ifStmt q) := by unfold Grammar.ifStmt; infer_instance

instance clausePass {clause clause' : Parse α} [Bonded B 0 clause clause'] (list : Array α) :
    Bonded B 0 (Grammar.clausePass clause list) (Grammar.clausePass clause' list) := by
  unfold Grammar.clausePass
  infer_instance

instance clauses {clause clause' : Parse α} [Bonded B 0 clause clause'] :
    Bonded B 0 (Grammar.clauses clause) (Grammar.clauses clause') := by
  unfold Grammar.clauses
  infer_instance

instance clauseLabel? (here : Token) {label label' : Parse α} [Bonded B 0 label label'] :
    Bonded B 0 (Grammar.clauseLabel? here label) (Grammar.clauseLabel? here label') := by
  unfold Grammar.clauseLabel?
  infer_instance

instance types : Bonded B 0 (Grammar.types p) (Grammar.types q) := by unfold Grammar.types; infer_instance
instance exprs : Bonded B 0 (Grammar.exprs p) (Grammar.exprs q) := by unfold Grammar.exprs; infer_instance
instance caseList (ofTypes : Bool) :
    Bonded B 0 (Grammar.caseList p ofTypes) (Grammar.caseList q ofTypes) := by
  unfold Grammar.caseList
  infer_instance
instance caseClause (ofTypes : Bool) :
    Bonded B 0 (Grammar.caseClause p ofTypes) (Grammar.caseClause q ofTypes) := by
  unfold Grammar.caseClause
  infer_instance
instance switchHeader :
    Bonded B 0 (Grammar.switchHeader p) (Grammar.switchHeader q) := by
  unfold Grammar.switchHeader
  infer_instance

instance valueSwitch (loc : Location) (init : Option Stmt) (tag : Stmt) :
    Bonded B 0 (Grammar.valueSwitch p loc init tag) (Grammar.valueSwitch q loc init tag) := by
  unfold Grammar.valueSwitch
  infer_instance

instance switchStmt : Bonded B 0 (Grammar.switchStmt p) (Grammar.switchStmt q) := by
  refine bind_of inferInstance fun here => bind_of inferInstance fun r => ?_
  obtain ⟨init, tag⟩ := r
  cases tag <;> infer_instance

instance receiveInto (op : Operator) (targets : List Expr) (loc : Location) :
    Bonded B 0 (Grammar.receiveInto p op targets loc) (Grammar.receiveInto q op targets loc) := by
  unfold Grammar.receiveInto
  infer_instance

instance receive (first : Expr) (others : List Expr) (loc : Location) :
    Bonded B 0 (Grammar.receive first others loc) (Grammar.receive first others loc) := by
  unfold Grammar.receive
  infer_instance

instance communicationFrom (first : Expr) (others : List Expr) (loc : Location) :
    Bonded B 0 (Grammar.communicationFrom p first others loc) (Grammar.communicationFrom q first others loc) := by
  refine bind_of inferInstance fun here => ?_
  split <;> infer_instance

instance communication :
    Bonded B 0 (Grammar.communication p) (Grammar.communication q) := by
  unfold Grammar.communication
  infer_instance
instance commClause : Bonded B 0 (Grammar.commClause p) (Grammar.commClause q) := by unfold Grammar.commClause; infer_instance
instance selectStmt : Bonded B 0 (Grammar.selectStmt p) (Grammar.selectStmt q) := by unfold Grammar.selectStmt; infer_instance
instance loopClauses (init : Option Stmt) :
    Bonded B 0 (Grammar.loopClauses p init) (Grammar.loopClauses q init) := by
  unfold Grammar.loopClauses
  infer_instance

instance loopHeaderFrom : Bonded B 0 (Grammar.loopHeaderFrom p) (Grammar.loopHeaderFrom q) := by
  refine bind_of (of_header (simple .loopHeader)) fun s => ?_
  cases s <;> infer_instance

instance loopHeader : Bonded B 0 (Grammar.loopHeader p) (Grammar.loopHeader q) := by
  have hrange : Bonded B 0 (Grammar.expr p (-1)) (Grammar.expr q (-1)) := of_header expr
  unfold Grammar.loopHeader
  infer_instance

instance forStmt : Bonded B 0 (Grammar.forStmt p) (Grammar.forStmt q) := by
  refine bind_of inferInstance fun here => bind_of inferInstance fun head => bind_of inferInstance fun body => ?_
  split <;> infer_instance

/-! ## Specifications -/

instance importName? : Bonded B 0 Grammar.importName? Grammar.importName? := by unfold Grammar.importName?; infer_instance

instance importPath : Bonded B 0 Grammar.importPath Grammar.importPath := by
  refine bind_of inferInstance fun path => ?_
  cases path <;> infer_instance

instance importSpec : Bonded B 0 Grammar.importSpec Grammar.importSpec := by unfold Grammar.importSpec; infer_instance

instance missingValues (required : Bool) : Bonded B 0 (Grammar.missingValues required) (Grammar.missingValues required) := by
  unfold Grammar.missingValues
  infer_instance

instance specValues (required : Bool) :
    Bonded B 0 (Grammar.specValues p required) (Grammar.specValues q required) := by
  unfold Grammar.specValues
  infer_instance

instance valueSpec (keyword : Keyword) (isFirst : Bool) (loc : Location) :
    Bonded B 0 (Grammar.valueSpec p keyword isFirst loc) (Grammar.valueSpec q keyword isFirst loc) := by
  unfold Grammar.valueSpec
  infer_instance

instance typeSpec (loc : Location) :
    Bonded B 0 (Grammar.typeSpec p loc) (Grammar.typeSpec q loc) := by
  unfold Grammar.typeSpec
  infer_instance

instance spec (keyword : Keyword) (isFirst : Bool) :
    Bonded B 0 (Grammar.spec p keyword isFirst) (Grammar.spec q keyword isFirst) := by
  refine bind_of inferInstance fun here => ?_
  split <;> infer_instance

instance nextMember (specs : Array Spec) :
    Bonded B 0 (Grammar.nextMember specs) (Grammar.nextMember specs) := by
  unfold Grammar.nextMember
  infer_instance

/-- The end of a malformed member is reported as missing unless the member has been; both runs skip alike. -/
theorem resumeGroup_together {i : ι} {n n' : Nat} (hi : B.scope 0 i) (hbase : B.base i n n') (specs : Array Spec) :
    Together (B.holds i) (Grammar.resumeGroup n specs) (Grammar.resumeGroup n' specs) (B.holds i) := by
  have hskip : Bonded B 0 (Parse.skipTo Recovery.group >>= fun _ => Grammar.nextMember specs)
      (Parse.skipTo Recovery.group >>= fun _ => Grammar.nextMember specs) := inferInstance
  exact (reportMissing_together hi hbase _).bind fun _ => hskip.together i hi

instance specPass (keyword : Keyword) (group : Array Spec × Bool) :
    Bonded B 0 (Grammar.specPass p keyword group) (Grammar.specPass q keyword group) := by
  refine bind_of inferInstance fun here => ?_
  split
  · infer_instance
  · refine since fun i n n' hi hbase => ?_
    split
    · refine (together i hi).bind fun spec => (together i hi).bind fun ended => ?_
      split
      · exact together i hi
      · exact resumeGroup_together hi hbase _
    · exact resumeGroup_together hi hbase _

instance closeGroup (closes : Bool) :
    Bonded B 0 (Grammar.closeGroup closes) (Grammar.closeGroup closes) := by
  unfold Grammar.closeGroup
  infer_instance
instance specGroup (keyword : Keyword) :
    Bonded B 0 (Grammar.specGroup p keyword) (Grammar.specGroup q keyword) := by
  unfold Grammar.specGroup
  infer_instance
instance declGroup (keyword : Keyword) :
    Bonded B 0 (Grammar.declGroup p keyword) (Grammar.declGroup q keyword) := by
  unfold Grammar.declGroup
  infer_instance

/-! ## Statements -/

instance badStmt : Bonded B 0 Grammar.badStmt Grammar.badStmt := by unfold Grammar.badStmt; infer_instance
instance returnStmt : Bonded B 0 (Grammar.returnStmt p) (Grammar.returnStmt q) := by unfold Grammar.returnStmt; infer_instance
instance branchStmt (keyword : Keyword) :
    Bonded B 0 (Grammar.branchStmt keyword) (Grammar.branchStmt keyword) := by
  unfold Grammar.branchStmt
  infer_instance

instance keywordStmt (keyword : Keyword) : Bonded B 0 (Grammar.keywordStmt p keyword) (Grammar.keywordStmt q keyword) := by
  unfold Grammar.keywordStmt
  split <;> infer_instance

instance stmt : Bonded B 0 (Grammar.stmt p) (Grammar.stmt q) := by
  refine bind_of inferInstance fun here => ?_
  split <;> infer_instance

/-! ## Declarations and files -/

/-- The `;` behind a declaration is asked for in both runs, and reported unless the declaration has been. -/
theorem declEnd_together {i : ι} (hi : B.scope level i) {quiet quiet' : Bool} : Together (Heard B i quiet quiet')
    (Grammar.declEnd quiet) (Grammar.declEnd quiet') (B.holds i) := by
  have haccept : Bonded B level (Parse.accept Punctuation.semicolon) (Parse.accept Punctuation.semicolon) := inferInstance
  refine (haccept.heard hi).bind fun accepted => ?_
  cases accepted with
  | true => exact .pure () fun _ _ h => h.holds
  | false => exact (missing_together hi _).bind fun _ => together i hi

/-- The `;` behind a declaration that started at the base. -/
theorem reports_declEnd_together {β : Type} {i : ι} {n n' : Nat} (hi : B.scope level i) (hbase : B.base i n n') {k k' : Unit → Parse β}
    [hk : ∀ u, Bonded B level (k u) (k' u)] : Together (B.holds i)
    (Parse.reports >>= fun now => Grammar.declEnd (n < now) >>= k) (Parse.reports >>= fun now => Grammar.declEnd (n' < now) >>= k')
    (B.holds i) := by
  intro c c' h
  have hnow : ∀ (n : Nat) (k : Unit → Parse β) (d : Cursor), (Parse.reports >>= fun now => Grammar.declEnd (n < now) >>= k) d
      = (Grammar.declEnd (n < d.log.size) >>= k) d := fun _ _ _ => rfl
  rw [hnow, hnow]
  exact (declEnd_together hi).bind (fun u => (hk u).together i hi) c c' (heard_of_base hbase h)

instance declEnd (quiet : Bool) :
    Bonded B 0 (Grammar.declEnd quiet) (Grammar.declEnd quiet) := by
  unfold Grammar.declEnd Grammar.missingEnd
  infer_instance
instance receiver? : Bonded B 0 (Grammar.receiver? p) (Grammar.receiver? q) := by unfold Grammar.receiver?; infer_instance
instance body? : Bonded B 0 (Grammar.body? p) (Grammar.body? q) := by unfold Grammar.body?; infer_instance
instance funcDecl : Bonded B 0 (Grammar.funcDecl p) (Grammar.funcDecl q) := by unfold Grammar.funcDecl; infer_instance
instance badDecl : Bonded B 0 Grammar.badDecl Grammar.badDecl := by unfold Grammar.badDecl; infer_instance

instance decl : Bonded B 0 (Grammar.decl p) (Grammar.decl q) := by
  refine bind_of inferInstance fun here => since fun i n n' hi hbase => ?_
  split
  · exact (together i hi).bind fun func => reports_declEnd_together hi hbase
  · split
    · exact (together i hi).bind fun group => reports_declEnd_together hi hbase
    · exact together i hi
  · exact together i hi

instance packageClause :
    Bonded B 0 Grammar.packageClause Grammar.packageClause := by
  unfold Grammar.packageClause
  infer_instance
instance declPass (decls : Array Decl) :
    Bonded B 0 (Grammar.declPass p decls) (Grammar.declPass q decls) := by
  unfold Grammar.declPass
  infer_instance
instance sourceFile : Bonded B 0 (Grammar.sourceFile p) (Grammar.sourceFile q) := by unfold Grammar.sourceFile; infer_instance

/-! ## Fragments -/

instance fragmentEnd : Bonded B level Grammar.fragmentEnd Grammar.fragmentEnd := by unfold Grammar.fragmentEnd; infer_instance

instance exprFragment : Bonded B 0 (Grammar.exprFragment p) (Grammar.exprFragment q) := by
  unfold Grammar.exprFragment
  infer_instance

instance stmtFragment : Bonded B 0 (Grammar.stmtFragment p) (Grammar.stmtFragment q) := by
  unfold Grammar.stmtFragment
  infer_instance

end Bonded

namespace Productions

variable {ι : Type} {B : Bond ι} {p q : Productions}

instance areBonded_exhausted : exhausted.AreBonded B exhausted where
  type? := Bonded.pure none
  expr _ := by unfold exhausted missingOperand; infer_instance
  unary _ := by unfold exhausted missingOperand; infer_instance
  elementValue _ := by unfold exhausted missingOperand; infer_instance
  stmt := by unfold exhausted missingStmt; infer_instance

theorem AreBonded.deepen (h : p.AreBonded B q) : p.deepen.AreBonded B q.deepen where
  type? := Bonded.type? false
  expr _ := Bonded.expr
  unary _ := Bonded.unary
  elementValue _ := Bonded.elementValue
  stmt := Bonded.stmt

end Productions

end GoSyntax
