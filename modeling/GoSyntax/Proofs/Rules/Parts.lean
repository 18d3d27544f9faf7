import GoSyntax.Proofs.Canonical.InGrammar
import GoSyntax.Proofs.TreeTally
import GoSyntax.Tree.Rules

/-!
# Rules kept by all nodes

A tree keeps the rules if each of its nodes does, which comes down to the trees below its root and to what the root asks of them. There
is an equation for each constructor. An expression is sound in a role if its tree keeps the rules and it suits the role.
-/

namespace GoSyntax

/-- Something holds of each part in its role. -/
def Each (P : Role → Expr → Prop) (parts : List (Role × Expr)) : Prop := ∀ part ∈ parts, P part.1 part.2

/-- All nodes keep the rules. -/
def KeepRules (ns : List Node) : Prop := ∀ n ∈ ns, n.KeepsRules

/-- All nodes of an expression keep the rules, and it suits its role. -/
def Expr.Sound (role : Role) (e : Expr) : Prop := KeepRules e.nodes ∧ e.Suits role

/-- The types of a signature are sound in their roles, and its fields are named alike. -/
structure Signature.Sound (s : Signature) : Prop where
  types : Each Expr.Sound s.parts
  params : namedAlike s.params
  results : namedAlike s.results

/-- The specifications of a declaration keep the rules, and they go together. -/
structure DeclGroup.Sound (g : DeclGroup) : Prop where
  specs : ∀ s ∈ g.specs, KeepRules s.nodes
  coheres : g.Coheres

/-! ## Roles -/

section Each

variable {P Q : Role → Expr → Prop}

@[simp] theorem each_nil : Each P [] := fun _ h => nomatch h

@[simp] theorem each_cons (role : Role) (e : Expr) (parts : List (Role × Expr)) :
    Each P ((role, e) :: parts) ↔ P role e ∧ Each P parts := by
  simp [Each]

@[simp] theorem each_append (parts others : List (Role × Expr)) : Each P (parts ++ others) ↔ Each P parts ∧ Each P others := by
  simp only [Each, List.mem_append, or_imp, forall_and]

@[simp] theorem each_map (role : Role) (es : List Expr) : Each P (es.map fun e => (role, e)) ↔ ∀ e ∈ es, P role e := by
  simp only [Each, List.forall_mem_map]

@[simp] theorem each_plainly (es : List Expr) : Each P (plainly es) ↔ ∀ e ∈ es, P .plain e := each_map _ _

@[simp] theorem each_fieldParts (fields : List Field) : Each P (fieldParts fields) ↔ ∀ f ∈ fields, P .plain f.type := by
  simp [fieldParts]

/-- What has nothing to do with roles holds of the types of all parameters. -/
theorem each_parameterParts (P : Expr → Prop) (fields : List Field) :
    Each (fun _ => P) (parameterParts fields) ↔ ∀ f ∈ fields, P f.type := by
  induction fields with
  | nil => simp [parameterParts]
  | cons f fields ih => simp [parameterParts, ih]

theorem each_and (parts : List (Role × Expr)) :
    Each (fun role e => P role e ∧ Q role e) parts ↔ Each P parts ∧ Each Q parts := by
  simp only [Each, imp_and, forall_and]

end Each

theorem Expr.suits_of_plain {role : Role} {e : Expr} (h : e.Suits .plain) : e.Suits role := by
  unfold Suits at h ⊢
  split <;> simp_all

theorem Expr.Sound.of_plain {role : Role} {e : Expr} (h : e.Sound .plain) : e.Sound role := ⟨h.1, suits_of_plain h.2⟩

/-! ## Nodes -/

@[simp] theorem keepRules_nil : KeepRules [] := fun _ h => nomatch h

@[simp] theorem keepRules_cons (n : Node) (ns : List Node) : KeepRules (n :: ns) ↔ n.KeepsRules ∧ KeepRules ns := by
  simp [KeepRules]

@[simp] theorem keepRules_append (ms ns : List Node) : KeepRules (ms ++ ns) ↔ KeepRules ms ∧ KeepRules ns := by
  simp only [KeepRules, List.mem_append, or_imp, forall_and]

theorem keepRules_flatMap {α : Type} (f : α → List Node) (as : List α) :
    KeepRules (as.flatMap f) ↔ ∀ a ∈ as, KeepRules (f a) := by
  simp only [KeepRules, List.mem_flatMap]
  grind

/-- A node and all below it keep the rules if its parts are sound, it asks for no more, and the rest below it keeps them too. -/
theorem keepRules_node {n : Node} {below : List Node} (rest : Prop)
    (hbelow : KeepRules below ↔ Each (fun _ e => KeepRules e.nodes) n.parts ∧ rest) : KeepRules (n :: below)
      ↔ Each Expr.Sound n.parts ∧ (∀ fields ∈ n.fieldLists, namedAlike fields) ∧ n.Coheres ∧ rest := by
  rw [keepRules_cons, hbelow]
  have heach : Each Expr.Sound n.parts ↔ Each (fun _ e => KeepRules e.nodes) n.parts ∧ Each Expr.Suits n.parts := each_and _
  rw [heach]
  constructor
  · rintro ⟨hn, hkeep, hrest⟩
    exact ⟨⟨hkeep, hn.suits⟩, hn.alike, hn.coheres, hrest⟩
  · rintro ⟨⟨hkeep, hsuits⟩, halike, hcoheres, hrest⟩
    exact ⟨⟨hsuits, halike, hcoheres⟩, hkeep, hrest⟩

/-- A node with no parts and no lists keeps the rules, if nothing else is asked of it. -/
theorem Node.KeepsRules.of_empty {n : Node} (hparts : n.parts = []) (hlists : n.fieldLists = []) (hcoheres : n.Coheres) :
    n.KeepsRules where
  suits := by simp [hparts]
  alike := by simp [hlists]
  coheres := hcoheres

@[simp] theorem keepsRules_name (n : Name) : (Node.name n).KeepsRules := .of_empty rfl rfl trivial

@[simp] theorem keepsRules_literal (l : Literal) : (Node.literal l).KeepsRules := .of_empty rfl rfl trivial

@[simp] theorem keepsRules_field (f : Field) : (Node.field f).KeepsRules := .of_empty rfl rfl trivial

@[simp] theorem keepsRules_block (b : Block) : (Node.block b).KeepsRules := .of_empty rfl rfl trivial

@[simp] theorem keepsRules_comm (c : CommClause) : (Node.comm c).KeepsRules := .of_empty rfl rfl trivial

@[simp] theorem keepRules_names (ns : List Name) : KeepRules (nodesOfNames ns) := by simp [KeepRules, nodesOfNames]

@[simp] theorem keepRules_literal? (l : Option Literal) : KeepRules (nodesOfLiteral? l) := by cases l <;> simp [nodesOfLiteral?]

@[simp] theorem Field.keepRules_nodes (f : Field) : KeepRules f.nodes ↔ KeepRules f.type.nodes := by
  obtain ⟨loc, names, type, tag⟩ := f
  simp [nodes]

@[simp] theorem keepRules_exprs (es : List Expr) : KeepRules (nodesOfExprs es) ↔ ∀ e ∈ es, KeepRules e.nodes := by
  rw [nodesOfExprs_eq, keepRules_flatMap]

@[simp] theorem keepRules_expr? (e : Option Expr) : KeepRules (nodesOfExpr? e) ↔ ∀ e' ∈ e, KeepRules e'.nodes := by
  cases e <;> simp [nodesOfExpr?]

@[simp] theorem keepRules_fields (fs : List Field) : KeepRules (nodesOfFields fs) ↔ ∀ f ∈ fs, KeepRules f.type.nodes := by
  simp [nodesOfFields_eq, keepRules_flatMap]

@[simp] theorem keepRules_elems (es : List InterfaceElem) : KeepRules (nodesOfElems es) ↔ ∀ e ∈ es, KeepRules e.nodes := by
  rw [nodesOfElems_eq, keepRules_flatMap]

@[simp] theorem keepRules_stmts (ss : List Stmt) : KeepRules (nodesOfStmts ss) ↔ ∀ s ∈ ss, KeepRules s.nodes := by
  rw [nodesOfStmts_eq, keepRules_flatMap]

@[simp] theorem keepRules_stmt? (s : Option Stmt) : KeepRules (nodesOfStmt? s) ↔ ∀ s' ∈ s, KeepRules s'.nodes := by
  cases s <;> simp [nodesOfStmt?]

@[simp] theorem keepRules_cases (cs : List CaseClause) : KeepRules (nodesOfCases cs) ↔ ∀ c ∈ cs, KeepRules c.nodes := by
  rw [nodesOfCases_eq, keepRules_flatMap]

@[simp] theorem keepRules_comms (cs : List CommClause) : KeepRules (nodesOfComms cs) ↔ ∀ c ∈ cs, KeepRules c.nodes := by
  rw [nodesOfComms_eq, keepRules_flatMap]

@[simp] theorem keepRules_specs (ss : List Spec) : KeepRules (nodesOfSpecs ss) ↔ ∀ s ∈ ss, KeepRules s.nodes := by
  rw [nodesOfSpecs_eq, keepRules_flatMap]

@[simp] theorem ArrayLength.keepRules_nodes (l : ArrayLength) : KeepRules l.nodes ↔ ∀ e ∈ l.expr?, KeepRules e.nodes := by
  cases l <;> simp [nodes, expr?]

@[simp] theorem Signature.keepRules_nodes (s : Signature) :
    KeepRules s.nodes ↔ Each (fun _ e => KeepRules e.nodes) s.parts := by
  obtain ⟨params, results⟩ := s
  have hparams := each_parameterParts (fun e => KeepRules e.nodes) params
  simp [nodes, parts, hparams]

theorem Signature.sound_iff (s : Signature) :
    s.Sound ↔ Each Expr.Sound s.parts ∧ ∀ fields ∈ [s.params, s.results], namedAlike fields := by
  constructor
  · intro h
    exact ⟨h.types, by simp [h.params, h.results]⟩
  · rintro ⟨htypes, halike⟩
    exact ⟨htypes, halike _ (by simp), halike _ (by simp)⟩

/-! ## Expressions -/

namespace Expr

variable {role : Role} {loc : Location} {e e' : Expr} {sig : Signature}

/-- An expression that suits its role is sound if its parts are, it asks for no more, and the rest below it keeps the rules. -/
theorem sound_iff {below : List Node} (rest : Prop) (hsuits : e.Suits role) (hnodes : e.nodes = .expr e :: below)
    (hbelow : KeepRules below ↔ Each (fun _ e => KeepRules e.nodes) e.parts ∧ rest) : e.Sound role
      ↔ Each Sound e.parts ∧ (∀ fields ∈ (Node.expr e).fieldLists, namedAlike fields) ∧ e.Coheres ∧ rest := by
  rw [Sound, hnodes, iff_true_intro hsuits, and_true]
  exact keepRules_node _ hbelow

attribute [local simp] parts Node.fieldLists Coheres

@[simp] theorem sound_ident {name : String} : (ident loc name).Sound role := by
  refine Iff.mpr (sound_iff True trivial rfl ?_) ?_
  all_goals simp

@[simp] theorem sound_literal {value : Constant} : (literal loc value).Sound role := by
  refine Iff.mpr (sound_iff True trivial rfl ?_) ?_
  all_goals simp

@[simp] theorem sound_composite {type : Expr} {elements : List Expr} : (composite loc (some type) elements).Sound role
    ↔ type.Sound .plain ∧ ∀ e ∈ elements, e.Sound .element := by
  refine Iff.trans (sound_iff True trivial rfl ?_) ?_
  all_goals simp

/-- A body without a type is sound as an element, or as the key or value of one. -/
theorem sound_body {elements : List Expr} (hrole : role = .element ∨ role = .keyOrValue) :
    (composite loc none elements).Sound role ↔ ∀ e ∈ elements, e.Sound .element := by
  refine Iff.trans (sound_iff True hrole rfl ?_) ?_
  all_goals simp

@[simp] theorem sound_function {body : Block} :
    (function loc sig body).Sound role ↔ sig.Sound ∧ KeepRules body.nodes := by
  refine Iff.trans (sound_iff (KeepRules body.nodes) trivial rfl ?_) ?_
  · simp
  · simp [sig.sound_iff, and_assoc]

@[simp] theorem sound_paren : (paren loc e).Sound role ↔ e.Sound .plain := by
  refine Iff.trans (sound_iff True trivial rfl ?_) ?_
  all_goals simp

@[simp] theorem sound_selector {field : Name} : (selector loc e field).Sound role ↔ e.Sound .plain := by
  refine Iff.trans (sound_iff True trivial rfl ?_) ?_
  all_goals simp

@[simp] theorem sound_assertion {type : Option Expr} :
    (assertion loc e type).Sound role ↔ e.Sound .plain ∧ ∀ t ∈ type, t.Sound .plain := by
  refine Iff.trans (sound_iff True trivial rfl ?_) ?_
  all_goals simp

@[simp] theorem sound_index : (index loc e e').Sound role ↔ e.Sound .plain ∧ e'.Sound .plain := by
  refine Iff.trans (sound_iff True trivial rfl ?_) ?_
  all_goals simp

@[simp] theorem sound_slice {low high max : Option Expr} {three : Bool} : (slice loc e low high max three).Sound role
    ↔ e.Sound .plain ∧ (∀ b ∈ low, b.Sound .plain) ∧ (∀ b ∈ high, b.Sound .plain) ∧ (∀ b ∈ max, b.Sound .plain)
      ∧ if three then high.isSome ∧ max.isSome else max = none := by
  refine Iff.trans (sound_iff True trivial rfl ?_) ?_
  · simp [or_imp, forall_and]
  · simp [or_imp, forall_and, and_assoc]

@[simp] theorem sound_call {args : List Expr} {spread : Bool} :
    (call loc e args spread).Sound role ↔ e.Sound .plain ∧ ∀ a ∈ args, a.Sound .plain := by
  refine Iff.trans (sound_iff True trivial rfl ?_) ?_
  all_goals simp

@[simp] theorem sound_star : (star loc e).Sound role ↔ e.Sound .plain := by
  refine Iff.trans (sound_iff True trivial rfl ?_) ?_
  all_goals simp

@[simp] theorem sound_unary {op : Operator} : (unary loc op e).Sound role ↔ e.Sound .plain := by
  refine Iff.trans (sound_iff True trivial rfl ?_) ?_
  all_goals simp

@[simp] theorem sound_binary {op : Operator} : (binary loc op e e').Sound role ↔ e.Sound .plain ∧ e'.Sound .plain := by
  refine Iff.trans (sound_iff True trivial rfl ?_) ?_
  all_goals simp

/-- A key with its value is sound as an element. -/
theorem sound_keyValue : (keyValue loc e e').Sound .element ↔ e.Sound .keyOrValue ∧ e'.Sound .keyOrValue := by
  refine Iff.trans (sound_iff (e := keyValue loc e e') True rfl rfl ?_) ?_
  all_goals simp

@[simp] theorem sound_arrayType {length : ArrayLength} : (arrayType loc length e).Sound role
    ↔ (∀ n ∈ length.expr?, n.Sound .plain) ∧ e.Sound .plain := by
  refine Iff.trans (sound_iff True trivial rfl ?_) ?_
  all_goals simp [or_imp, forall_and]

@[simp] theorem sound_structType {fields : List Field} :
    (structType loc fields).Sound role ↔ ∀ f ∈ fields, f.type.Sound .plain := by
  refine Iff.trans (sound_iff True trivial rfl ?_) ?_
  all_goals simp

@[simp] theorem sound_functionType : (functionType loc sig).Sound role ↔ sig.Sound := by
  refine Iff.trans (sound_iff True trivial rfl ?_) ?_
  · simp
  · simp [sig.sound_iff]

@[simp] theorem sound_interfaceType {elems : List InterfaceElem} :
    (interfaceType loc elems).Sound role ↔ ∀ e ∈ elems, KeepRules e.nodes := by
  refine Iff.trans (sound_iff (∀ e ∈ elems, KeepRules e.nodes) trivial rfl ?_) ?_
  all_goals simp

@[simp] theorem sound_mapType : (mapType loc e e').Sound role ↔ e.Sound .plain ∧ e'.Sound .plain := by
  refine Iff.trans (sound_iff True trivial rfl ?_) ?_
  all_goals simp

@[simp] theorem sound_channelType {direction : ChannelDirection} : (channelType loc direction e).Sound role ↔ e.Sound .plain := by
  refine Iff.trans (sound_iff True trivial rfl ?_) ?_
  all_goals simp

/-- A variadic type is sound as that of the last parameter, with at most one name. -/
theorem sound_variadicType {names : Nat} (hnames : names ≤ 1) :
    (variadicType loc e).Sound (.parameter true names) ↔ e.Sound .plain := by
  refine Iff.trans (sound_iff (e := variadicType loc e) True ⟨names, hnames, rfl⟩ rfl ?_) ?_
  all_goals simp

end Expr

/-! ## Statements -/

@[simp] theorem InterfaceElem.keepRules_method {loc : Location} {name : Name} {sig : Signature} :
    KeepRules (method loc name sig).nodes ↔ sig.Sound := by
  refine Iff.trans (keepRules_node True ?_) ?_
  · simp [Node.parts, parts]
  · simp [Node.parts, parts, Node.fieldLists, Node.Coheres, sig.sound_iff]

@[simp] theorem InterfaceElem.keepRules_embedded {loc : Location} {type : Expr} :
    KeepRules (embedded loc type).nodes ↔ type.Sound .plain := by
  refine Iff.trans (keepRules_node True ?_) ?_
  all_goals simp [Node.parts, parts, Node.fieldLists, Node.Coheres]

@[simp] theorem Block.keepRules_nodes (b : Block) : KeepRules b.nodes ↔ ∀ s ∈ b.stmts, KeepRules s.nodes := by
  obtain ⟨loc, stmts⟩ := b
  simp [nodes]

@[simp] theorem DeclGroup.keepRules_nodes (g : DeclGroup) : KeepRules g.nodes ↔ ∀ s ∈ g.specs, KeepRules s.nodes := by
  obtain ⟨keyword, specs, grouped⟩ := g
  simp [nodes]

theorem DeclGroup.sound_iff (g : DeclGroup) : g.Sound ↔ (∀ s ∈ g.specs, KeepRules s.nodes) ∧ g.Coheres :=
  ⟨fun h => ⟨h.specs, h.coheres⟩, fun ⟨hspecs, hcoheres⟩ => ⟨hspecs, hcoheres⟩⟩

@[simp] theorem CaseClause.keepRules_nodes (c : CaseClause) : KeepRules c.nodes
    ↔ (∀ list ∈ c.list, ∀ e ∈ list, e.Sound .plain) ∧ ∀ s ∈ c.body, KeepRules s.nodes := by
  obtain ⟨loc, list, body⟩ := c
  refine Iff.trans (keepRules_node (∀ s ∈ body, KeepRules s.nodes) ?_) ?_
  all_goals cases list <;> simp [nodesOfCaseList, Node.parts, Node.fieldLists, Node.Coheres]

@[simp] theorem CommClause.keepRules_nodes (c : CommClause) : KeepRules c.nodes
    ↔ (∀ s ∈ c.comm, KeepRules s.nodes) ∧ ∀ s ∈ c.body, KeepRules s.nodes := by
  obtain ⟨loc, comm, body⟩ := c
  simp [nodes]

namespace Stmt

variable {loc : Location} {e e' : Expr} {s : Stmt} {body : Block} {init post : Option Stmt}

attribute [local simp] Node.parts parts Node.fieldLists Node.Coheres Coheres

@[simp] theorem keepRules_bad : KeepRules (bad loc).nodes := by
  refine Iff.mpr (keepRules_node True ?_) ?_
  all_goals simp

@[simp] theorem keepRules_declaration {g : DeclGroup} : KeepRules (declaration loc g).nodes ↔ g.Sound := by
  refine Iff.trans (keepRules_node (∀ s ∈ g.specs, KeepRules s.nodes) ?_) ?_
  · simp
  · simp [g.sound_iff, and_comm]

@[simp] theorem keepRules_empty : KeepRules (empty loc).nodes := by
  refine Iff.mpr (keepRules_node True ?_) ?_
  all_goals simp

@[simp] theorem keepRules_labeled {label : Name} : KeepRules (labeled loc label s).nodes ↔ KeepRules s.nodes := by
  refine Iff.trans (keepRules_node (KeepRules s.nodes) ?_) ?_
  all_goals simp

@[simp] theorem keepRules_expr : KeepRules (expr loc e).nodes ↔ e.Sound .plain := by
  refine Iff.trans (keepRules_node True ?_) ?_
  all_goals simp

@[simp] theorem keepRules_send : KeepRules (send loc e e').nodes ↔ e.Sound .plain ∧ e'.Sound .plain := by
  refine Iff.trans (keepRules_node True ?_) ?_
  all_goals simp

@[simp] theorem keepRules_incDec {op : Operator} : KeepRules (incDec loc op e).nodes ↔ e.Sound .plain := by
  refine Iff.trans (keepRules_node True ?_) ?_
  all_goals simp

@[simp] theorem keepRules_assign {op : Operator} {left right : List Expr} : KeepRules (assign loc op left right).nodes
    ↔ ((∀ e ∈ left, e.Sound .plain) ∧ ∀ e ∈ right, e.Sound .plain) ∧ (assign loc op left right).Coheres := by
  refine Iff.trans (keepRules_node True ?_) ?_
  all_goals simp [or_imp, forall_and]

@[simp] theorem keepRules_go : KeepRules (go loc e).nodes ↔ e.Sound .plain := by
  refine Iff.trans (keepRules_node True ?_) ?_
  all_goals simp

@[simp] theorem keepRules_defer : KeepRules (defer loc e).nodes ↔ e.Sound .plain := by
  refine Iff.trans (keepRules_node True ?_) ?_
  all_goals simp

@[simp] theorem keepRules_return {values : List Expr} :
    KeepRules (Stmt.return loc values).nodes ↔ ∀ e ∈ values, e.Sound .plain := by
  refine Iff.trans (keepRules_node True ?_) ?_
  all_goals simp

@[simp] theorem keepRules_branch {keyword : Keyword} {label : Option Name} : KeepRules (branch loc keyword label).nodes := by
  refine Iff.mpr (keepRules_node True ?_) ?_
  all_goals cases label <;> simp

@[simp] theorem keepRules_block : KeepRules (block body).nodes ↔ ∀ s ∈ body.stmts, KeepRules s.nodes := by
  obtain ⟨at_, stmts⟩ := body
  refine Iff.trans (keepRules_node (∀ s ∈ stmts, KeepRules s.nodes) ?_) ?_
  all_goals simp

@[simp] theorem keepRules_if {otherwise : Option Stmt} : KeepRules (Stmt.if loc init e body otherwise).nodes
    ↔ (∀ s ∈ init, KeepRules s.nodes) ∧ e.Sound .plain ∧ (∀ s ∈ body.stmts, KeepRules s.nodes)
      ∧ ∀ s ∈ otherwise, KeepRules s.nodes ∧ s.IsElse := by
  refine Iff.trans (keepRules_node ((∀ s ∈ init, KeepRules s.nodes) ∧ (∀ s ∈ body.stmts, KeepRules s.nodes)
    ∧ ∀ s ∈ otherwise, KeepRules s.nodes) ?_) ?_
  · simp [and_left_comm]
  · cases otherwise <;> simp [and_assoc, and_comm]

@[simp] theorem keepRules_switch {tag : Option Expr} {clauses : List CaseClause} : KeepRules (switch loc init tag clauses).nodes
    ↔ (∀ s ∈ init, KeepRules s.nodes) ∧ (∀ e ∈ tag, e.Sound .plain ∧ ¬e.IsTypeGuard) ∧ ∀ c ∈ clauses, KeepRules c.nodes := by
  refine Iff.trans (keepRules_node ((∀ s ∈ init, KeepRules s.nodes) ∧ ∀ c ∈ clauses, KeepRules c.nodes) ?_) ?_
  · simp [and_left_comm, and_comm]
  · cases tag <;> simp [and_assoc, and_left_comm]

@[simp] theorem keepRules_typeSwitch {clauses : List CaseClause} : KeepRules (typeSwitch loc init s clauses).nodes
    ↔ (∀ s ∈ init, KeepRules s.nodes) ∧ KeepRules s.nodes ∧ s.IsTypeGuard ∧ ∀ c ∈ clauses, KeepRules c.nodes := by
  refine Iff.trans (keepRules_node ((∀ s ∈ init, KeepRules s.nodes) ∧ KeepRules s.nodes
    ∧ ∀ c ∈ clauses, KeepRules c.nodes) ?_) ?_
  · simp
  · simp [and_left_comm, and_comm]

@[simp] theorem keepRules_select {clauses : List CommClause} :
    KeepRules (select loc clauses).nodes ↔ ∀ c ∈ clauses, KeepRules c.nodes := by
  refine Iff.trans (keepRules_node (∀ c ∈ clauses, KeepRules c.nodes) ?_) ?_
  all_goals simp

@[simp] theorem keepRules_for {cond : Option Expr} : KeepRules (Stmt.for loc init cond post body).nodes
    ↔ (∀ s ∈ init, KeepRules s.nodes) ∧ (∀ e ∈ cond, e.Sound .plain) ∧ (∀ s ∈ post, KeepRules s.nodes)
      ∧ ∀ s ∈ body.stmts, KeepRules s.nodes := by
  refine Iff.trans (keepRules_node ((∀ s ∈ init, KeepRules s.nodes) ∧ (∀ s ∈ post, KeepRules s.nodes)
    ∧ ∀ s ∈ body.stmts, KeepRules s.nodes) ?_) ?_
  · simp [and_left_comm, and_comm]
  · simp [and_left_comm, and_comm]

@[simp] theorem keepRules_range {key value : Option Expr} {define : Bool} : KeepRules (range loc key value define e body).nodes
    ↔ ((∀ e ∈ key, e.Sound .plain) ∧ (∀ e ∈ value, e.Sound .plain) ∧ e.Sound .plain) ∧ (∀ s ∈ body.stmts, KeepRules s.nodes)
      ∧ (value.isSome → key.isSome) ∧ (define → key.isSome) := by
  refine Iff.trans (keepRules_node (∀ s ∈ body.stmts, KeepRules s.nodes) ?_) ?_
  · simp [or_imp, forall_and, and_assoc]
  · simp [or_imp, forall_and, and_comm, and_left_comm]

end Stmt

/-! ## Declarations -/

@[simp] theorem Spec.keepRules_import {loc : Location} {spec : ImportSpec} : KeepRules (Spec.import loc spec).nodes := by
  refine Iff.mpr (keepRules_node True ?_) ?_
  all_goals cases h : spec.name <;> simp [ImportSpec.nodes, h, Node.parts, parts, Node.fieldLists, Node.Coheres]

@[simp] theorem Spec.keepRules_value {loc : Location} {names : List Name} {t : Option Expr} {values : List Expr} :
    KeepRules (value loc names t values).nodes ↔ (∀ e ∈ t, e.Sound .plain) ∧ ∀ e ∈ values, e.Sound .plain := by
  refine Iff.trans (keepRules_node True ?_) ?_
  all_goals simp [or_imp, forall_and, Node.parts, parts, Node.fieldLists, Node.Coheres]

@[simp] theorem Spec.keepRules_type {loc : Location} {name : Name} {t : Expr} :
    KeepRules (Spec.type loc name t).nodes ↔ t.Sound .plain := by
  refine Iff.trans (keepRules_node True ?_) ?_
  all_goals simp [Node.parts, parts, Node.fieldLists, Node.Coheres]

namespace Decl

variable {loc : Location}

attribute [local simp] Node.parts parts Node.fieldLists Node.Coheres

@[simp] theorem keepRules_bad : KeepRules (bad loc).nodes := by
  refine Iff.mpr (keepRules_node True ?_) ?_
  all_goals simp

@[simp] theorem keepRules_group {g : DeclGroup} : KeepRules (group loc g).nodes ↔ g.Sound := by
  refine Iff.trans (keepRules_node (∀ s ∈ g.specs, KeepRules s.nodes) ?_) ?_
  · simp
  · simp [g.sound_iff, and_comm]

@[simp] theorem keepRules_func {f : FuncDecl} : KeepRules (func loc f).nodes
    ↔ (∀ fields ∈ f.receiver, namedAlike fields ∧ ∀ f ∈ fields, f.type.Sound .plain) ∧ f.sig.Sound
      ∧ ∀ b ∈ f.body, ∀ s ∈ b.stmts, KeepRules s.nodes := by
  obtain ⟨receiver, name, sig, body⟩ := f
  refine Iff.trans (keepRules_node (∀ b ∈ body, ∀ s ∈ b.stmts, KeepRules s.nodes) ?_) ?_
  · cases receiver <;> cases body <;> simp [FuncDecl.nodes, nodesOfFields?, nodesOfBlock?, and_assoc]
  · cases receiver <;> simp [sig.sound_iff, and_assoc, and_left_comm]

end Decl

end GoSyntax
