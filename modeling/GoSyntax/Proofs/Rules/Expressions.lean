import GoSyntax.Grammar.Expression
import GoSyntax.Proofs.Rules.Types

/-!
# Expressions keep the rules

An operand keeps the rules before its suffixes are read, and each suffix makes it into another one that does. Only the elements of a
composite literal may have keys or be bodies without a type, and they are read by productions of their own.
-/

namespace GoSyntax.Grammar

open Assures

variable {p : Productions}

/-! ## Blocks -/

theorem isAtStatementsEnd_assures : Assures (fun _ => True) isAtStatementsEnd := current.step fun _ => .pure trivial

theorem resumeStatements_assures (before : Nat) : Assures (fun _ => True) (resumeStatements before) := by
  have hmissing : Assures (fun _ => True) (reportMissing before Punctuation.semicolon) :=
    reports.step fun _ => .ite ((reportExpected _).weaken fun _ _ => trivial) (.pure trivial)
  exact hmissing.step fun _ => (skipTo _).step fun _ => (accept _).step fun _ => .pure trivial

theorem statements_assures (hp : p.Assured) : Assures (fun stmts => ∀ s ∈ stmts, KeepRules s.nodes) (statements p) := by
  have hpass : ∀ stmts : Array Stmt, Assures (Collecting (fun s => KeepRules s.nodes) stmts) (statementPass p stmts) := by
    intro stmts
    refine isAtStatementsEnd_assures.step fun _ => .ite (.pure id) (reports.step fun before => hp.stmt.bind fun s => ?_)
    have hpush : KeepRules s.nodes → Collecting (fun s => KeepRules s.nodes) stmts (.yield (stmts.push s)) :=
      collecting_push (P := fun s : Stmt => KeepRules s.nodes) rfl
    exact (orM isAtStatementsEnd_assures (accept _)).step fun _ => .ite (.pure hpush)
      ((resumeStatements_assures before).step fun _ => .pure hpush)
  exact (collect hpass).bind fun stmts => .pure id

theorem block_assures (hp : p.Assured) : Assures (fun b => ∀ s ∈ b.stmts, KeepRules s.nodes) (block p) :=
  (expect _).step fun _ => (statements_assures hp).bind fun _ => (expect _).step fun _ => .pure id

/-! ## Suffixes -/

theorem sliceBound_assures (hp : p.Assured) (level : Int) :
    Assures (fun b => ∀ e ∈ b, e.Sound .plain) (sliceBound p level) := by
  refine current.step fun _ => .ite (.pure ?_) ((hp.expr level).map fun e he => ?_)
  · simp
  · simpa using he

/-- The three-index form has its second and third index, or they are reported. -/
theorem sliceFrom_assures (hp : p.Assured) (level : Int) (operand : Expr) (low : Option Expr) : Assures
    (fun e => operand.Sound .plain → (∀ b ∈ low, b.Sound .plain) → e.Sound .plain) (sliceFrom p level operand low) := by
  refine consume.step fun _ => (sliceBound_assures hp level).bind fun high => (accept _).step fun _ => .ite ?_ ?_
  · refine (sliceBound_assures hp level).bind fun max => (expect _).step fun _ => ?_
    refine (reportUnless high.isSome _ _).bind fun _ => (reportUnless max.isSome _ _).bind fun _ => .pure ?_
    intro hmaxSome hhighSome hmax hhigh hoperand hlow
    exact Expr.sound_slice.2 ⟨hoperand, hlow, hhigh, hmax, by simp [hmaxSome, hhighSome]⟩
  · refine (expect _).step fun _ => .pure ?_
    intro hhigh hoperand hlow
    exact Expr.sound_slice.2 ⟨hoperand, hlow, hhigh, by simp, by simp⟩

theorem indexFrom_assures (hp : p.Assured) (level : Int) (operand low : Expr) : Assures
    (fun e => low.Sound .plain → operand.Sound .plain → e.Sound .plain) (indexFrom p level operand low) := by
  refine (isAt _).step fun _ => .ite ?_ ((accept _).step fun _ => .ite (.pure ?_) ?_)
  · refine (sliceFrom_assures hp level operand (some low)).weaken fun e he hlow hoperand => he hoperand ?_
    simpa using hlow
  · intro hlow hoperand
    exact Expr.sound_index.2 ⟨hoperand, hlow⟩
  · refine (reportExpected _).step fun _ => (skipTo _).step fun _ => (accept _).step fun _ => .pure ?_
    intro hlow hoperand
    exact Expr.sound_slice.2 ⟨hoperand, by simpa using hlow, by simp, by simp, by simp⟩

theorem indexOrSlice_assures (hp : p.Assured) (level : Int) (operand : Expr) :
    Assures (fun e => operand.Sound .plain → e.Sound .plain) (indexOrSlice p level operand) := by
  refine consume.step fun _ => (isAt _).step fun _ => .ite ?_ ?_
  · exact (sliceFrom_assures hp (level + 1) operand none).weaken fun e he hoperand => he hoperand (by simp)
  · exact (hp.expr (level + 1)).bind fun low => indexFrom_assures hp (level + 1) operand low

theorem call_assures (hp : p.Assured) (level : Int) (callee : Expr) :
    Assures (fun e => callee.Sound .plain → e.Sound .plain) (call p level callee) := by
  have hargument : Assures (fun a => a.1.Sound .plain) (argument p (level + 1)) :=
    (hp.expr _).bind fun e => (accept _).step fun _ => .pure id
  refine consume.step fun _ => (members _ hargument).bind fun args => (expect _).step fun _ => .pure ?_
  intro hargs hcallee
  exact Expr.sound_call.2 ⟨hcallee, List.forall_mem_map.2 hargs⟩

theorem element_assures (hp : p.Assured) (level : Int) : Assures (Expr.Sound .element) (element p level) := by
  have hkey : ∀ key : Expr, key.Sound .keyOrValue → key.Sound .element := by
    rintro key ⟨hkeep, hsuits⟩
    refine ⟨hkeep, ?_⟩
    unfold Expr.Suits at hsuits ⊢
    split <;> simp_all
  refine (hp.elementValue level).bind fun key => (accept _).step fun _ => .ite ?_ (.pure (hkey key))
  refine (hp.elementValue level).bind fun value => .pure ?_
  intro hvalue hkey
  exact Expr.sound_keyValue.2 ⟨hkey, hvalue⟩

/-- A composite literal has the role that its type allows for. -/
theorem composite_assures (hp : p.Assured) (level : Int) (t : Option Expr) {role : Role}
    (hrole : t = none → role = .element ∨ role = .keyOrValue) :
    Assures (fun e => (∀ e ∈ t, e.Sound .plain) → e.Sound role) (composite p level t) := by
  refine current.step fun _ => (expect _).step fun _ => (members _ (element_assures hp (level + 1))).bind fun elements => ?_
  refine (expect _).step fun _ => .pure ?_
  intro helements htype
  cases t with
  | none => exact (Expr.sound_body (hrole rfl)).2 helements
  | some t => exact Expr.sound_composite.2 ⟨htype t rfl, helements⟩

theorem selectorOrAssertion_assures (hp : p.Assured) (operand : Expr) :
    Assures (fun e => operand.Sound .plain → e.Sound .plain) (selectorOrAssertion p operand) := by
  have htype : Assures (fun t => ∀ e ∈ t, e.Sound .plain) (assertedType? p) := by
    refine (accept _).step fun _ => .ite (.pure ?_) ((type_assures hp).map fun t ht => ?_)
    · simp
    · simpa using ht
  refine consume.step fun _ => (accept _).step fun _ => .ite ?_ (name.step fun field => .pure ?_)
  · refine htype.bind fun t => (expect _).step fun _ => .pure ?_
    intro ht hoperand
    exact Expr.sound_assertion.2 ⟨hoperand, ht⟩
  · intro hoperand
    exact Expr.sound_selector.2 hoperand

theorem suffix_assures (hp : p.Assured) (level : Int) (operand : Expr) :
    Assures (fun s => operand.Sound .plain → s.value.Sound .plain) (suffix p level operand) := by
  refine current.step fun here => ?_
  split
  · exact (selectorOrAssertion_assures hp operand).map fun _ => id
  · exact (indexOrSlice_assures hp level operand).map fun _ => id
  · exact (call_assures hp level operand).map fun _ => id
  · refine .ite ((composite_assures hp level (some operand) (by simp)).map fun e he hoperand => he ?_) (.pure id)
    simpa using hoperand
  · exact .pure id

theorem suffixes_assures (hp : p.Assured) (level : Int) (operand : Expr) :
    Assures (fun e => operand.Sound .plain → e.Sound .plain) (suffixes p level operand) :=
  loop (fun _ => id) (suffix_assures hp level) operand

/-! ## Operands -/

theorem functionOrType_assures (hp : p.Assured) : Assures (Expr.Sound .plain) (functionOrType p) := by
  refine consume.step fun _ => (signature_assures hp).bind fun sig => (isAt _).step fun _ => .ite ?_ (.pure ?_)
  · refine (block_assures hp).bind fun body => .pure ?_
    intro hbody hsig
    exact Expr.sound_function.2 ⟨hsig, body.keepRules_nodes.2 hbody⟩
  · intro hsig
    exact Expr.sound_functionType.2 hsig

theorem typeOperand_assures (hp : p.Assured) : Assures (Expr.Sound .plain) (typeOperand p) := by
  refine (type?_assures hp true).bind fun t => ?_
  cases t with
  | some t =>
    refine .pure ?_
    intro ht
    exact ht t rfl
  | none =>
    refine current.step fun _ => (reportHere _).step fun _ => (skipTo _).step fun _ => .pure ?_
    intro _
    exact Expr.sound_bad

theorem operand_assures (hp : p.Assured) (level : Int) : Assures (Expr.Sound .plain) (operand p level) := by
  refine current.step fun here => ?_
  split
  · exact consume.step fun _ => .pure Expr.sound_ident
  · exact consume.step fun _ => .pure Expr.sound_literal
  · refine consume.step fun _ => (hp.expr (level + 1)).bind fun inner => (expect _).step fun _ => .pure ?_
    intro hinner
    exact Expr.sound_paren.2 hinner
  · exact functionOrType_assures hp
  · exact typeOperand_assures hp

/-! ## Operators -/

theorem primary_assures (hp : p.Assured) (level : Int) : Assures (Expr.Sound .plain) (primary p level) :=
  (operand_assures hp level).bind fun operand => suffixes_assures hp level operand

theorem prefixed_assures (hp : p.Assured) (level : Int) (op : Operator) : Assures (Expr.Sound .plain) (prefixed p level op) := by
  refine consume.step fun _ => (hp.unary level).bind fun operand => .ite (.pure ?_) (.pure ?_)
  · intro hoperand
    exact Expr.sound_star.2 hoperand
  · intro hoperand
    exact Expr.sound_unary.2 hoperand

theorem unary_assures (hp : p.Assured) (level : Int) : Assures (Expr.Sound .plain) (unary p level) := by
  refine current.step fun here => ?_
  split
  · refine (peek 1).step fun next => .ite ?_ (prefixed_assures hp level .arrow)
    exact (channelType_assures hp).bind fun t => suffixes_assures hp level t
  · exact .ite (prefixed_assures hp level _) (primary_assures hp level)
  · exact primary_assures hp level

theorem binaryLevel_assures {operand : Parse Expr} (family : Operator.Family) (h : Assures (Expr.Sound .plain) operand) :
    Assures (Expr.Sound .plain) (binaryLevel family operand) := by
  have hpass : ∀ left : Expr, Assures (fun s => left.Sound .plain → s.value.Sound .plain) (binaryPass family operand left) := by
    intro left
    refine current.step fun here => ?_
    split
    · refine .ite (consume.step fun _ => h.bind fun right => .pure ?_) (.pure id)
      intro hright hleft
      exact Expr.sound_binary.2 ⟨hleft, hright⟩
    · exact .pure id
  exact h.bind fun left => loop (fun _ => id) hpass left

theorem expr_assures (hp : p.Assured) (level : Int) : Assures (Expr.Sound .plain) (expr p level) := by
  have hfamilies : ∀ families : List Operator.Family,
      Assures (Expr.Sound .plain) (families.foldr binaryLevel (unary p level)) := by
    intro families
    induction families with
    | nil => exact unary_assures hp level
    | cons family families ih => exact binaryLevel_assures family ih
  exact hfamilies binaryFamilies

theorem exprList_assures (hp : p.Assured) (level : Int) :
    Assures (fun es => es.1.Sound .plain ∧ ∀ e ∈ es.2, e.Sound .plain) (exprList p level) :=
  separated (expr_assures hp level)

theorem elementValue_assures (hp : p.Assured) (level : Int) : Assures (Expr.Sound .keyOrValue) (elementValue p level) := by
  refine (isAt _).step fun _ => .ite ?_ ((expr_assures hp level).weaken fun e he => he.of_plain)
  exact (composite_assures hp level none fun _ => .inr rfl).weaken fun e he => he (by simp)

end GoSyntax.Grammar
