import GoSyntax.Grammar.Expression
import GoSyntax.Proofs.Binding.Types

/-!
# What operators and braces bind in expressions

Each loop over the operators of a family joins operands that bind more tightly, so what it has joined so far binds at least as tightly as
its family, and what prefix operators and suffixes are attached to is never joined by a binary operator. At a negative nesting level a
brace behind a type name is left alone, and whatever stands in brackets is not exposed.
-/

namespace GoSyntax

open Grammar

@[simp] theorem settled_stmts (ss : List Stmt) : Settled (nodesOfStmts ss) ↔ ∀ s ∈ ss, Settled s.nodes := by
  rw [nodesOfStmts_eq, settled_flatMap]

@[simp] theorem settled_block (b : Block) : Settled b.nodes ↔ ∀ s ∈ b.stmts, Settled s.nodes := by
  obtain ⟨loc, stmts⟩ := b
  simp [Block.nodes]

/-- What no operator joins binds more tightly than any operator. -/
theorem Expr.binding_of_not_isBinary {e : Expr} (h : e.isBinary = false) : e.binding = 6 := by
  cases e with
  | binary loc op left right => exact absurd h Bool.true_eq_false_eq_False
  | _ => rfl

theorem Expr.isNamedComposite_some (loc : Location) (t : Expr) (elements : List Expr) :
    (composite loc (some t) elements).isNamedComposite = isTypeName t := by
  cases t with
  | selector selLoc operand field => cases operand <;> rfl
  | _ => rfl

/-- In a header a brace is taken for a body only behind a type that is no name. -/
theorem isTypeName_of_takesBody {level : Int} {e : Expr} (h : takesBody level e = true) (hlevel : level < 0) : isTypeName e = false := by
  rw [takesBody, Bool.and_eq_true, Bool.or_eq_true, decide_eq_true_eq, Bool.not_eq_true'] at h
  rcases h.2 with hground | hname
  · omega
  · exact hname

namespace Grammar

open Gives

variable {p : Productions} {level : Int}

attribute [local simp] Expr.nodes Expr.Ordered

/-! ## Blocks -/

theorem statements_settled (hp : p.GiveSettled) : Gives (fun ss => ∀ s ∈ ss, Settled s.nodes) (statements p) := by
  have hpass : ∀ stmts, Gives (Keeps (fun s => Settled s.nodes) stmts) (statementPass p stmts) := fun _ =>
    step fun _ => .ite (.pure id) (step fun _ => hp.stmt.bind fun s hs => step fun _ => .ite (.pure (keeps_push rfl hs))
      (step fun _ => .pure (keeps_push rfl hs)))
  exact (collect hpass).bind fun stmts hstmts => .pure hstmts

theorem block_settled (hp : p.GiveSettled) : Gives (fun b : Block => ∀ s ∈ b.stmts, Settled s.nodes) (block p) :=
  step fun _ => (statements_settled hp).bind fun _ hstmts => step fun _ => .pure hstmts

/-! ## Suffixes -/

theorem sliceBound_settled (hp : p.GiveSettled) (level : Int) : Gives (fun b => ∀ e ∈ b, Settled e.nodes) (sliceBound p level) :=
  step fun _ => .ite .none_ ((hp.expr level).weaken fun _ he => he.nodes).some_

/-- A suffix is attached to an operand, which is shielded in a header; what stands in its brackets need not be. -/
theorem settledOperand_of_suffix {e operand : Expr} (hoperand : operand.SettledOperand level) (hnodes : Settled e.nodes)
    (hbinary : e.isBinary = false) (hcomposite : e.isNamedComposite = false) (hparts : e.openParts = [operand]) :
    e.SettledOperand level := by
  refine ⟨⟨hnodes, fun hlevel => .of_parts hcomposite ?_⟩, hbinary⟩
  rw [hparts]
  exact List.forall_mem_singleton.2 (hoperand.shielded hlevel)

theorem sliceFrom_settled (hp : p.GiveSettled) (inner : Int) {operand : Expr} {low : Option Expr} (hoperand : operand.SettledOperand level)
    (hlow : ∀ e ∈ low, Settled e.nodes) : Gives (Expr.SettledOperand level) (sliceFrom p inner operand low) := by
  refine step fun _ => (sliceBound_settled hp inner).bind fun high hhigh => step fun _ => .ite ?_ (step fun _ => .pure ?_)
  · refine (sliceBound_settled hp inner).bind fun max hmax => step fun _ => step fun _ => step fun _ => .pure ?_
    exact settledOperand_of_suffix hoperand (by simpa using ⟨hoperand.notBinary, hoperand.nodes, hlow, hhigh, hmax⟩) rfl rfl rfl
  · exact settledOperand_of_suffix hoperand (by simpa using ⟨hoperand.notBinary, hoperand.nodes, hlow, hhigh⟩) rfl rfl rfl

theorem indexOrSlice_settled (hp : p.GiveSettled) {operand : Expr} (hoperand : operand.SettledOperand level) :
    Gives (Expr.SettledOperand level) (indexOrSlice p level operand) := by
  refine step fun _ => step fun _ => .ite (sliceFrom_settled hp _ hoperand fun _ h => absurd h (Option.not_mem_none _)) ?_
  refine (hp.expr _).bind fun low hlow => step fun _ => .ite (sliceFrom_settled hp _ hoperand (by simpa using hlow.nodes)) ?_
  refine step fun _ => .ite (.pure ?_) (step fun _ => step fun _ => step fun _ => .pure ?_)
  · exact settledOperand_of_suffix hoperand (by simpa using ⟨hoperand.notBinary, hoperand.nodes, hlow.nodes⟩) rfl rfl rfl
  · exact settledOperand_of_suffix hoperand (by simpa using ⟨hoperand.notBinary, hoperand.nodes, hlow.nodes⟩) rfl rfl rfl

theorem call_settled (hp : p.GiveSettled) {callee : Expr} (hcallee : callee.SettledOperand level) :
    Gives (Expr.SettledOperand level) (call p level callee) := by
  have hargument : Gives (fun a : Expr × Bool => Settled a.1.nodes) (argument p (level + 1)) :=
    (hp.expr _).bind fun e he => step fun _ => .pure he.nodes
  refine step fun _ => (members _ hargument).bind fun args hargs => step fun _ => .pure ?_
  have hnodes : ∀ e ∈ args.map Prod.fst, Settled e.nodes := List.forall_mem_map.2 hargs
  exact settledOperand_of_suffix hcallee (by simpa [-List.mem_map] using ⟨hcallee.notBinary, hcallee.nodes, hnodes⟩) rfl rfl rfl

theorem composite_settled (hp : p.GiveSettled) (level : Int) {t : Option Expr} (ht : ∀ e ∈ t, Settled e.nodes) :
    Gives (fun e => Settled e.nodes ∧ ∃ loc elements, e = .composite loc t elements) (composite p level t) := by
  have helement : Gives (fun e => Settled e.nodes) (element p (level + 1)) := by
    refine (hp.elementValue _).bind fun key hkey => step fun _ => .ite ?_ (.pure hkey)
    exact (hp.elementValue _).bind fun value hvalue => .pure (by simpa using ⟨hkey, hvalue⟩)
  refine step fun _ => step fun _ => (members _ helement).bind fun list hlist => step fun _ => .pure ⟨?_, _, _, rfl⟩
  simpa using ⟨ht, hlist⟩

theorem selectorOrAssertion_settled (hp : p.GiveSettled) {operand : Expr} (hoperand : operand.SettledOperand level) :
    Gives (Expr.SettledOperand level) (selectorOrAssertion p operand) := by
  have hasserted : Gives (fun t => ∀ e ∈ t, e.SettledType) (assertedType? p) := step fun _ => .ite .none_ (type_settled hp).some_
  refine step fun _ => step fun _ => .ite (hasserted.bind fun t ht => step fun _ => .pure ⟨⟨?_, fun hlevel => .of_parts rfl ?_⟩, rfl⟩)
    (step fun _ => .pure ?_)
  · simpa using ⟨hoperand.notBinary, hoperand.nodes, fun e he => (ht e he).nodes⟩
  · exact List.forall_mem_cons.2 ⟨hoperand.shielded hlevel, fun e he => (ht e (Option.mem_toList.1 he)).shielded⟩
  · exact settledOperand_of_suffix hoperand (by simpa using ⟨hoperand.notBinary, hoperand.nodes⟩) rfl rfl rfl

theorem suffixes_settled (hp : p.GiveSettled) {operand : Expr} (hoperand : operand.SettledOperand level) :
    Gives (Expr.SettledOperand level) (suffixes p level operand) := by
  refine loop (fun operand hoperand => ?_) hoperand
  have goesOn : ∀ {f : Parse Expr}, Gives (Expr.SettledOperand level) f →
      Gives (fun s : ForInStep Expr => s.value.SettledOperand level) (.yield <$> f) := fun hf => hf.map fun e he => he
  have hcomposite : takesBody level operand = true → Gives (Expr.SettledOperand level) (composite p level (some operand)) := by
    intro hbody
    refine (composite_settled hp level (by simpa using hoperand.nodes)).weaken ?_
    rintro e ⟨hnodes, loc, elements, rfl⟩
    refine ⟨⟨hnodes, fun hlevel => .of_parts ?_ (List.forall_mem_singleton.2 (hoperand.shielded hlevel))⟩, rfl⟩
    rw [Expr.isNamedComposite_some]
    exact isTypeName_of_takesBody hbody hlevel
  refine step fun here => ?_
  split
  · exact goesOn (selectorOrAssertion_settled hp hoperand)
  · exact goesOn (indexOrSlice_settled hp hoperand)
  · exact goesOn (call_settled hp hoperand)
  · split
    · next hbody => exact goesOn (hcomposite hbody)
    · exact .pure hoperand
  · exact .pure hoperand

/-! ## Operands -/

theorem operand_settled (hp : p.GiveSettled) (level : Int) : Gives (Expr.SettledOperand level) (operand p level) := by
  have hfunction : Gives (Expr.SettledOperand level) (functionOrType p) := by
    refine step fun _ => (signature_settled hp).bind fun sig hsig => step fun _ => .ite ((block_settled hp).bind fun body hbody => .pure ?_)
      (.pure ?_)
    · exact ⟨⟨by simpa using ⟨hsig.nodes, hbody⟩, fun _ => .of_parts rfl hsig.shielded⟩, rfl⟩
    · exact ⟨⟨by simpa using hsig.nodes, fun _ => .of_parts rfl hsig.shielded⟩, rfl⟩
  have htype : Gives (Expr.SettledOperand level) (typeOperand p) := by
    refine (type?_settled hp true).bind fun t ht => ?_
    cases t with
    | some t => exact .pure ((ht t rfl).operand level)
    | none => exact step fun here => step fun _ => step fun _ => .pure ((Expr.settledType_bad here.loc).operand level)
  refine step fun here => ?_
  split
  · exact step fun _ => .pure ⟨⟨by simp, fun _ => .of_parts rfl (List.forall_mem_nil _)⟩, rfl⟩
  · exact step fun _ => .pure ⟨⟨by simp, fun _ => .of_parts rfl (List.forall_mem_nil _)⟩, rfl⟩
  · refine step fun _ => (hp.expr _).bind fun inner hinner => step fun _ => .pure ?_
    exact ⟨⟨by simpa using hinner.nodes, fun _ => .of_parts rfl (List.forall_mem_nil _)⟩, rfl⟩
  · exact hfunction
  · exact htype

/-! ## Operators -/

theorem unary_settled (hp : p.GiveSettled) (level : Int) : Gives (Expr.SettledOperand level) (unary p level) := by
  have hprimary : Gives (Expr.SettledOperand level) (primary p level) :=
    (operand_settled hp level).bind fun e he => suffixes_settled hp he
  have hprefixed : ∀ op, Gives (Expr.SettledOperand level) (prefixed p level op) := by
    intro op
    refine step fun _ => (hp.unary level).bind fun e he => .ite (.pure ?_) (.pure ?_)
    · exact settledOperand_of_suffix he (by simpa using ⟨he.notBinary, he.nodes⟩) rfl rfl rfl
    · exact settledOperand_of_suffix he (by simpa using ⟨he.notBinary, he.nodes⟩) rfl rfl rfl
  refine step fun here => ?_
  split
  · exact step fun _ => .ite ((channelType_settled hp).bind fun t ht => suffixes_settled hp (ht.operand level)) (hprefixed _)
  · exact .ite (hprefixed _) hprimary
  · exact hprimary

/-- If the operands bind more tightly than the operators of a family, then what the operators join binds at least as tightly as they do. -/
theorem binaryLevel_settled (family : Operator.Family) {q : Nat} (hfamily : family.precedence? = some q) {operand : Parse Expr}
    (h : Gives (fun e => e.SettledAt level ∧ q < e.binding) operand) :
    Gives (fun e => e.SettledAt level ∧ q ≤ e.binding) (binaryLevel family operand) := by
  refine h.bind fun first hfirst => loop (fun left hleft => step fun here => ?_) ⟨hfirst.1, hfirst.2.le⟩
  split
  · next op _ =>
    split
    · next hop =>
      refine step fun _ => h.bind fun right hright => .pure ?_
      have hprec : op.precedence? = some q := by rw [Operator.precedence?, hop, hfamily]
      refine ⟨⟨?_, fun hlevel => .of_parts rfl ?_⟩, ?_⟩
      · rw [ForInStep.value, Expr.nodes, settled_cons, settled_append, Node.settled_expr]
        exact ⟨⟨q, hprec, hleft.2, hright.2⟩, hleft.1.nodes, hright.1.nodes⟩
      · exact List.forall_mem_cons.2 ⟨hleft.1.shielded hlevel, List.forall_mem_singleton.2 (hright.1.shielded hlevel)⟩
      · rw [ForInStep.value, Expr.binding, hprec]
        exact le_rfl
    · exact .pure hleft
  · exact .pure hleft

theorem expr_settled (hp : p.GiveSettled) (level : Int) : Gives (Expr.SettledAt level) (expr p level) := by
  have hunary : Gives (fun e => e.SettledAt level ∧ 5 < e.binding) (unary p level) := (unary_settled hp level).weaken fun e he =>
    ⟨he.toSettledAt, by rw [Expr.binding_of_not_isBinary he.notBinary]; exact Nat.lt_succ_self 5⟩
  have hmultiplicative := binaryLevel_settled .multiplicative rfl hunary
  have hadditive := binaryLevel_settled .additive rfl hmultiplicative
  have hrelational := binaryLevel_settled .relational rfl hadditive
  have hand := binaryLevel_settled .logicalAnd rfl hrelational
  exact (binaryLevel_settled .logicalOr rfl hand).weaken fun e he => he.1

theorem exprList_settled (hp : p.GiveSettled) (level : Int) :
    Gives (fun es => es.1.SettledAt level ∧ ∀ e ∈ es.2, e.SettledAt level) (exprList p level) := separated (expr_settled hp level)

theorem elementValue_settled (hp : p.GiveSettled) (level : Int) : Gives (fun e => Settled e.nodes) (elementValue p level) :=
  step fun _ => .ite ((composite_settled hp level fun _ h => absurd h (Option.not_mem_none _)).weaken fun _ he => he.1)
    ((expr_settled hp level).weaken fun _ he => he.nodes)

end Grammar

end GoSyntax
