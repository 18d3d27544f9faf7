import GoSyntax.Grammar.Expression
import GoSyntax.Proofs.Lengths.Types

/-!
# Types in expressions have lengths

An operand may be a type whose length is left open; the types in the operand itself have lengths.
-/

namespace GoSyntax

/-- All types below the expression have lengths where they must. -/
def Expr.SizedBelow (e : Expr) : Prop := Sized e.nodes

namespace Grammar

open Gives

variable {p : Productions}

@[simp] theorem sized_stmts (ss : List Stmt) : Sized (nodesOfStmts ss) ↔ ∀ s ∈ ss, Sized s.nodes := by
  rw [nodesOfStmts_eq, sized_flatMap]

@[simp] theorem sized_block (b : Block) : Sized b.nodes ↔ ∀ s ∈ b.stmts, Sized s.nodes := by
  obtain ⟨loc, stmts⟩ := b
  simp [Block.nodes, Node.typeParts]

attribute [local simp] Expr.nodes Node.typeParts Expr.typeParts Expr.SizedBelow

/-! ## Blocks -/

theorem statements_sized (hp : p.GiveSized) : Gives (fun ss => ∀ s ∈ ss, Sized s.nodes) (statements p) := by
  have hpass : ∀ stmts, Gives (Keeps (fun s => Sized s.nodes) stmts) (statementPass p stmts) := fun _ =>
    step fun _ => .ite (.pure id) (step fun _ => hp.stmt.bind fun s hs => step fun _ => .ite (.pure (keeps_push rfl hs))
      (step fun _ => .pure (keeps_push rfl hs)))
  exact (collect hpass).bind fun stmts hstmts => .pure hstmts

theorem block_sized (hp : p.GiveSized) : Gives (fun b : Block => ∀ s ∈ b.stmts, Sized s.nodes) (block p) :=
  step fun _ => (statements_sized hp).bind fun _ hstmts => step fun _ => .pure hstmts

/-! ## Suffixes -/

theorem sliceBound_sized (hp : p.GiveSized) (level : Int) : Gives (fun b => ∀ e ∈ b, e.SizedBelow) (sliceBound p level) :=
  step fun _ => .ite .none_ (hp.expr level).some_

theorem sliceFrom_sized (hp : p.GiveSized) (level : Int) {operand : Expr} {low : Option Expr} (hoperand : operand.SizedBelow)
    (hlow : ∀ e ∈ low, e.SizedBelow) : Gives Expr.SizedBelow (sliceFrom p level operand low) := by
  refine step fun _ => (sliceBound_sized hp level).bind fun high hhigh => step fun _ => .ite ?_ (step fun _ => .pure ?_)
  · refine (sliceBound_sized hp level).bind fun max hmax => step fun _ => step fun _ => step fun _ => .pure ?_
    simp only [Expr.SizedBelow] at hoperand hlow hhigh hmax
    simpa using ⟨hoperand, hlow, hhigh, hmax⟩
  · simp only [Expr.SizedBelow] at hoperand hlow hhigh
    simpa using ⟨hoperand, hlow, hhigh⟩

theorem indexOrSlice_sized (hp : p.GiveSized) (level : Int) {operand : Expr} (hoperand : operand.SizedBelow) :
    Gives Expr.SizedBelow (indexOrSlice p level operand) := by
  refine step fun _ => step fun _ => .ite (sliceFrom_sized hp _ hoperand fun _ h => nomatch h) ?_
  refine (hp.expr _).bind fun low hlow => step fun _ => .ite (sliceFrom_sized hp _ hoperand (by simpa using hlow)) ?_
  simp only [Expr.SizedBelow] at hoperand
  refine step fun _ => .ite (.pure ?_) (step fun _ => step fun _ => step fun _ => .pure ?_)
  · simpa using ⟨hoperand, hlow⟩
  · simpa using ⟨hoperand, hlow⟩

theorem call_sized (hp : p.GiveSized) (level : Int) {callee : Expr} (hcallee : callee.SizedBelow) :
    Gives Expr.SizedBelow (call p level callee) := by
  have hargument : Gives (fun a : Expr × Bool => a.1.SizedBelow) (argument p (level + 1)) :=
    (hp.expr _).bind fun e he => step fun _ => .pure he
  refine step fun _ => (members _ hargument).bind fun args hargs => step fun _ => .pure ?_
  simp only [Expr.SizedBelow] at hcallee hargs
  simpa using ⟨hcallee, fun e h => h.elim (hargs (e, false)) (hargs (e, true))⟩

theorem composite_sized (hp : p.GiveSized) (level : Int) {t : Option Expr} (ht : ∀ e ∈ t, e.SizedBelow) :
    Gives Expr.SizedBelow (composite p level t) := by
  have helement : Gives Expr.SizedBelow (element p (level + 1)) := by
    refine (hp.elementValue _).bind fun key hkey => step fun _ => .ite ?_ (.pure hkey)
    exact (hp.elementValue _).bind fun value hvalue => .pure (by simpa using ⟨hkey, hvalue⟩)
  refine step fun _ => step fun _ => (members _ helement).bind fun list hlist => step fun _ => .pure ?_
  simp only [Expr.SizedBelow] at ht hlist
  simpa using ⟨ht, hlist⟩

theorem selectorOrAssertion_sized (hp : p.GiveSized) {operand : Expr} (hoperand : operand.SizedBelow) :
    Gives Expr.SizedBelow (selectorOrAssertion p operand) := by
  have hasserted : Gives (fun t => ∀ e ∈ t, e.SizedType) (assertedType? p) := step fun _ => .ite .none_ (type_sized hp).some_
  simp only [Expr.SizedBelow] at hoperand
  refine step fun _ => step fun _ => .ite (hasserted.bind fun t ht => step fun _ => .pure ?_) (step fun _ => .pure ?_)
  · simpa using ⟨fun e he => (ht e he).2, hoperand, fun e he => (ht e he).1⟩
  · simpa using hoperand

theorem suffixes_sized (hp : p.GiveSized) (level : Int) {operand : Expr} (hoperand : operand.SizedBelow) :
    Gives Expr.SizedBelow (suffixes p level operand) := by
  refine loop (fun operand hoperand => ?_) hoperand
  have goesOn : ∀ {f : Parse Expr}, Gives Expr.SizedBelow f → Gives (fun s : ForInStep Expr => s.value.SizedBelow) (.yield <$> f) :=
    fun hf => hf.map fun e he => he
  refine step fun here => ?_
  split
  · exact goesOn (selectorOrAssertion_sized hp hoperand)
  · exact goesOn (indexOrSlice_sized hp level hoperand)
  · exact goesOn (call_sized hp level hoperand)
  · exact .ite (goesOn (composite_sized hp level (by simpa using hoperand))) (.pure hoperand)
  · exact .pure hoperand

/-! ## Operands -/

theorem operand_sized (hp : p.GiveSized) (level : Int) : Gives Expr.SizedBelow (operand p level) := by
  have hfunction : Gives Expr.SizedBelow (functionOrType p) := by
    refine step fun _ => (signature_sized hp).bind fun sig hsig => step fun _ => .ite ((block_sized hp).bind fun body hbody => .pure ?_)
      (.pure ?_)
    · simpa using ⟨hsig.typeParts, hsig.nodes, hbody⟩
    · simpa using ⟨hsig.typeParts, hsig.nodes⟩
  have htype : Gives Expr.SizedBelow (typeOperand p) := by
    refine (type?_sized hp true).bind fun t ht => ?_
    cases t with
    | some t => exact .pure (ht t rfl).1
    | none => exact step fun _ => step fun _ => step fun _ => .pure (by simp)
  refine step fun here => ?_
  split
  · exact step fun _ => .pure (by simp)
  · exact step fun _ => .pure (by simp)
  · exact step fun _ => (hp.expr _).bind fun inner hinner => step fun _ => .pure (by simpa using hinner)
  · exact hfunction
  · exact htype

/-! ## Operators -/

theorem unary_sized (hp : p.GiveSized) (level : Int) : Gives Expr.SizedBelow (unary p level) := by
  have hprimary : Gives Expr.SizedBelow (primary p level) := (operand_sized hp level).bind fun e he => suffixes_sized hp level he
  have hprefixed : ∀ op, Gives Expr.SizedBelow (prefixed p level op) := fun op =>
    step fun _ => (hp.unary level).bind fun e he => .ite (.pure (by simpa using he)) (.pure (by simpa using he))
  refine step fun here => ?_
  split
  · exact step fun _ => .ite ((channelType_sized hp).bind fun t ht => suffixes_sized hp level ht.1) (hprefixed _)
  · exact .ite (hprefixed _) hprimary
  · exact hprimary

theorem binaryLevel_sized (family : Operator.Family) {operand : Parse Expr} (h : Gives Expr.SizedBelow operand) :
    Gives Expr.SizedBelow (binaryLevel family operand) := by
  refine h.bind fun first hfirst => loop (fun left hleft => step fun here => ?_) hfirst
  simp only [Expr.SizedBelow] at hleft
  split
  · refine .ite (step fun _ => h.bind fun right hright => .pure ?_) (.pure hleft)
    simpa using ⟨hleft, hright⟩
  · exact .pure hleft

theorem expr_sized (hp : p.GiveSized) (level : Int) : Gives Expr.SizedBelow (expr p level) := by
  rw [expr]
  induction binaryFamilies with
  | nil => exact unary_sized hp level
  | cons family families ih => exact binaryLevel_sized family ih

theorem exprList_sized (hp : p.GiveSized) (level : Int) :
    Gives (fun es => es.1.SizedBelow ∧ ∀ e ∈ es.2, e.SizedBelow) (exprList p level) := separated (expr_sized hp level)

theorem elementValue_sized (hp : p.GiveSized) (level : Int) : Gives Expr.SizedBelow (elementValue p level) :=
  step fun _ => .ite (composite_sized hp level fun _ h => nomatch h) (expr_sized hp level)

end Grammar

end GoSyntax
