import GoSyntax.Proofs.Canonical.Expressions

/-!
# Simple statements are read back

A simple statement is a list of expressions and what comes behind it: nothing that could go on with it, an operator, or more
expressions behind an operator.
-/

namespace GoSyntax

open Parse Grammar Productions

variable {level : Int} {position : SimplePosition} {rest : List TokenKind}

/-- The word of a simple statement is read back, if nothing behind it goes on with it. -/
structure Stmt.ReadsAsSimple (s : Stmt) (level : Int) : Prop where
  starts : ∀ tail, (nextKind (s.word ++ tail)).startsValue = true
  yields : ∀ position rest,
    nextKind rest = .punctuation .semicolon ∨ nextKind rest = .punctuation .lBrace ∧ s.opensBody level = false →
    Yields (Grammar.simple .full position level) (fun r => ∃ s', r = .stmt s' ∧ s'.shape = s.shape) (s.word ++ rest) rest

namespace Yields

/-- A list of one expression. -/
theorem singleExpr {e : Expr} (h : e.ReadsAsValue level) (hcomma : (nextKind rest).sameKind Punctuation.comma = false)
    (hrest : (nextKind rest).closes = true ∨ nextKind rest = .punctuation .lBrace ∧ e.opensBody level = false) :
    Yields (Grammar.exprList .full level) (fun r => ∃ e', r = (e', []) ∧ e'.shape = e.shape) (e.word ++ rest) rest := by
  have hlist : Yields (Grammar.exprList .full level) (fun r => List.Forall₂ (fun a e => a.shape = e.shape) (r.1 :: r.2) [e])
      (exprsWord [e] ++ rest) rest := by
    refine exprList (List.cons_ne_nil e []) (List.forall_mem_singleton.2 h) hcomma (hrest.imp_right fun h => ⟨h.1, ?_⟩)
    rintro _ ⟨⟩
    exact h.2
  refine hlist.conseq ?_
  rintro ⟨e', es⟩ hes
  cases hes with
  | cons he hnil =>
    cases hnil
    exact ⟨e', rfl, he⟩

theorem checkAtMost {β : Type} {R : β → Prop} {k : Unit → Parse β} {limit found : Nat} {context : String} {loc : Location}
    {input : List TokenKind} (h : found ≤ limit) (hk : Yields (k ()) R input rest) :
    Yields (Grammar.checkAtMost limit context found loc >>= k) R input rest :=
  .reportUnless (decide_eq_true h) hk

/-- Behind its first expressions, an operator of statements says what the statement is. -/
theorem simpleFrom {op : Operator} (hop : op.family = .incDec ∨ op.family = .assignment) {first : Expr} {others : List Expr}
    {loc : Location}
    {Q : Simple → Prop} {input : List TokenKind}
    (h : Yields (simpleBy .full position level op first others loc) Q (.operator op :: input) rest) :
    Yields (Grammar.simpleFrom .full position level first others loc) Q (.operator op :: input) rest := by
  refine .current fun _ => ?_
  cases op with
  | arrow => rcases hop with hop | hop <;> nomatch hop
  | _ => exact h

end Yields

theorem TokenKind.closes_operator {op : Operator} (hop : op.family = .incDec ∨ op.family = .assignment) :
    (TokenKind.operator op).closes = true := by
  rw [closes, Operator.precedence?]
  rcases hop with hop | hop <;> rw [hop] <;> rfl

namespace Stmt

/-- An expression on its own. -/
theorem readsAsSimple_expr {loc : Location} {e : Expr} (h : e.ReadsAsValue level) : (expr loc e).ReadsAsSimple level where
  starts := h.starts
  yields position rest hrest := by
    have hcomma : (nextKind rest).sameKind Punctuation.comma = false := by
      rcases hrest with hrest | ⟨hrest, -⟩ <;> rw [hrest] <;> rfl
    have hcolon : (nextKind rest).sameKind Punctuation.colon = false := by
      rcases hrest with hrest | ⟨hrest, -⟩ <;> rw [hrest] <;> rfl
    refine .current fun _ => .bind (.singleExpr h hcomma (hrest.imp_left fun h => by rw [h]; rfl)) ?_
    rintro _ ⟨e', rfl, he⟩
    have halone : ∀ loc', Yields (alone e' [] loc') (fun s => s.shape = (expr loc e).shape) rest rest := by
      refine fun loc' => .yes rfl (.ret ?_)
      rw [shape, shape, he]
    have hbare : ∀ loc', Yields (bare .full position e' [] loc') (fun s => s.shape = (expr loc e).shape) rest rest := by
      intro loc'
      unfold bare
      split
      · exact .ifNotAt hcolon (halone loc')
      · exact halone loc'
    have hstmt : ∀ loc', Yields (Simple.stmt <$> bare .full position e' [] loc')
        (fun r => ∃ s', r = .stmt s' ∧ s'.shape = (expr loc e).shape)
        rest rest := fun loc' => .map ((hbare loc').conseq fun s' hs => ⟨s', rfl, hs⟩)
    refine .current fun _ => ?_
    rcases hrest with hrest | ⟨hrest, -⟩ <;> rw [hrest] <;> exact hstmt _

theorem readsAsSimple_send {loc : Location} {channel value : Expr} (hchannel : channel.ReadsAsValue level)
    (hvalue : value.ReadsAsValue level) : (send loc channel value).ReadsAsSimple level where
  starts tail := by
    rw [word_send, List.append_assoc]
    exact hchannel.starts _
  yields position rest hrest := by
    rw [word_send, List.append_assoc, List.cons_append]
    refine .current fun _ => .bind (.singleExpr hchannel rfl (.inl rfl)) ?_
    rintro _ ⟨channel', rfl, hc⟩
    refine .current fun _ => .map (.consume fun _ => .checkAtMost (le_refl 1) ?_)
    refine .bind (hvalue.yields rest (hrest.imp_left fun h => by rw [h]; rfl)) fun value' hv => .ret ⟨_, rfl, ?_⟩
    rw [shape, shape, hc, hv]

theorem readsAsSimple_incDec {loc : Location} {op : Operator} {operand : Expr} (hop : op.family = .incDec)
    (h : operand.ReadsAsValue level) : (incDec loc op operand).ReadsAsSimple level where
  starts tail := by
    rw [word_incDec, List.append_assoc]
    exact h.starts _
  yields position rest hrest := by
    rw [word_incDec, List.append_assoc]
    refine .current fun _ => .bind (.singleExpr h rfl (.inl (TokenKind.closes_operator (.inl hop)))) ?_
    rintro _ ⟨operand', rfl, ho⟩
    refine .simpleFrom (.inl hop) ?_
    rw [simpleBy, hop]
    refine .map (.consume fun _ => .checkAtMost (le_refl 1) (.ret ⟨_, rfl, ?_⟩))
    rw [shape, shape, ho]

theorem readsAsSimple_assign {loc : Location} {op : Operator} {left right : List Expr} (hop : op.family = .assignment)
    (hne : left ≠ []) (hne' : right ≠ []) (hfault : assignmentFault? op left.length right.length = none)
    (hleft : ∀ e ∈ left, e.ReadsAsValue level) (hright : ∀ e ∈ right, e.ReadsAsValue level) :
    (assign loc op left right).ReadsAsSimple level where
  starts tail := by
    obtain ⟨e, es, rfl⟩ := List.exists_cons_of_ne_nil hne
    rw [word_assign, exprsWord_cons, List.append_assoc, List.append_assoc]
    exact (hleft e (List.mem_cons_self ..)).starts _
  yields position rest hrest := by
    have hcomma : (nextKind rest).sameKind Punctuation.comma = false := by
      rcases hrest with hrest | ⟨hrest, -⟩ <;> rw [hrest] <;> rfl
    have hcloses : (nextKind rest).closes = true
        ∨ nextKind rest = .punctuation .lBrace ∧ ∀ e ∈ right.getLast?, e.opensBody level = false := by
      refine hrest.imp (fun h => by rw [h]; rfl) fun h => ⟨h.1, fun e he => ?_⟩
      have hopens : right.getLast?.any (Expr.opensBody level) = false := h.2
      rw [Option.mem_def.1 he] at hopens
      exact hopens
    have hstart : (nextKind (exprsWord right ++ rest)).sameKind Keyword.range = false := by
      obtain ⟨e, es, rfl⟩ := List.exists_cons_of_ne_nil hne'
      rw [exprsWord_cons, List.append_assoc]
      exact TokenKind.sameKind_of_startsValue ((hright e (List.mem_cons_self ..)).starts _) rfl
    rw [word_assign, List.append_assoc, List.cons_append]
    refine .current fun _ => .bind (.exprList hne hleft rfl (.inl (TokenKind.closes_operator (.inr hop)))) ?_
    rintro ⟨first, others⟩ hl
    have hassign : ∀ loc', Yields (Simple.stmt <$> assignment .full level op (first :: others) loc')
        (fun r => ∃ s', r = .stmt s' ∧ s'.shape = (assign loc op left right).shape) (exprsWord right ++ rest) rest := by
      refine fun loc' => .map (.bind (.exprList hne' hright hcomma hcloses) ?_)
      rintro ⟨value, values⟩ hr
      have hcheck : Yields (checkAssignment op (first :: others).length (values.length + 1) loc') (fun _ => True) rest rest := by
        rw [checkAssignment, hl.length_eq, ← List.length_cons (a := value), hr.length_eq, hfault]
        exact .ret trivial
      refine .bind hcheck fun _ _ => .ret ⟨_, rfl, ?_⟩
      rw [shape, shape, shapes_congr shapesOfExprs_eq hl, shapes_congr shapesOfExprs_eq hr]
    refine .simpleFrom (.inr hop) ?_
    rw [simpleBy, hop]
    refine .consume fun _ => .andM ?_
    refine .bind (.ret rfl) fun isLoop _ => ?_
    cases isLoop with
    | false => exact hassign _
    | true => exact .ifNotAccept hstart (hassign _)

end Stmt

end GoSyntax
