import GoSyntax.Grammar.TypeForm
import GoSyntax.Proofs.Reading.List

/-!
# Reading types

`Agrees n p q` says that two sets of productions do the same on fewer than `n` tokens and read what they should. Every production
that takes a token before it enters one of them again then does so with one token more: here for types, signatures and the bodies of
structs and interfaces.
-/

namespace GoSyntax

open Parse

/-- The tally of a part that may be missing. -/
def tally? {α : Type} (w : α → Tally) (a : Option α) : Tally := .maybe (a.map w)

@[simp] theorem tally?_some {α : Type} (w : α → Tally) (a : α) : tally? w (some a) = w a := rfl

@[simp] theorem tally?_none {α : Type} (w : α → Tally) : tally? w none = 1 := rfl

/-- On fewer than `n` tokens the productions are the same and read what they should. No type starts with a closing parenthesis, and a
keyword that starts a statement is taken. -/
structure Agrees (n : Nat) (p q : Productions) : Prop where
  type? : Reads n (tally? Expr.tally) p.type? q.type?
  noType : ∀ m ≤ n, ∀ start t, Same (Reached start m t (·.kind = Punctuation.rParen)) p.type? q.type?
    fun r c => r = none ∧ Reached start m t (·.kind = Punctuation.rParen) c
  expr : ∀ level, Reads n Expr.tally (p.expr level) (q.expr level)
  unary : ∀ level, Reads n Expr.tally (p.unary level) (q.unary level)
  elementValue : ∀ level, Reads n Expr.tally (p.elementValue level) (q.elementValue level)
  stmt : Reads n Stmt.tally p.stmt q.stmt
  keywordStmt : ∀ k < n, Takes k (fun a => Recovery.statementStart.contains a.kind = true) Stmt.tally p.stmt q.stmt

/-- On no tokens at all any productions agree. -/
theorem Agrees.zero (p q : Productions) : Agrees 0 p q := by
  have hnone : ∀ {m start t φ}, m ≤ 0 → ∀ c, ¬Reached start m t φ c := fun hm c hc => Nat.not_lt_zero _ (hc.room.trans_le hm)
  exact {
    type? := fun _ hm _ _ => .absurd (hnone hm)
    noType := fun _ hm _ _ => .absurd (hnone hm)
    expr := fun _ _ hm _ _ => .absurd (hnone hm)
    unary := fun _ _ hm _ _ => .absurd (hnone hm)
    elementValue := fun _ _ hm _ _ => .absurd (hnone hm)
    stmt := fun _ hm _ _ => .absurd (hnone hm)
    keywordStmt := fun k hk => absurd hk (Nat.not_lt_zero k) }

namespace Grammar

variable {n m : Nat} {p q : Productions} {start : Cursor} {t : Tally} {φ : Token → Prop}

/-! ## Names and composed types -/

theorem type_reads (h : Agrees n p q) : Reads n Expr.tally (type p) (type q) := by
  intro m hm start t
  refine h.type?.bind hm fun r => ?_
  cases r with
  | some e => exact .ret le_rfl
  | none =>
    refine .current fun here _ => .reportHere (fun _ => rfl) ?_
    rintro _ rfl
    refine (skipTo_reads m _).bind le_rfl fun _ => .ret ?_
    exact Tally.le_of_words_eq_zero (by simp) (by simp [Expr.tally_bad])

/-- What follows the first name of a type name. -/
theorem qualified_same (base : Name) :
    Same (Reached start m (t * base.tally) φ) (qualified base) (qualified base) fun e => Reached start m (t * e.tally) ⊤ := by
  refine .ifAccept ((name_reads m).bind le_rfl fun field => .ret (le_of_eq ?_)) (.ret le_rfl)
  simp only [Expr.tally_selector, Expr.tally_ident, Name.tally, mul_assoc]

theorem typeName_reads (n : Nat) : Reads n Expr.tally typeName typeName := fun _ hm _ _ =>
  (name_reads n).bind hm fun base => qualified_same base

theorem typeName_takes (n : Nat) : Takes n (fun a => a.kind.isIdent = true) Expr.tally typeName typeName := fun _ hm _ _ =>
  (name_takes n).bind hm (fun _ => id) fun base => qualified_same base

theorem givenLength_reads (h : Agrees n p q) (inferable : Bool) :
    Reads n ArrayLength.tally (givenLength p inferable) (givenLength q inferable) := by
  intro m hm start t
  have hfixed : Same (Reached start m t ⊤) (do return .fixed (← p.expr 0)) (do return .fixed (← q.expr 0))
      fun l : ArrayLength => Reached start m (t * l.tally) ⊤ := (h.expr 0).bind hm fun _ => .ret le_rfl
  cases inferable with
  | false => exact hfixed
  | true => exact .ifAccept (.ret le_rfl) (hfixed.weaken le_rfl le_rfl fun _ _ => trivial)

theorem arrayLength_reads (h : Agrees n p q) (inferable : Bool) :
    Reads n (fun l => l.tally * .token Punctuation.rBracket) (arrayLength p inferable) (arrayLength q inferable) := by
  intro m hm start t
  refine .ifAccept (.ret (by simp [ArrayLength.tally_slice])) ?_
  refine (givenLength_reads h inferable).bind hm fun len => (expect_reads m _).bind le_rfl fun _ => .ret ?_
  rw [mul_assoc]

theorem arrayType_takes (h : Agrees n p q) (inferable : Bool) :
    Takes n (·.kind = Punctuation.lBracket) Expr.tally (arrayType p inferable) (arrayType q inferable) := by
  intro m hm start t
  refine .consumeKind (fun _ => id) fun here => (arrayLength_reads h inferable).bind hm fun len => ?_
  refine (type_reads h).bind hm fun elem => .ret (le_of_eq ?_)
  simp only [Expr.tally_arrayType, mul_assoc]

theorem mapType_takes (h : Agrees n p q) : Takes n (·.kind = Keyword.map) Expr.tally (mapType p) (mapType q) := by
  intro m hm start t
  refine .consumeKind (fun _ => id) fun here => (expect_reads m _).bind le_rfl fun _ => ?_
  refine (type_reads h).bind hm fun key => (expect_reads m _).bind le_rfl fun _ => ?_
  refine (type_reads h).bind hm fun value => .ret (le_of_eq ?_)
  simp only [Expr.tally_mapType, mul_assoc]

/-- The words of a channel type before its element. -/
def directionTally : ChannelDirection → Tally
  | .both => .token Keyword.chan
  | .send => .token Keyword.chan * .token Operator.arrow
  | .receive => .token Operator.arrow * .token Keyword.chan

theorem tally_channelType (loc : Location) (direction : ChannelDirection) (elem : Expr) :
    (Expr.channelType loc direction elem).tally = directionTally direction * elem.tally := by
  cases direction with
  | both => exact Expr.tally_channelType_both loc elem
  | send => exact Expr.tally_channelType_send loc elem
  | receive => exact Expr.tally_channelType_receive loc elem

theorem channelDirection_takes (n : Nat) :
    Takes n (fun a => a.kind = Keyword.chan ∨ a.kind = Operator.arrow) directionTally channelDirection channelDirection := by
  intro m hm start t
  refine .ifAcceptTake (.ifAccept (.ret ?_) (.ret le_rfl)) ?_
  · rw [mul_assoc]
    exact le_rfl
  · refine (expect_takes m _).bind le_rfl (fun a ha => ha.1.resolve_left ha.2) fun _ => ?_
    refine (expect_reads m _).bind le_rfl fun _ => .ret ?_
    rw [mul_assoc]
    exact le_rfl

theorem channelType_takes (h : Agrees n p q) :
    Takes n (fun a => a.kind = Keyword.chan ∨ a.kind = Operator.arrow) Expr.tally (channelType p) (channelType q) := by
  intro m hm start t
  refine .current fun here hhere => (channelDirection_takes n).bind hm (by rintro _ rfl; exact hhere) fun direction => ?_
  refine (type_reads h).bind hm fun elem => .ret (le_of_eq ?_)
  simp only [tally_channelType, mul_assoc]

end Grammar

end GoSyntax
