import GoSyntax.Proofs.Canonical.Types

/-!
# Expressions are read back

An expression is read in stages: an operand grows by its suffixes, may stand behind operators, and grows by the operators of one family
after the other, the tightest first. An expression belongs to the stage at which its word has been read, and whatever is read first of
its word belongs to this stage or an earlier one. What comes behind it is left to a later stage, if no stage before takes it.
-/

namespace GoSyntax

open Parse Grammar Productions

/-! ## Stages -/

/-- How tightly a token of this kind joins two operands; not at all, if it joins none. -/
def TokenKind.precedence : TokenKind → Nat
  | .operator op => op.precedence?.getD 0
  | _ => 0

/-- The token starts a suffix of any operand. -/
def TokenKind.startsSuffix : TokenKind → Bool
  | .punctuation mark => mark == .dot || mark == .lParen || mark == .lBracket
  | _ => false

/-- The families of the binary operators, the tightest first. -/
def familyAt : Nat → Operator.Family
  | 0 => .multiplicative
  | 1 => .additive
  | 2 => .relational
  | 3 => .logicalAnd
  | _ => .logicalOr

/-- The stage at which the expression has been read. -/
def Expr.stage (e : Expr) : Nat := 7 - e.rank

/-- What is read up to a stage. -/
def tight (level : Int) : Nat → Parse Expr
  | 0 | 1 => Grammar.unary .full level
  | s + 2 => binaryLevel (familyAt s) (tight level (s + 1))

/-- How an expression grows at a stage. -/
def grow (level : Int) : Nat → Expr → Parse Expr
  | 0, e => suffixes .full level e
  | 1, e => return e
  | s + 2, e => loop e (binaryPass (familyAt s) (tight level (s + 1)))

theorem tight_succ (level : Int) (s : Nat) : tight level (s + 1) = tight level s >>= grow level (s + 1) := by
  cases s with
  | zero => exact (bind_pure _).symm
  | succ s => rfl

theorem expr_eq_tight (level : Int) : Grammar.expr .full level = tight level 6 := rfl

theorem exists_families (level : Int) (s : Nat) :
    ∃ families : List Operator.Family, tight level (s + 1) = families.foldr binaryLevel (Grammar.unary .full level) := by
  induction s with
  | zero => exact ⟨[], rfl⟩
  | succ s ih =>
    obtain ⟨families, h⟩ := ih
    exact ⟨familyAt s :: families, by rw [tight, h]; rfl⟩

theorem ends_binaryPass (level : Int) (s : Nat) : Ends (binaryPass (familyAt s) (tight level (s + 1))) := by
  obtain ⟨families, h⟩ := exists_families level s
  rw [h]
  exact loopsEnd_full.operands level families (familyAt s)

theorem family_eq_familyAt_iff (op : Operator) {s : Nat} (hs : s ≤ 4) :
    op.family = familyAt s ↔ (TokenKind.operator op).precedence = 5 - s := by
  rw [TokenKind.precedence, Operator.precedence?]
  have hall : s = 0 ∨ s = 1 ∨ s = 2 ∨ s = 3 ∨ s = 4 := by omega
  rcases hall with rfl | rfl | rfl | rfl | rfl <;> cases op.family <;> simp [familyAt, Operator.Family.precedence?]

theorem TokenKind.precedence_le (kind : TokenKind) : kind.precedence ≤ 5 := by
  cases kind with
  | operator op =>
    rw [precedence, Operator.precedence?]
    cases op.family <;> simp [Operator.Family.precedence?]
  | _ => exact Nat.zero_le 5

theorem TokenKind.of_closes (kind : TokenKind) (h : kind.closes = true) :
    kind.startsSuffix = false ∧ kind ≠ .punctuation .lBrace ∧ kind.precedence = 0 := by
  cases kind with
  | punctuation mark => cases mark <;> simp_all [closes, startsSuffix, precedence]
  | operator op => simp_all [closes, startsSuffix, precedence]
  | _ => simp [startsSuffix, precedence]

/-- A token of this kind behind the expression is left to a stage: no stage before takes it. -/
def Expr.LeavesTo (e : Expr) (level : Int) : Nat → TokenKind → Prop
  | 0, kind =>
    (e.isTypeForm = true → kind ≠ .punctuation .dot) ∧ (kind = .punctuation .lBrace → e.opensBody level = takesBody level e)
  | s + 1, kind =>
    kind.startsSuffix = false ∧ (kind = .punctuation .lBrace → e.opensBody level = false) ∧ kind.precedence + s ≤ 6

/-- The word of the expression is read up to a stage: it is, if what is read then and grows at that stage is. -/
def Expr.ReadsUpTo (e : Expr) (level : Int) (s : Nat) : Prop :=
  ∀ (Q : Expr → Prop) (input rest : List TokenKind), e.LeavesTo level s (nextKind input) →
    (∀ e' : Expr, e'.shape = e.shape → Yields (grow level s e') Q input rest) → Yields (tight level s) Q (e.word ++ input) rest

/-- The word of the expression is read up to its stage. -/
def Expr.Reads (e : Expr) (level : Int) : Prop := e.ReadsUpTo level e.stage

/-- A spelling is read as the expression up to a stage. It need not be the word of the expression: it may be one that the parser takes for
it. -/
def Expr.ReadsWord (e : Expr) (spelling : List TokenKind) (level : Int) (s : Nat) : Prop :=
  ∀ (Q : Expr → Prop) (input rest : List TokenKind), e.LeavesTo level s (nextKind input) →
    (∀ e' : Expr, e'.shape = e.shape → Yields (grow level s e') Q input rest) → Yields (tight level s) Q (spelling ++ input) rest

variable {level : Int} {e operand left right : Expr} {rest spelling : List TokenKind}

theorem Expr.takesBody_eq_false (h : e.opensBody level = false) : takesBody level e = false := by
  cases e with
  | binary | star | unary | functionType => rfl
  | _ => exact h

theorem Expr.LeavesTo.earlier {s : Nat} {kind : TokenKind} (h : e.LeavesTo level (s + 1) kind) : e.LeavesTo level s kind := by
  obtain ⟨hsuffix, hbody, hprec⟩ := h
  cases s with
  | zero =>
    refine ⟨fun _ hdot => ?_, fun hbrace => ?_⟩
    · subst hdot
      nomatch hsuffix
    · rw [hbody hbrace, takesBody_eq_false (hbody hbrace)]
  | succ s => exact ⟨hsuffix, hbody, Nat.le_of_succ_le hprec⟩

theorem Expr.LeavesTo.of_le {s t : Nat} {kind : TokenKind} (h : e.LeavesTo level t kind) (hst : s ≤ t) : e.LeavesTo level s kind := by
  induction t, hst using Nat.le_induction with
  | base => exact h
  | succ t _ ih => exact ih h.earlier

namespace Yields

/-- What grows at a stage is done at a token that is left to a later one. -/
theorem growDone {e' : Expr} {s : Nat} (hs : s ≤ 6) (he : e'.shape = e.shape) (h : e.LeavesTo level (s + 1) (nextKind rest)) :
    Yields (grow level s e') (·.shape = e.shape) rest rest := by
  obtain ⟨hsuffix, hbody, hprec⟩ := h
  match s with
  | 0 =>
    refine .loopDone (loopsEnd_full.suffixes level) (.current fun _ => ?_)
    have hdone : Yields (Pure.pure (ForInStep.done e') : Parse (ForInStep Expr)) (fun r => ∃ a, r = .done a ∧ a.shape = e.shape)
      rest rest := .ret ⟨e', rfl, he⟩
    generalize nextKind rest = kind at hsuffix hbody
    cases kind with
    | punctuation mark =>
      cases mark with
      | dot | lParen | lBracket => nomatch hsuffix
      | lBrace =>
        refine .no ?_ hdone
        rw [← Expr.takesBody_shape, he, Expr.takesBody_shape, Expr.takesBody_eq_false (hbody rfl)]
        exact Bool.false_ne_true
      | _ => exact hdone
    | _ => exact hdone
  | 1 => exact .ret he
  | s + 2 =>
    refine .loopDone (ends_binaryPass level s) (.current fun _ => ?_)
    have hdone : Yields (Pure.pure (ForInStep.done e') : Parse (ForInStep Expr)) (fun r => ∃ a, r = .done a ∧ a.shape = e.shape)
      rest rest := .ret ⟨e', rfl, he⟩
    generalize nextKind rest = kind at hprec
    cases kind with
    | operator op =>
      refine .no (fun hfamily => ?_) hdone
      have heq := (family_eq_familyAt_iff op (by omega)).1 hfamily
      omega
    | _ => exact hdone

end Yields

namespace Expr

theorem ReadsWord.upTo {s t : Nat} (h : e.ReadsWord spelling level s) (hst : s ≤ t) (ht : t ≤ 6) : e.ReadsWord spelling level t := by
  induction t, hst using Nat.le_induction with
  | base => exact h
  | succ t _ ih =>
    intro Q input rest hinput hgrow
    have ht : t ≤ 6 := Nat.le_of_succ_le ht
    rw [tight_succ]
    exact .bind (ih ht _ _ _ hinput.earlier fun _ he => .growDone ht he hinput) hgrow

theorem ReadsWord.tight {s t : Nat} (h : e.ReadsWord spelling level s) (hst : s ≤ t) (ht : t ≤ 6)
    (hrest : e.LeavesTo level (t + 1) (nextKind rest)) : Yields (GoSyntax.tight level t) (·.shape = e.shape) (spelling ++ rest) rest :=
  h.upTo hst ht _ _ _ hrest.earlier fun _ he => .growDone ht he hrest

theorem Reads.upTo (h : e.Reads level) {s : Nat} (hs : e.stage ≤ s) (hs6 : s ≤ 6) : e.ReadsUpTo level s := ReadsWord.upTo h hs hs6

theorem Reads.tight (h : e.Reads level) {s : Nat} (hs : e.stage ≤ s) (hs6 : s ≤ 6) (hrest : e.LeavesTo level (s + 1) (nextKind rest)) :
    Yields (GoSyntax.tight level s) (·.shape = e.shape) (e.word ++ rest) rest :=
  ReadsWord.tight h hs hs6 hrest

theorem leavesTo_of_closes {kind : TokenKind} (h : kind.closes = true ∨ kind = .punctuation .lBrace ∧ e.opensBody level = false)
    {s : Nat} (hs : s ≤ 7) : e.LeavesTo level s kind := by
  refine LeavesTo.of_le (t := 7) ?_ hs
  rcases h with h | ⟨rfl, h⟩
  · obtain ⟨hsuffix, hbrace, hprec⟩ := kind.of_closes h
    exact ⟨hsuffix, fun heq => absurd heq hbrace, by rw [hprec]⟩
  · exact ⟨rfl, fun _ => h, Nat.le_refl 6⟩

/-- An expression that is read up to its stage is read as a value. -/
theorem Reads.value (h : e.Reads level) (hin : e.InGrammar level) (hrank : 0 < e.rank) : e.ReadsAsValue level where
  starts := startsValue_word hin hrank
  yields rest hrest := by
    rw [expr_eq_tight]
    exact h.tight (by rw [stage]; omega) le_rfl (leavesTo_of_closes hrest le_rfl)

/-! ## Operators -/

theorem reads_binary {loc : Location} {op : Operator} (hop : op.precedence?.isSome = true) (hleft : left.Reads level)
    (hright : right.Reads level) (hleft' : op.precedence?.getD 0 ≤ left.rank) (hright' : op.precedence?.getD 0 < right.rank) :
    (binary loc op left right).Reads level := by
  intro Q input rest hinput hgrow
  obtain ⟨q, hq⟩ := Option.isSome_iff_exists.1 hop
  have hprec : (TokenKind.operator op).precedence = q := by rw [TokenKind.precedence, hq]; rfl
  have hq5 := (TokenKind.operator op).precedence_le
  have hq1 : 1 ≤ q := by
    rw [Operator.precedence?] at hq
    cases hfamily : op.family <;> simp_all [Operator.Family.precedence?] <;> omega
  rw [hq, Option.getD_some] at hleft' hright'
  have hstage : (binary loc op left right).stage = 5 - q + 2 := by rw [stage, rank, hq, Option.getD_some]; omega
  rw [hstage] at hinput hgrow ⊢
  obtain ⟨hsuffix, hbody, hnext⟩ := hinput
  rw [word_binary, List.append_assoc, List.cons_append]
  refine hleft.upTo (by rw [stage]; omega) (by omega) _ _ _ ⟨rfl, by rintro ⟨⟩, ?_⟩ fun left' hl => ?_
  · change (TokenKind.operator op).precedence + _ ≤ 6
    omega
  · have hpass : Yields (binaryPass (familyAt (5 - q)) (GoSyntax.tight level (5 - q + 1)) left')
        (fun s => ∃ e', s = .yield e' ∧ e'.shape = (binary loc op left right).shape)
        (.operator op :: (right.word ++ input)) input := by
      refine .current fun _ => .yes ((family_eq_familyAt_iff op (by omega)).2 (by omega)) (.consume fun _ => ?_)
      refine .bind (hright.tight (by rw [stage]; omega) (by omega) ⟨hsuffix, hbody, by omega⟩) fun right' hr => .ret ?_
      exact ⟨_, rfl, by rw [shape, shape, hl, hr]⟩
    exact .loopYield (ends_binaryPass level _) hpass hgrow

/-- An operator before an operand that binds as tightly. -/
theorem prefixed (op : Operator) (h : operand.Reads level) (hrank : 6 ≤ operand.rank)
    (hrest : operand.LeavesTo level 1 (nextKind rest)) :
    Yields (Grammar.prefixed .full level op)
      (·.shape = if op = .mul then (star default operand).shape else (unary default op operand).shape)
      (.operator op :: (operand.word ++ rest)) rest := by
  obtain ⟨hsuffix, hbody, -⟩ := hrest
  have hprec := (nextKind rest).precedence_le
  refine .consume fun _ => ?_
  rw [unary_full]
  refine .bind (h.tight (s := 1) (by rw [stage]; omega) (by omega) ⟨hsuffix, hbody, Nat.succ_le_succ hprec⟩) fun operand' ho => ?_
  split
  · exact .ret (by rw [shape, shape, ho])
  · exact .ret (by rw [shape, shape, ho])

theorem reads_star {loc : Location} (h : operand.Reads level) (hrank : 6 ≤ operand.rank) : (star loc operand).Reads level := by
  intro Q input rest hinput hgrow
  exact .last (.bind (.current fun _ => .yes rfl (prefixed .mul h hrank hinput)) hgrow)

theorem reads_unary {loc : Location} {op : Operator} (hop : op.standsBefore = true) (hmul : op ≠ .mul)
    (hchan : op = .arrow → operand.word.head? ≠ some (.keyword .chan))
    (hstart : ∀ tail, (nextKind (operand.word ++ tail)).startsValue = true)
    (h : operand.Reads level) (hrank : 6 ≤ operand.rank) : (unary loc op operand).Reads level := by
  intro Q input rest hinput hgrow
  have hread := prefixed op h hrank hinput
  rw [if_neg hmul] at hread
  refine .last (.bind ?_ hgrow)
  by_cases harrow : op = .arrow
  · subst harrow
    have hsecond : (nextKind (operand.word ++ input)).sameKind Keyword.chan = false := by
      have hchan := hchan rfl
      have hstart := hstart []
      cases hword : operand.word with
      | nil =>
        rw [hword] at hstart
        nomatch hstart
      | cons kind kinds =>
        rw [hword] at hchan
        exact eq_false_of_ne_true fun hsame => hchan (congrArg some ((TokenKind.Bare.sameKind_iff kind).1 hsame))
    exact .current fun _ => .peekSecond fun _ => .no (ne_true_of_eq_false hsecond) hread
  · cases op with
    | arrow => exact absurd rfl harrow
    | mul => exact absurd rfl hmul
    | add | sub | xor | and | not => exact .current fun _ => .yes rfl hread
    | _ => nomatch hop

/-! ## Operands -/

/-- An operand that no operator starts grows by suffixes at once. -/
theorem reads_of_operand (hrank : e.rank = 7) (hstart : ∀ tail, ((nextKind (e.word ++ tail)).operator?).isNone = true)
    (h : ∀ input, e.LeavesTo level 0 (nextKind input) →
      Yields (Grammar.operand .full level) (·.shape = e.shape) (e.word ++ input) input) :
    e.Reads level := by
  intro Q input rest hinput hgrow
  have hstage : e.stage = 0 := by rw [stage, hrank]
  rw [hstage] at hinput hgrow ⊢
  have hprimary : Yields (primary .full level) Q (e.word ++ input) rest := .bind (h input hinput) hgrow
  have hstart := hstart input
  refine .current fun _ => ?_
  generalize nextKind (e.word ++ input) = kind at hstart
  cases kind with
  | operator op => nomatch hstart
  | _ => exact hprimary

theorem reads_ident (loc : Location) (text : String) : (ident loc text).Reads level :=
  reads_of_operand rfl (fun _ => rfl) fun _ _ => .current fun _ => .consume fun _ => .ret rfl

theorem reads_literal (loc : Location) (value : Constant) : (literal loc value).Reads level :=
  reads_of_operand rfl (fun _ => rfl) fun _ _ => .current fun _ => .consume fun _ => .ret rfl

theorem reads_paren {loc : Location} (h : e.ReadsAsValue (level + 1)) : (paren loc e).Reads level := by
  refine reads_of_operand rfl (fun _ => rfl) fun input _ => ?_
  rw [word_paren, List.cons_append, List.append_assoc]
  refine .current fun _ => .consume fun _ => ?_
  rw [expr_full]
  refine .bind (h.yields _ (.inl rfl)) fun e' he => .expect rfl fun _ => .ret ?_
  rw [shape, shape, he]

/-- A type that no name and no parenthesis starts is read where an operand may stand. -/
theorem reads_typeForm (hform : e.isTypeForm = true) (hstart : ∀ tail, ((nextKind (e.word ++ tail)).operator?).isNone = true)
    (hfunc : ∀ loc sig, e ≠ .functionType loc sig) (h : e.ReadsAsType true) : e.Reads level := by
  refine reads_of_operand (rank_of_isTypeForm hform) hstart fun input hinput => ?_
  have hdot : (nextKind input).sameKind Punctuation.dot = false :=
    eq_false_of_ne_true fun hsame => hinput.1 hform ((TokenKind.Bare.sameKind_iff _).1 hsame)
  have htype : Yields (typeOperand .full) (·.shape = e.shape) (e.word ++ input) input := by
    refine .bind (h input hdot) ?_
    rintro _ ⟨e', rfl, he⟩
    exact .ret he
  cases e with
  | arrayType | structType | interfaceType | mapType => exact .current fun _ => htype
  | channelType loc direction elem =>
    cases direction with
    | receive => nomatch hstart []
    | both | send => exact .current fun _ => htype
  | functionType loc sig => exact absurd rfl (hfunc loc sig)
  | _ => nomatch hform

/-- An arrow before `chan` starts a type. -/
theorem reads_receiveType {loc : Location} {elem : Expr} (h : elem.ReadsAsType false) :
    (channelType loc .receive elem).Reads level := by
  intro Q input rest hinput hgrow
  have hdot : (nextKind input).sameKind Punctuation.dot = false :=
    eq_false_of_ne_true fun hsame => hinput.1 rfl ((TokenKind.Bare.sameKind_iff _).1 hsame)
  have hread : Yields (Grammar.channelType .full) (·.shape = (channelType loc .receive elem).shape)
    ((channelType loc .receive elem).word ++ input) input := .channelType loc h (fun hboth => nomatch hboth) hdot
  exact .current fun _ => .peekSecond fun _ => .yes rfl (.bind hread hgrow)

end Expr

/-- The word of a block is read back. -/
def Block.Reads (b : Block) : Prop := ∀ rest, Yields (Grammar.block .full) (·.shape = b.shape) (b.word ++ rest) rest

namespace Expr

/-- A function type is one if no body follows. -/
theorem reads_functionType {loc : Location} {sig : Signature} (h : sig.Reads) : (functionType loc sig).Reads level := by
  refine reads_of_operand rfl (fun _ => rfl) fun input hinput => ?_
  have hbrace : (nextKind input).sameKind Punctuation.lBrace = false :=
    eq_false_of_ne_true fun hsame => nomatch hinput.2 ((TokenKind.Bare.sameKind_iff _).1 hsame)
  refine .current fun _ => .consume fun _ => .bind (h input) fun sig' hs => .ifNotAt hbrace (.ret ?_)
  rw [shape, shape, hs]

theorem reads_function {loc : Location} {sig : Signature} {body : Block} (h : sig.Reads) (hbody : body.Reads) :
    (function loc sig body).Reads level := by
  refine reads_of_operand rfl (fun _ => rfl) fun input hinput => ?_
  have hbrace : (nextKind (body.word ++ input)).sameKind Punctuation.lBrace = true := by
    cases body
    rw [Block.word_mk]
    rfl
  rw [word_function, List.cons_append, List.append_assoc]
  refine .current fun _ => .consume fun _ => .bind (h _) fun sig' hs => .ifAt hbrace (.bind (hbody input) fun body' hb => .ret ?_)
  rw [shape, shape, hs, hb]

/-! ## Suffixes -/

/-- An operand grows by a suffix where its word goes on with one that is read as the suffix. -/
theorem readsWord_of_suffix {kind : TokenKind} {tail : List TokenKind} (h : operand.Reads level) (hoperand : operand.rank = 7)
    (hkind : operand.LeavesTo level 0 kind)
    (hsuffix : ∀ o, o.shape = operand.shape → ∀ input,
      Yields (suffix .full level o) (fun s => ∃ e', s = .yield e' ∧ e'.shape = e.shape) (kind :: (tail ++ input)) input) :
    e.ReadsWord (operand.word ++ kind :: tail) level 0 := by
  intro Q input rest _ hgrow
  rw [List.append_assoc, List.cons_append]
  refine h.upTo (s := 0) (by rw [stage, hoperand]) (by omega) _ _ _ hkind fun o ho => ?_
  exact .loopYield (loopsEnd_full.suffixes level) (hsuffix o ho input) hgrow

/-- A word that is read as an operand with its suffixes is what spells the expression, if it is the word of the expression. -/
theorem ReadsWord.reads (h : e.ReadsWord spelling level 0) (hrank : e.rank = 7) (hword : e.word = spelling) : e.Reads level := by
  have hstage : e.stage = 0 := by rw [stage, hrank]
  rw [← hword] at h
  rw [Reads, hstage]
  exact h

/-- An operand grows by a suffix if its word goes on with the word of the suffix. -/
theorem reads_of_suffix {kind : TokenKind} {tail : List TokenKind} (h : operand.Reads level) (hoperand : operand.rank = 7)
    (hrank : e.rank = 7) (hword : e.word = operand.word ++ kind :: tail) (hkind : operand.LeavesTo level 0 kind)
    (hsuffix : ∀ o, o.shape = operand.shape → ∀ input,
      Yields (suffix .full level o) (fun s => ∃ e', s = .yield e' ∧ e'.shape = e.shape) (kind :: (tail ++ input)) input) :
    e.Reads level :=
  (readsWord_of_suffix h hoperand hkind hsuffix).reads hrank hword

theorem leavesTo_of_isOperand {kind : TokenKind} (h : operand.isOperand = true) (hkind : kind ≠ .punctuation .lBrace) :
    operand.LeavesTo level 0 kind := by
  rw [isOperand, Bool.and_eq_true, Bool.not_eq_true'] at h
  exact ⟨fun hform => absurd hform (ne_true_of_eq_false h.2), fun hbrace => absurd hbrace hkind⟩

theorem reads_selector {loc : Location} {field : Name} (hoperand : operand.isOperand = true) (h : operand.Reads level) :
    (selector loc operand field).Reads level := by
  refine reads_of_suffix h (rank_of_isOperand hoperand) rfl (word_selector loc operand field)
    (leavesTo_of_isOperand hoperand (by decide)) fun o ho input => ?_
  refine .current fun _ => .map (.consume fun _ => .ifNotAccept rfl (.name fun _ => .ret ⟨_, rfl, ?_⟩))
  rw [shape, shape, ho]
  rfl

theorem reads_assertion {loc : Location} {type : Option Expr} (hoperand : operand.isOperand = true) (h : operand.Reads level)
    (htype : ∀ t ∈ type, t.IsType false ∧ t.ReadsAsType false) : (assertion loc operand type).Reads level := by
  refine reads_of_suffix h (rank_of_isOperand hoperand) rfl (word_assertion loc operand type)
    (leavesTo_of_isOperand hoperand (by decide)) fun o ho input => ?_
  have hasserted : Yields (assertedType? .full) (fun r => shapeOfExpr? r = shapeOfExpr? type)
      (assertedWord type ++ .punctuation .rParen :: input) (.punctuation .rParen :: input) := by
    cases type with
    | none => exact .ifAccept rfl (.ret rfl)
    | some t =>
      obtain ⟨hin, ht⟩ := htype t rfl
      refine .ifNotAccept (TokenKind.sameKind_of_startsType (startsType_word hin _) rfl) (.map ((Yields.type ht rfl).conseq ?_))
      exact fun t' ht => congrArg some ht
  rw [List.cons_append, List.append_assoc]
  refine .current fun _ => .map (.consume fun _ => .ifAccept rfl ?_)
  refine .bind hasserted fun type' ht => .expect rfl fun _ => .ret ⟨_, rfl, ?_⟩
  rw [shape, shape, ho, ht]

theorem reads_index {loc : Location} {subscript : Expr} (hoperand : operand.isOperand = true) (h : operand.Reads level)
    (hsubscript : subscript.ReadsAsValue (level + 1)) : (index loc operand subscript).Reads level := by
  refine reads_of_suffix h (rank_of_isOperand hoperand) rfl (word_index loc operand subscript)
    (leavesTo_of_isOperand hoperand (by decide)) fun o ho input => ?_
  rw [List.append_assoc]
  refine .current fun _ => .map (.consume fun _ => .ifNotAt (TokenKind.sameKind_of_startsValue (hsubscript.starts _) rfl) ?_)
  rw [expr_full]
  refine .bind (hsubscript.yields _ (.inl rfl)) fun subscript' hs => .ifNotAt rfl (.ifAccept rfl (.ret ⟨_, rfl, ?_⟩))
  rw [shape, shape, ho, hs]

/-- A bound of a slice, which may be missing. -/
theorem sliceBound {bound : Option Expr} (h : ∀ e ∈ bound, e.ReadsAsValue level)
    (hrest : nextKind rest = .punctuation .colon ∨ nextKind rest = .punctuation .rBracket) :
    Yields (Grammar.sliceBound .full level) (fun r => shapeOfExpr? r = shapeOfExpr? bound) (wordOf? word bound ++ rest) rest := by
  cases bound with
  | none =>
    have hstop : ((nextKind rest).sameKind Punctuation.colon || (nextKind rest).sameKind Punctuation.rBracket
        || (nextKind rest).sameKind .eof) = true := by
      rcases hrest with hrest | hrest <;> rw [hrest] <;> rfl
    exact .current fun _ => .yes hstop (.ret rfl)
  | some e =>
    have he := h e rfl
    have hcloses : (nextKind rest).closes = true := by
      rcases hrest with hrest | hrest <;> rw [hrest] <;> rfl
    have hstart := he.starts rest
    refine .current fun _ => .no ?_ ?_
    · change ¬((nextKind (e.word ++ rest)).sameKind Punctuation.colon || (nextKind (e.word ++ rest)).sameKind Punctuation.rBracket
        || (nextKind (e.word ++ rest)).sameKind .eof) = true
      rw [TokenKind.sameKind_of_startsValue hstart rfl, TokenKind.sameKind_of_startsValue hstart rfl,
        TokenKind.sameKind_of_startsValue hstart rfl]
      exact Bool.false_ne_true
    · rw [expr_full]
      exact .map ((he.yields rest (.inl hcloses)).conseq fun e' he' => congrArg some he')

theorem isSome_eq_of_shape {a b : Option Expr} (h : shapeOfExpr? a = shapeOfExpr? b) : a.isSome = b.isSome := by
  cases a <;> cases b <;> first | rfl | nomatch h

/-- A slice from its first colon on. -/
theorem sliceFrom {loc : Location} {o : Expr} {low' low high max : Option Expr} {three : Bool} (ho : o.shape = operand.shape)
    (hlow : shapeOfExpr? low' = shapeOfExpr? low) (hmax : max.isSome = three) (hhigh : three = true → high.isSome = true)
    (hh : ∀ e ∈ high, e.ReadsAsValue level) (hm : ∀ e ∈ max, e.ReadsAsValue level) :
    Yields (Grammar.sliceFrom .full level o low') (·.shape = (slice loc operand low high max three).shape)
      (.punctuation .colon :: (wordOf? word high ++ ((if three then .punctuation .colon :: wordOf? word max else [])
        ++ .punctuation .rBracket :: rest))) rest := by
  refine .consume fun _ => ?_
  cases three with
  | false =>
    obtain rfl : max = none := Option.not_isSome_iff_eq_none.1 (ne_true_of_eq_false hmax)
    refine .bind (sliceBound hh (.inr rfl)) fun high' hh' => .ifNotAccept rfl (.expect rfl fun _ => .ret ?_)
    rw [shape, shape, ho, hlow, hh']
  | true =>
    refine .bind (sliceBound hh (.inl rfl)) fun high' hh' => .ifAccept rfl ?_
    refine .bind (sliceBound hm (.inr rfl)) fun max' hm' => .expect rfl fun _ => ?_
    refine .reportUnless ((isSome_eq_of_shape hh').trans (hhigh rfl)) (.reportUnless ((isSome_eq_of_shape hm').trans hmax) (.ret ?_))
    rw [shape, shape, ho, hlow, hh', hm']

theorem reads_slice {loc : Location} {low high max : Option Expr} {three : Bool} (hoperand : operand.isOperand = true)
    (h : operand.Reads level) (hmax : max.isSome = three) (hhigh : three = true → high.isSome = true)
    (hl : ∀ e ∈ low, e.ReadsAsValue (level + 1)) (hh : ∀ e ∈ high, e.ReadsAsValue (level + 1))
    (hm : ∀ e ∈ max, e.ReadsAsValue (level + 1)) : (slice loc operand low high max three).Reads level := by
  refine reads_of_suffix h (rank_of_isOperand hoperand) rfl (word_slice loc operand hmax hhigh)
    (leavesTo_of_isOperand hoperand (by decide)) fun o ho input => ?_
  rw [boundsWord, List.append_assoc, List.append_assoc, List.cons_append, List.append_assoc]
  refine .current fun _ => .map (.consume fun _ => ?_)
  cases low with
  | none => exact .ifAt rfl ((sliceFrom ho rfl hmax hhigh hh hm).conseq fun e' he => ⟨e', rfl, he⟩)
  | some e =>
    have he := hl e rfl
    refine .ifNotAt (TokenKind.sameKind_of_startsValue (he.starts _) rfl) ?_
    rw [expr_full]
    refine .bind (he.yields _ (.inl rfl)) fun low' hl' => .ifAt rfl ?_
    have hlow : shapeOfExpr? (some low') = shapeOfExpr? (some e) := congrArg some hl'
    exact (sliceFrom ho hlow hmax hhigh hh hm).conseq fun e' he => ⟨e', rfl, he⟩

theorem map_fst_marked (spread : Bool) (args : List Expr) : (marked spread args).map Prod.fst = args := by
  induction args with
  | nil => rfl
  | cons e es ih =>
    cases es with
    | nil => rfl
    | cons e' es => 
      rw [marked, List.map_cons, ih]
      rintro ⟨⟩

theorem any_snd_marked {spread : Bool} {args : List Expr} (h : spread = true → args ≠ []) :
    (marked spread args).any Prod.snd = spread := by
  induction args with
  | nil => cases spread <;> first | rfl | exact absurd rfl (h rfl)
  | cons e es ih =>
    cases es with
    | nil => exact Bool.or_false spread
    | cons e' es =>
      rw [marked, List.any_cons, ih fun _ => List.cons_ne_nil e' es, Bool.false_or]
      rintro ⟨⟩

/-- An argument and the mark behind it. -/
theorem argument {arg : Expr × Bool} (h : arg.1.ReadsAsValue level) (hcloses : (nextKind rest).closes = true)
    (hrest : (nextKind rest).sameKind Punctuation.ellipsis = false) :
    Yields (Grammar.argument .full level) (fun a => a.1.shape = arg.1.shape ∧ a.2 = arg.2) (argumentWord arg ++ rest) rest := by
  obtain ⟨e, mark⟩ := arg
  rw [Grammar.argument, expr_full]
  cases mark with
  | false =>
    rw [argumentWord, if_neg Bool.false_ne_true, List.append_nil]
    exact .bind (h.yields _ (.inl hcloses)) fun e' he => .acceptNot hrest (.ret ⟨he, rfl⟩)
  | true =>
    rw [argumentWord, if_pos rfl, List.append_assoc]
    exact .bind (h.yields _ (.inl rfl)) fun e' he => .accept rfl (.ret ⟨he, rfl⟩)

/-- A call spreads its last argument if a `...` stands behind any of its arguments. -/
theorem readsWord_call {loc : Location} {callee : Expr} {args : List (Expr × Bool)}
    (hcallee : (callee.isOperand || callee.isTypeForm) = true) (h : callee.Reads level)
    (hargs : ∀ arg ∈ args, arg.1.ReadsAsValue (level + 1)) :
    (call loc callee (args.map Prod.fst) (args.any Prod.snd)).ReadsWord
      (callee.word ++ .punctuation .lParen :: (commas (args.map argumentWord) ++ [.punctuation .rParen])) level 0 := by
  refine readsWord_of_suffix h (rank_of_callee hcallee) ⟨fun _ h => (nomatch h), fun h => nomatch h⟩ fun o ho input => ?_
  rw [List.append_assoc]
  refine .current fun _ => .map (.consume fun _ => .bind (.members (loopsEnd_full.arguments (level + 1)) rfl rfl
    (S := fun a arg => a.1.shape = arg.1.shape ∧ a.2 = arg.2) (fun arg harg tail => ?_) fun arg harg tail htail => ?_)
    fun args' h => .expect rfl fun _ => .ret ⟨_, rfl, ?_⟩)
  · have hstart := (hargs arg harg).starts ((if arg.2 then [.punctuation .ellipsis] else []) ++ tail)
    rw [argumentWord, List.append_assoc]
    exact ⟨TokenKind.sameKind_of_startsValue hstart rfl, TokenKind.sameKind_of_startsValue hstart rfl⟩
  · rcases htail with htail | rfl
    · exact argument (hargs arg harg) (by rw [htail]; rfl) (by rw [htail]; rfl)
    · exact argument (hargs arg harg) rfl rfl
  · have hshapes : shapesOfExprs (args'.map Prod.fst) = shapesOfExprs (args.map Prod.fst) :=
      shapes_congr shapesOfExprs_eq (List.forall₂_map_left_iff.2 (List.forall₂_map_right_iff.2 (h.imp fun _ _ h => h.1)))
    have hany : args'.any Prod.snd = args.any Prod.snd := by
      have hmarks : args'.map Prod.snd = args.map Prod.snd := map_eq_map_of_forall₂ (h.imp fun _ _ h => h.2)
      have hids := congrArg (List.any · id) hmarks
      rwa [List.any_map, List.any_map] at hids
    rw [shape, shape, ho, hshapes, hany]

theorem reads_call {loc : Location} {callee : Expr} {args : List Expr} {spread : Bool}
    (hcallee : (callee.isOperand || callee.isTypeForm) = true) (h : callee.Reads level) (hspread : spread = true → args ≠ [])
    (hargs : ∀ e ∈ args, e.ReadsAsValue (level + 1)) : (call loc callee args spread).Reads level := by
  have hmem : ∀ arg ∈ marked spread args, arg.1.ReadsAsValue (level + 1) := by
    intro arg harg
    refine hargs arg.1 ?_
    rw [← map_fst_marked spread args]
    exact List.mem_map_of_mem harg
  have hcall : (call loc callee ((marked spread args).map Prod.fst) ((marked spread args).any Prod.snd)).ReadsWord _ level 0 :=
    readsWord_call hcallee h hmem
  rw [map_fst_marked, any_snd_marked hspread] at hcall
  exact hcall.reads rfl (word_call loc callee hspread)

end Expr

/-! ## Composite literals -/

/-- The token can start an element of a composite literal. -/
def TokenKind.startsElement (kind : TokenKind) : Bool := kind.startsValue || kind.sameKind Punctuation.lBrace

theorem TokenKind.sameKind_of_startsElement {kind kind' : TokenKind} (h : kind.startsElement = true)
    (h' : kind'.startsElement = false) : kind.sameKind kind' = false :=
  sameKind_eq_false (fun k k' => by cases k <;> cases k' <;> simp_all [sameKind, startsElement, startsValue, startsType]) h h'

/-- Where an element of a composite literal is asked for, its word is read back. -/
structure Expr.ReadsAsElement (e : Expr) (level : Int) : Prop where
  starts : ∀ tail, (nextKind (e.word ++ tail)).startsElement = true
  yields : ∀ rest, (nextKind rest).closes = true → (nextKind rest).sameKind Punctuation.colon = false →
    Yields (Grammar.element .full level) (·.shape = e.shape) (e.word ++ rest) rest

/-- Where the key or the value of an element is asked for, its word is read back. -/
structure Expr.ReadsAsElementValue (e : Expr) (level : Int) : Prop where
  starts : ∀ tail, (nextKind (e.word ++ tail)).startsElement = true
  yields : ∀ rest, (nextKind rest).closes = true →
    Yields (Grammar.elementValue .full level) (·.shape = e.shape) (e.word ++ rest) rest

namespace Expr

/-- An element without a key. -/
theorem ReadsAsElementValue.element (h : e.ReadsAsElementValue level) : e.ReadsAsElement level where
  starts := h.starts
  yields rest hcloses hcolon := by
    rw [Grammar.element, elementValue_full]
    exact .bind (h.yields rest hcloses) fun e' he => .ifNotAccept hcolon (.ret he)

theorem readsAsElement_keyValue {loc : Location} {key value : Expr} (hkey : key.ReadsAsElementValue level)
    (hvalue : value.ReadsAsElementValue level) : (keyValue loc key value).ReadsAsElement level where
  starts tail := by
    rw [word_keyValue, List.append_assoc]
    exact hkey.starts _
  yields rest hcloses _ := by
    rw [Grammar.element, elementValue_full, word_keyValue, List.append_assoc]
    refine .bind (hkey.yields _ rfl) fun key' hk => .ifAccept rfl (.bind (hvalue.yields rest hcloses) fun value' hv => .ret ?_)
    rw [shape, shape, hk, hv]

theorem ReadsAsValue.elementValue (h : e.ReadsAsValue level) : e.ReadsAsElementValue level where
  starts tail := Bool.or_eq_true_iff.2 (.inl (h.starts tail))
  yields rest hcloses := .ifNotAt (TokenKind.sameKind_of_startsValue (h.starts rest) rfl) (h.yields rest (.inl hcloses))

/-- The body of a composite literal. -/
theorem composite_yields {loc : Location} {type type' : Option Expr} {elements : List Expr}
    (htype : shapeOfExpr? type' = shapeOfExpr? type) (h : ∀ e ∈ elements, e.ReadsAsElement (level + 1)) :
    Yields (Grammar.composite .full level type') (·.shape = (composite loc type elements).shape)
      (.punctuation .lBrace :: (exprsWord elements ++ .punctuation .rBrace :: rest)) rest := by
  refine .current fun _ => .expect rfl fun _ => .bind (.members (loopsEnd_full.elements (level + 1)) rfl rfl
    (S := fun a e => a.shape = e.shape) (fun e he tail => ?_) fun e he tail htail => ?_) fun elements' hes =>
      .expect rfl fun _ => .ret ?_
  · have hstart := (h e he).starts tail
    exact ⟨TokenKind.sameKind_of_startsElement hstart rfl, TokenKind.sameKind_of_startsElement hstart rfl⟩
  · rcases htail with htail | rfl
    · exact (h e he).yields tail (by rw [htail]; rfl) (by rw [htail]; rfl)
    · exact (h e he).yields _ rfl rfl
  · rw [shape, shape, htype, shapes_congr shapesOfExprs_eq hes]

/-- A composite literal without a type is the value of an element of another one. -/
theorem readsAsElementValue_composite {loc : Location} {elements : List Expr} (h : ∀ e ∈ elements, e.ReadsAsElement (level + 1)) :
    (composite loc none elements).ReadsAsElementValue level where
  starts tail := rfl
  yields rest _ := by
    rw [word_composite, wordOf?, List.nil_append, List.cons_append, List.append_assoc]
    exact .ifAt rfl (composite_yields rfl h)

theorem reads_composite {loc : Location} {type : Expr} {elements : List Expr} (htakes : takesBody level type = true)
    (htype : type.Reads level) (h : ∀ e ∈ elements, e.ReadsAsElement (level + 1)) :
    (composite loc (some type) elements).Reads level := by
  have hopens : type.opensBody level = takesBody level type := by
    cases type with
    | binary | star | unary | functionType => nomatch htakes
    | _ => rfl
  refine reads_of_suffix htype (rank_of_takesBody htakes) rfl (word_composite loc (some type) elements)
    ⟨fun _ h => (nomatch h), fun _ => hopens⟩ fun type' ht input => ?_
  have htakes' : takesBody level type' = true := by
    rw [← takesBody_shape, ht, takesBody_shape, htakes]
  rw [List.append_assoc]
  refine .current fun _ => .yes htakes' (.map ((composite_yields ?_ h).conseq fun e' he => ⟨e', rfl, he⟩))
  exact congrArg some ht

end Expr

/-! ## Lists of expressions -/

theorem Yields.exprList {es : List Expr} (hne : es ≠ []) (h : ∀ e ∈ es, e.ReadsAsValue level)
    (hcomma : (nextKind rest).sameKind Punctuation.comma = false)
    (hrest : (nextKind rest).closes = true
      ∨ nextKind rest = .punctuation .lBrace ∧ ∀ e ∈ es.getLast?, e.opensBody level = false) :
    Yields (Grammar.exprList .full level) (fun r => List.Forall₂ (fun a e => a.shape = e.shape) (r.1 :: r.2) es)
      (exprsWord es ++ rest) rest := by
  refine .separated (loopsEnd_full.exprs level) hcomma hne fun e he tail htail => (h e he).yields tail ?_
  rcases htail with htail | ⟨rfl, hlast⟩
  · exact .inl (by rw [htail]; rfl)
  · exact hrest.imp_right fun h => ⟨h.1, h.2 e hlast⟩

end GoSyntax
