import GoSyntax.Proofs.Binding.File
import GoSyntax.Proofs.TwoRuns.Reports

/-!
# Braces behind type names

In a header a brace behind a type name is left for the block; everywhere else it starts the body of a composite literal, so that no
expression is read there that ends with a type name in front of a brace. The level says which of the two holds: it is negative in a header
only, and within brackets of any kind it is not, however deep in a header they stand.
-/

namespace GoSyntax

open Parse Grammar Productions

/-- The operand that an expression ends with. -/
def Expr.lastOperand : Expr → Expr
  | binary _ _ _ right => right.lastOperand
  | star _ operand | unary _ _ operand => operand.lastOperand
  | e => e

/-- An expression has been read up to here. If it ends with a type name, no brace comes next. -/
def LeavesNoBrace (e : Expr) (c : Cursor) : Prop := isTypeName e.lastOperand = true → c.here.kind ≠ .punctuation .lBrace

theorem isLiteralType_of_isTypeName {e : Expr} (h : isTypeName e = true) : isLiteralType e = true := by
  cases e with
  | arrayType _ _ _ | structType _ _ | mapType _ _ _ => rfl
  | _ => exact h

/-- Outside headers a brace behind a type name is taken for a body. -/
theorem takesBody_of_isTypeName {level : Int} {e : Expr} (h : isTypeName e = true) (hlevel : 0 ≤ level) : takesBody level e = true := by
  rw [takesBody, isLiteralType_of_isTypeName h, decide_eq_true hlevel]
  rfl

/-! ## Where a parser leads -/

/-- The parser, run from a cursor, has a result and an end with this property. -/
def LeadsTo {α : Type} (P : α → Cursor → Prop) (f : Parse α) (c : Cursor) : Prop := P (f c).1 (f c).2

namespace LeadsTo

variable {α β : Type} {P P' : α → Cursor → Prop} {Q : β → Cursor → Prop} {f g : Parse α} {c : Cursor}

theorem pure {a : α} (h : P a c) : LeadsTo P (Pure.pure a) c := h

theorem bind {k : α → Parse β} (h : LeadsTo (fun a d => LeadsTo Q (k a) d) f c) : LeadsTo Q (f >>= k) c := h

/-- A step of whose result and end nothing is known. -/
theorem step {k : α → Parse β} (hk : ∀ a d, LeadsTo Q (k a) d) : LeadsTo Q (f >>= k) c := hk (f c).1 (f c).2

theorem map {r : α → β} (h : LeadsTo (fun a d => Q (r a) d) f c) : LeadsTo Q (r <$> f) c := h

theorem of_some {P : α → Prop} (h : Gives P f) : LeadsTo (fun a? _ => ∀ a ∈ a?, P a) (some <$> f) c := h.some_ c

theorem weaken (h : LeadsTo P f c) (hP : ∀ a d, P a d → P' a d) : LeadsTo P' f c := hP _ _ h

theorem ite {φ : Prop} [Decidable φ] (hf : φ → LeadsTo P f c) (hg : ¬φ → LeadsTo P g c) : LeadsTo P (if φ then f else g) c := by
  by_cases h : φ
  · rw [if_pos h]
    exact hf h
  · rw [if_neg h]
    exact hg h

/-- Who looks at the next token stays in front of it. -/
theorem current {k : Token → Parse β} (hk : ∀ d, d.here = c.here → d.kinds = c.kinds → LeadsTo Q (k c.here) d) :
    LeadsTo Q (Parse.current >>= k) c := hk _ c.here_current (c.kinds_peek 0)

/-- Who takes a token has one less before him. -/
theorem consume {k : Token → Parse β} (hc : c.here.kind ≠ .eof) (hk : ∀ here d, d.kinds.length < c.kinds.length → LeadsTo Q (k here) d) :
    LeadsTo Q (Parse.consume >>= k) c := by
  refine hk (Parse.consume c).1 (Parse.consume c).2 ?_
  obtain ⟨kinds, hkinds⟩ := Cursor.kinds_eq_cons hc
  rw [c.kinds_consume, hkinds]
  exact Nat.lt_succ_self kinds.length

end LeadsTo

namespace Grammar

variable {p : Productions} {level : Int}

/-! ## Suffixes -/

/-- What a suffix makes of an operand ends with itself, and not with a part of it. -/
theorem suffix_gives_last (p : Productions) (level : Int) {operand : Expr} (h : operand.lastOperand = operand) :
    Gives (fun s => s.value.lastOperand = s.value) (suffix p level operand) := by
  have goesOn : ∀ {f : Parse Expr}, Gives (fun e => e.lastOperand = e) f →
      Gives (fun s : ForInStep Expr => s.value.lastOperand = s.value) (.yield <$> f) := fun hf => hf.map fun _ he => he
  have hslice : ∀ inner low, Gives (fun e => e.lastOperand = e) (sliceFrom p inner operand low) := by
    intro inner low
    refine .step fun _ => .step fun _ => .step fun _ => .ite ?_ (.step fun _ => .pure rfl)
    exact .step fun _ => .step fun _ => .step fun _ => .step fun _ => .pure rfl
  have hindex : Gives (fun e => e.lastOperand = e) (indexOrSlice p level operand) := by
    refine .step fun _ => .step fun _ => .ite (hslice _ _) (.step fun _ => .step fun _ => .ite (hslice _ _) ?_)
    exact .step fun _ => .ite (.pure rfl) (.step fun _ => .step fun _ => .step fun _ => .pure rfl)
  refine .step fun here => ?_
  split
  · exact goesOn (.step fun _ => .step fun _ => .ite (.step fun _ => .step fun _ => .pure rfl) (.step fun _ => .pure rfl))
  · exact goesOn hindex
  · exact goesOn (.step fun _ => .step fun _ => .step fun _ => .pure rfl)
  · exact .ite (goesOn (.step fun _ => .step fun _ => .step fun _ => .step fun _ => .pure rfl)) (.pure h)
  · exact .pure h

/-- Outside headers the suffixes of a type name do not end in front of a brace. -/
theorem suffix_done (p : Productions) (hlevel : 0 ≤ level) (operand : Expr) (c : Cursor) :
    LeadsTo (fun s d => ∀ e, s = .done e → isTypeName e = true → d.here.kind ≠ .punctuation .lBrace) (suffix p level operand) c := by
  have goesOn : ∀ (f : Parse Expr) d, LeadsTo (fun s d => ∀ e, s = .done e → isTypeName e = true → d.here.kind ≠ .punctuation .lBrace)
      (ForInStep.yield <$> f) d := by
    intro f d
    refine .map fun e he => ?_
    cases he
  refine .current fun d hhere _ => ?_
  split
  · exact goesOn _ d
  · exact goesOn _ d
  · exact goesOn _ d
  · refine .ite (fun _ => goesOn _ d) fun hbody => .pure fun e he hname => ?_
    obtain rfl : operand = e := ForInStep.done.inj he
    exact absurd (takesBody_of_isTypeName hname hlevel) hbody
  · next hkind =>
    refine .pure fun e he _ => ?_
    rw [hhere]
    exact hkind

theorem suffixes_leavesNoBrace (hlevel : 0 ≤ level) {operand : Expr} (h : operand.lastOperand = operand) (c : Cursor) :
    LeadsTo LeavesNoBrace (suffixes full level operand) c := by
  refine (loopsEnd_full.suffixes level).loop_done (I := fun e _ => e.lastOperand = e) ?_ ?_ operand c h
  · intro e c e' he hyield
    have hlast := suffix_gives_last full level he c
    rwa [hyield] at hlast
  · intro e c e' he hdone
    have hlast := suffix_gives_last full level he c
    rw [hdone] at hlast
    intro hname
    rw [show e'.lastOperand = e' from hlast] at hname
    exact suffix_done full hlevel e c e' hdone hname

/-! ## Operands -/

theorem channelType_gives_last (p : Productions) : Gives (fun e => e.lastOperand = e) (channelType p) :=
  .step fun _ => .step fun _ => .step fun _ => .pure rfl

/-- An operand that does not start with a star ends with itself. -/
theorem operand_last (p : Productions) (level : Int) {c : Cursor} (hc : c.here.kind ≠ .operator .mul) :
    LeadsTo (fun e _ => e.lastOperand = e) (operand p level) c := by
  have htype : ∀ d, d.here = c.here → LeadsTo (fun t _ => ∀ e ∈ t, e.lastOperand = e) (type? p true) d := by
    intro d hd
    refine .current fun d' _ _ => ?_
    split
    · exact .of_some (.step fun _ => .step fun _ => .ite (.step fun _ => .pure rfl) (.pure rfl))
    · exact .of_some (.step fun _ => .step fun _ => .step fun _ => .pure rfl)
    · exact .of_some (.step fun _ => .step fun _ => .step fun _ => .pure rfl)
    · next hkind => exact absurd (hd ▸ hkind) hc
    · exact .of_some (channelType_gives_last p)
    · exact .of_some (.step fun _ => .step fun _ => .pure rfl)
    · exact .of_some (.step fun _ => .step fun _ => .pure rfl)
    · exact .of_some (.step fun _ => .step fun _ => .step fun _ => .step fun _ => .step fun _ => .pure rfl)
    · exact .of_some (channelType_gives_last p)
    · exact .of_some (.step fun _ => .step fun _ => .pure rfl)
    · exact .pure fun _ h => absurd h (Option.not_mem_none _)
  refine .current fun d hhere _ => ?_
  split
  · exact .step fun _ _ => .pure rfl
  · exact .step fun _ _ => .pure rfl
  · exact .step fun _ _ => .step fun _ _ => .step fun _ _ => .pure rfl
  · exact .step fun _ _ => .step fun _ _ => .step fun _ _ => .ite (fun _ => .step fun _ _ => .pure rfl) fun _ => .pure rfl
  · refine .bind ((htype d hhere).weaken fun t d' ht => ?_)
    cases t with
    | some t => exact .pure (ht t rfl)
    | none => exact .step fun _ _ => .step fun _ _ => .step fun _ _ => .pure rfl

/-! ## Operators -/

theorem unary_leavesNoBrace (hlevel : 0 ≤ level) (c : Cursor) : LeadsTo LeavesNoBrace (unary full level) c := by
  induction hn : c.kinds.length using Nat.strong_induction_on generalizing c with
  | _ n ih =>
    have hprimary : ∀ d, d.here.kind ≠ .operator .mul → LeadsTo LeavesNoBrace (primary full level) d := by
      intro d hd
      exact .bind ((operand_last full level hd).weaken fun e d' he => suffixes_leavesNoBrace hlevel he d')
    -- an operator is taken before its operand is read
    have hprefixed : ∀ op d, d.here.kind ≠ .eof → d.kinds.length ≤ n → LeadsTo LeavesNoBrace (prefixed full level op) d := by
      intro op d hd hlength
      refine .consume hd fun here d' hd' => ?_
      have hoperand : LeadsTo LeavesNoBrace (full.unary level) d' := by
        rw [unary_full]
        exact ih d'.kinds.length (by omega) d' rfl
      refine .bind (hoperand.weaken fun e d'' he => .ite (fun _ => .pure ?_) fun _ => .pure ?_)
      · exact he
      · exact he
    refine .current fun d hhere hkinds => ?_
    have hlength : d.kinds.length ≤ n := by rw [hkinds, hn]
    split
    · next hkind =>
      have hpeeked : (Parse.peek 1 d).2.here.kind ≠ .eof := by
        rw [d.here_peek 1, hhere, hkind]
        exact TokenKind.noConfusion
      have hrest : (Parse.peek 1 d).2.kinds.length ≤ n := by rwa [d.kinds_peek 1]
      refine .bind (.ite (fun _ => ?_) fun _ => hprefixed _ _ hpeeked hrest)
      exact .bind (suffixes_leavesNoBrace hlevel (channelType_gives_last full _) _)
    · next op _ hkind =>
      rw [← hhere] at hkind
      refine .ite (fun _ => hprefixed _ d ?_ hlength) fun hbefore => hprimary d ?_
      · rw [hkind]
        exact TokenKind.noConfusion
      · rw [hkind]
        rintro heq
        obtain rfl := TokenKind.operator.inj heq
        exact hbefore rfl
    · next hkind =>
      refine hprimary d ?_
      rw [hhere]
      exact hkind _

/-- Operands and the operators of families between them. -/
theorem foldr_binaryLevel_leavesNoBrace (hlevel : 0 ≤ level) (families : List Operator.Family) (c : Cursor) :
    LeadsTo LeavesNoBrace (families.foldr binaryLevel (unary full level)) c := by
  induction families generalizing c with
  | nil => exact unary_leavesNoBrace hlevel c
  | cons family families ih =>
    have hpass : ∀ left c, LeavesNoBrace left c → LeadsTo (fun s d => LeavesNoBrace s.value d)
        (binaryPass family (families.foldr binaryLevel (unary full level)) left) c := by
      intro left c hleft
      have hdone : ∀ d : Cursor, d.here = c.here → LeavesNoBrace left d := by
        intro d hhere hname
        rw [hhere]
        exact hleft hname
      refine .current fun d hhere _ => ?_
      split
      · exact .ite (fun _ => .step fun _ d' => .bind ((ih d').weaken fun right _ hright => hright)) fun _ => .pure (hdone d hhere)
      · exact .pure (hdone d hhere)
    refine .bind ((ih c).weaken fun left d hleft => ?_)
    refine (loopsEnd_full.operands level families family).loop_done (I := LeavesNoBrace) ?_ ?_ left d hleft
    · intro e c e' he hyield
      have hkept := hpass e c he
      rwa [LeadsTo, hyield] at hkept
    · intro e c e' he hdone
      have hkept := hpass e c he
      rwa [LeadsTo, hdone] at hkept

/-- Wherever an expression is read outside headers, it does not end with a type name in front of a brace. -/
theorem expr_leavesNoBrace (hlevel : 0 ≤ level) (c : Cursor) : LeadsTo LeavesNoBrace (expr full level) c :=
  foldr_binaryLevel_leavesNoBrace hlevel binaryFamilies c

theorem elementValue_leavesNoBrace (hlevel : 0 ≤ level) (c : Cursor) : LeadsTo LeavesNoBrace (elementValue full level) c := by
  refine .step fun _ d => .ite (fun _ => ?_) fun _ => expr_leavesNoBrace hlevel d
  refine .step fun _ _ => .step fun _ _ => .step fun _ _ => .step fun _ _ => .pure fun hname => ?_
  exact absurd hname Bool.false_ne_true

/-- Outside headers a brace behind a type name starts the body of a composite literal, whatever follows. -/
theorem suffixes_of_brace (hlevel : 0 ≤ level) {e : Expr} {c : Cursor} (hname : isTypeName e = true)
    (hbrace : c.here.kind = .punctuation .lBrace) :
    suffixes full level e c = (composite full level (some e) >>= suffixes full level) (Parse.current c).2 := by
  have hhere : (Parse.current c).1.kind = .punctuation .lBrace := hbrace
  rw [suffixes, (loopsEnd_full.suffixes level).unrolls, suffix, bind_assoc, bind_apply, hhere]
  simp only [takesBody_of_isTypeName hname hlevel, if_true]
  rfl

end Grammar

/-! ## Levels in brackets -/

/-- The productions, but with others for expressions and elements in brackets at a negative level. -/
def Productions.trapped (p trap : Productions) : Productions where
  type? := p.type?
  expr
    | .ofNat n => p.expr n
    | .negSucc n => trap.expr (.negSucc n)
  unary := p.unary
  elementValue
    | .ofNat n => p.elementValue n
    | .negSucc n => trap.elementValue (.negSucc n)
  stmt := p.stmt

namespace Grammar

/-- Whether in a header or not, nothing is read in brackets at a negative level. -/
theorem expressions_trapped (p trap : Productions) {level : Int} (hlevel : -1 ≤ level) :
    expr (p.trapped trap) level = expr p level ∧ unary (p.trapped trap) level = unary p level
      ∧ elementValue (p.trapped trap) level = elementValue p level := by
  have hcases : level = -1 ∨ ∃ n : Nat, level = Int.ofNat n := by
    by_cases hground : 0 ≤ level
    · exact .inr (Int.eq_ofNat_of_zero_le hground)
    · exact .inl (by omega)
  rcases hcases with rfl | ⟨n, rfl⟩
  · exact ⟨rfl, rfl, rfl⟩
  · exact ⟨rfl, rfl, rfl⟩

end Grammar

theorem Stmt.self_mem_nodes (s : Stmt) : .stmt s ∈ s.nodes := by
  cases s with
  | block body =>
    obtain ⟨loc, stmts⟩ := body
    exact List.mem_cons_self
  | _ => exact List.mem_cons_self

/-- In no header is a composite literal exposed whose type is a name. Wherever an expression is read outside headers, it does not end with a
type name in front of a brace, since such a brace is taken for a body. And whatever stands in brackets is read as outside headers: nothing
would change if expressions in brackets were read in another way at negative levels. -/
theorem braces_behind_type_names :
    (∀ path bytes, ∀ n ∈ parsedNodes path bytes, n.HeaderShielded)
      ∧ (∀ level : Int, 0 ≤ level → ∀ c : Cursor,
        LeadsTo LeavesNoBrace (Grammar.expr full level) c ∧ LeadsTo LeavesNoBrace (Grammar.unary full level) c
          ∧ LeadsTo LeavesNoBrace (Grammar.elementValue full level) c
          ∧ ∀ e, isTypeName e = true → c.here.kind = .punctuation .lBrace →
            suffixes full level e c = (composite full level (some e) >>= suffixes full level) (Parse.current c).2)
      ∧ ∀ p trap : Productions,
        (∀ level : Int, -1 ≤ level → Grammar.expr (p.trapped trap) level = Grammar.expr p level
          ∧ Grammar.unary (p.trapped trap) level = Grammar.unary p level
          ∧ Grammar.elementValue (p.trapped trap) level = Grammar.elementValue p level)
        ∧ (∀ inferable, Grammar.type? (p.trapped trap) inferable = Grammar.type? p inferable)
        ∧ Grammar.stmt (p.trapped trap) = Grammar.stmt p ∧ sourceFile (p.trapped trap) = sourceFile p := by
  refine ⟨fun path bytes n hn => (settled_parsedNodes path bytes n hn).2, fun level hlevel c => ?_, fun p trap => ?_⟩
  · exact ⟨expr_leavesNoBrace hlevel c, unary_leavesNoBrace hlevel c, elementValue_leavesNoBrace hlevel c,
      fun e hname hbrace => suffixes_of_brace hlevel hname hbrace⟩
  · exact ⟨fun level hlevel => expressions_trapped p trap hlevel, fun _ => rfl, rfl, rfl⟩

/-- In `T{}` the brace is taken for a body; in the header of `if x == T {}` it is not. -/
theorem braces_behind_type_names_body :
    ((0 : Int) ≤ 0 ∧ isTypeName (.ident default "T") = true
        ∧ (Cursor.start ⟨0, "p.go"⟩ (Utf8.encode "{}".toList)).here.kind = .punctuation .lBrace)
      ∧ suffixes full 0 (.ident default "T") (.start ⟨0, "p.go"⟩ (Utf8.encode "{}".toList))
        = (composite full 0 (some (.ident default "T")) >>= suffixes full 0) (Parse.current (.start ⟨0, "p.go"⟩ (Utf8.encode "{}".toList))).2
      ∧ (-1 : Int) ≤ -1 ∧ Grammar.expr (full.trapped .exhausted) (-1) = Grammar.expr full (-1)
      ∧ (∃ n ∈ parsedNodes ⟨0, "p.go"⟩ (Utf8.encode "if x == T {}".toList), n.HeaderShielded) := by
  have hbrace : (Cursor.start ⟨0, "p.go"⟩ (Utf8.encode "{}".toList)).here.kind = .punctuation .lBrace := by decide +kernel
  obtain ⟨hheaders, hbodies, hbrackets⟩ := braces_behind_type_names
  obtain ⟨-, -, -, hbody⟩ := hbodies 0 le_rfl (.start ⟨0, "p.go"⟩ (Utf8.encode "{}".toList))
  have hstmt : .stmt (parseStmt ⟨0, "p.go"⟩ (Utf8.encode "if x == T {}".toList)).tree ∈ parsedNodes ⟨0, "p.go"⟩ (Utf8.encode "if x == T {}".toList) :=
    List.mem_append_right _ (Stmt.self_mem_nodes _)
  exact ⟨⟨le_rfl, rfl, hbrace⟩, hbody _ rfl hbrace, le_rfl, ((hbrackets full .exhausted).1 (-1) le_rfl).1, _, hstmt, hheaders _ _ _ hstmt⟩

end GoSyntax
