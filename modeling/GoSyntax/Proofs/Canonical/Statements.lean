import GoSyntax.Proofs.Canonical.Declarations

/-!
# Statements are read back

A statement is known by its first token: by a keyword, by a brace or a `;`, or else as one that starts with an expression.
-/

namespace GoSyntax

open Parse Grammar Productions

variable {rest : List TokenKind} {loc : Location}

theorem endsStatements_eq_false {kind : TokenKind} (h : kind.startsValue = true) : endsStatements kind = false := by
  rw [endsStatements, TokenKind.sameKind_of_startsValue h rfl, TokenKind.sameKind_of_startsValue h rfl,
    TokenKind.sameKind_of_startsValue h rfl, TokenKind.sameKind_of_startsValue h rfl]
  rfl

/-- A token that starts an expression starts a simple statement. -/
theorem Yields.stmtOfSimple {Q : Stmt → Prop} {input : List TokenKind} (hstart : (nextKind input).startsValue = true)
    (h : Yields (simpleStmt .full .block 0) Q input rest) : Yields (Grammar.stmt .full) Q input rest := by
  refine .current fun _ => ?_
  generalize nextKind input = kind at hstart
  cases kind with
  | ident | literal => exact h
  | punctuation mark =>
    cases mark with
    | lParen | lBracket => exact h
    | _ => nomatch hstart
  | operator op => exact .yes hstart h
  | keyword word =>
    cases word with
    | struct | interface | map | chan | func => exact h
    | _ => nomatch hstart
  | eof => nomatch hstart

namespace Stmt

theorem ReadsAsSimple.stmt {s : Stmt} (h : s.ReadsAsSimple 0) : s.Reads where
  starts tail := endsStatements_eq_false (h.starts _)
  yields rest := by
    refine .stmtOfSimple (h.starts _) (.current fun _ => .bind (h.yields .block _ (.inl rfl)) ?_)
    rintro _ ⟨s', rfl, hs⟩
    exact .ret hs

theorem reads_declaration {group : DeclGroup} (hkeyword : group.keyword = .const ∨ group.keyword = .var ∨ group.keyword = .type)
    (h : group.Reads) : (declaration loc group).Reads := by
  obtain ⟨tail, htail⟩ : ∃ tail, group.word = .keyword group.keyword :: tail := by
    cases group
    exact ⟨_, rfl⟩
  refine ⟨fun tail' => ?_, fun rest => ?_⟩
  · rw [word_declaration, htail]
    rcases hkeyword with hk | hk | hk <;> rw [hk] <;> rfl
  · have hread := h rest
    have hstmt : ∀ here : Location, Yields (do return Stmt.declaration here (← declGroup .full group.keyword))
        (·.shape = (declaration loc group).shape) (group.word ++ .punctuation .semicolon :: rest)
        (.punctuation .semicolon :: rest) := by
      refine fun here => .bind hread fun group' hg => .ret ?_
      rw [shape, shape, hg]
    rw [word_declaration, htail, List.cons_append] at *
    refine .current fun _ => ?_
    rcases hkeyword with hk | hk | hk <;> rw [hk] at hstmt ⊢ <;> exact .current fun _ => hstmt _

theorem reads_empty : (empty loc).Reads := ⟨fun _ => rfl, fun _ => .current fun _ => .ret rfl⟩

theorem reads_labeled {label : Name} {stmt : Stmt} (h : stmt.Reads) : (labeled loc label stmt).Reads := by
  refine ⟨fun _ => rfl, fun rest => ?_⟩
  have hident : (Expr.ident loc label.text).ReadsAsValue 0 := (Expr.reads_ident loc label.text).value trivial (Nat.succ_pos 6)
  have hbrace : (nextKind (stmt.word ++ .punctuation .semicolon :: rest)).sameKind Punctuation.rBrace = false := by
    have hstarts := h.starts rest
    rw [endsStatements, Bool.or_eq_false_iff, Bool.or_eq_false_iff, Bool.or_eq_false_iff] at hstarts
    exact hstarts.1.1.1
  have hsimple : Yields (simple .full .block 0) (fun r => ∃ s', r = .stmt s' ∧ s'.shape = (labeled loc label stmt).shape)
      (.ident label.text :: .punctuation .colon :: (stmt.word ++ .punctuation .semicolon :: rest))
      (.punctuation .semicolon :: rest) := by
    refine .current fun _ => .bind (.singleExpr hident rfl (.inl rfl)) ?_
    rintro _ ⟨e', rfl, he⟩
    cases e' with
    | ident loc' text =>
      obtain ⟨-, rfl⟩ := Expr.ident.inj he
      refine .current fun _ => .map (.ifAt rfl (.consume fun _ => .ifNotAt hbrace ?_))
      rw [stmt_full]
      refine .bind (h.yields rest) fun stmt' hs => .ret ⟨_, rfl, ?_⟩
      rw [shape, shape, hs]
      rfl
    | _ => cases he
  refine .stmtOfSimple rfl (.current fun _ => .bind hsimple ?_)
  rintro _ ⟨s', rfl, hs⟩
  exact .ret hs

theorem reads_go {call : Expr} (h : call.ReadsAsValue 0) : (go loc call).Reads := by
  refine ⟨fun _ => rfl, fun rest => .current fun _ => .consume fun _ => .bind (h.yields _ (.inl rfl)) fun call' hc => .ret ?_⟩
  rw [shape, shape, hc]

theorem reads_defer {call : Expr} (h : call.ReadsAsValue 0) : (defer loc call).Reads := by
  refine ⟨fun _ => rfl, fun rest => .current fun _ => .consume fun _ => .bind (h.yields _ (.inl rfl)) fun call' hc => .ret ?_⟩
  rw [shape, shape, hc]

theorem reads_return {values : List Expr} (h : ∀ e ∈ values, e.ReadsAsValue 0) : (Stmt.return loc values).Reads := by
  refine ⟨fun tail => by rw [word_return]; rfl, fun rest => ?_⟩
  rw [word_return, List.cons_append]
  refine .current fun _ => .consume fun _ => .orM ?_
  by_cases hnil : values = []
  · subst hnil
    exact .ifAt rfl (.yes rfl (.ret rfl))
  · have hstart : (nextKind (exprsWord values ++ .punctuation .semicolon :: rest)).startsValue = true := by
      obtain ⟨e, es, rfl⟩ := List.exists_cons_of_ne_nil hnil
      rw [exprsWord_cons, List.append_assoc]
      exact (h e (List.mem_cons_self ..)).starts _
    refine .ifNotAt (TokenKind.sameKind_of_startsValue hstart rfl) (.ifNotAt (TokenKind.sameKind_of_startsValue hstart rfl) ?_)
    refine .bind (P := fun r => shapesOfExprs r = shapesOfExprs values) ?_ fun r hr => .ret ?_
    · exact .bind (.exprList hnil h rfl (.inl rfl)) fun r hr => .ret (shapes_congr shapesOfExprs_eq hr)
    · rw [shape, shape, hr]

theorem reads_branch {keyword : Keyword} {label : Option Name}
    (h : keyword = .break ∨ keyword = .continue ∨ keyword = .goto ∨ keyword = .fallthrough ∧ label = none) :
    (branch loc keyword label).Reads := by
  refine ⟨fun tail => ?_, fun rest => ?_⟩
  · rw [word_branch]
    rcases h with rfl | rfl | rfl | ⟨rfl, -⟩ <;> rfl
  · have hlabel : ∀ keyword, Yields (branchStmt keyword) (·.shape = (branch loc keyword label).shape)
        (.keyword keyword :: (wordOf? Name.word label ++ .punctuation .semicolon :: rest)) (.punctuation .semicolon :: rest) := by
      refine fun keyword => .consume fun _ => .current fun _ => ?_
      cases label with
      | none => exact .ret rfl
      | some n => exact .yes rfl (.name fun _ => .ret rfl)
    rw [word_branch, List.cons_append]
    refine .current fun _ => ?_
    rcases h with rfl | rfl | rfl | ⟨rfl, rfl⟩
    · exact hlabel _
    · exact hlabel _
    · exact hlabel _
    · exact .consume fun _ => .ret rfl

theorem reads_block {body : Block} (h : body.Reads) : (block body).Reads := by
  obtain ⟨tail, htail⟩ := body.exists_word
  refine ⟨fun tail' => by rw [word_block, htail]; rfl, fun rest => ?_⟩
  have hread := h (.punctuation .semicolon :: rest)
  rw [word_block, htail] at *
  refine .current fun _ => .map (hread.conseq fun body' hb => ?_)
  rw [shape, shape, hb]

end Stmt

end GoSyntax
