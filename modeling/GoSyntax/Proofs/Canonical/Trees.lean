import GoSyntax.Proofs.Canonical.Statements

/-!
# Trees of the grammar are read back

By induction on a tree of the grammar, each of its parts is read back from its word.
-/

namespace GoSyntax

open Parse Grammar Productions

/-- The word of an expression is read back wherever the expression may stand: as a value if it is one, and as an element of a composite
literal or the key or the value of one. -/
structure Expr.ReadsBack (e : Expr) (level : Int) : Prop where
  reads : 0 < e.rank → e.Reads level
  elementValue : e.isElementValue = true → e.ReadsAsElementValue level
  element : e.ReadsAsElement level

namespace Expr

variable {e : Expr} {level : Int} {loc : Location}

namespace ReadsBack

theorem of_reads (hin : e.InGrammar level) (hrank : 0 < e.rank) (h : e.Reads level) : e.ReadsBack level where
  reads _ := h
  elementValue _ := (h.value hin hrank).elementValue
  element := (h.value hin hrank).elementValue.element

/-- The body of a composite literal can stand without its type. -/
theorem of_body {elements : List Expr} (h : ∀ e ∈ elements, e.ReadsAsElement (level + 1)) :
    (composite loc none elements).ReadsBack level where
  reads hrank := absurd hrank (Nat.lt_irrefl 0)
  elementValue _ := readsAsElementValue_composite h
  element := (readsAsElementValue_composite h).element

theorem of_keyValue {key value : Expr} (hkey : key.ReadsAsElementValue level) (hvalue : value.ReadsAsElementValue level) :
    (keyValue loc key value).ReadsBack level where
  reads hrank := absurd hrank (Nat.lt_irrefl 0)
  elementValue h := nomatch h
  element := readsAsElement_keyValue hkey hvalue

theorem value (h : e.ReadsBack level) (hin : e.InGrammar level) (hvalue : e.isValue = true) : e.ReadsAsValue level :=
  (h.reads (of_decide_eq_true hvalue)).value hin (of_decide_eq_true hvalue)

theorem operand (h : e.ReadsBack level) (hrank : e.rank = 7) : e.Reads level := h.reads (by omega)

end ReadsBack

end Expr

theorem FieldsInGrammar.mem {fields : List Field} (h : FieldsInGrammar fields) : ∀ f ∈ fields, f.InGrammar := by
  induction fields with
  | nil => exact List.forall_mem_nil _
  | cons f fs ih => exact List.forall_mem_cons.2 ⟨h.1, ih h.2⟩

theorem ElemsInGrammar.mem {elems : List InterfaceElem} (h : ElemsInGrammar elems) : ∀ e ∈ elems, e.InGrammar := by
  induction elems with
  | nil => exact List.forall_mem_nil _
  | cons e es ih => exact List.forall_mem_cons.2 ⟨h.1, ih h.2⟩

theorem Operator.precedence_pos (op : Operator) (h : op.precedence?.isSome = true) : 0 < op.precedence?.getD 0 := by
  rw [precedence?] at *
  generalize op.family = family at *
  cases family <;> first | exact Nat.succ_pos _ | cases h

/-- Where all of them are values, expressions that are read back are read back as values. -/
theorem valuesReadBack {es : List Expr} {level : Int} (h : ∀ e ∈ es, e.InGrammar level ∧ e.ReadsBack level)
    (hvalues : ∀ e ∈ es, e.isValue = true) : ∀ e ∈ es, e.ReadsAsValue level :=
  fun e he => (h e he).2.value (h e he).1 (hvalues e he)

theorem DeclGroup.InGrammar.keyword_of_ne_import {g : DeclGroup} (h : g.InGrammar) (hne : g.keyword ≠ .import) :
    g.keyword = .const ∨ g.keyword = .var ∨ g.keyword = .type := by
  cases g
  rcases h.1 with hk | hk | hk | hk
  · exact .inl hk
  · exact .inr (.inl hk)
  · exact .inr (.inr hk)
  · exact absurd hk hne

mutual

/-- Types are read back. -/
theorem Expr.readsAsType : ∀ (t : Expr) (inferable : Bool), t.IsType inferable → t.ReadsAsType inferable
  | .ident _ _, _, _ => Expr.readsAsType_typeName rfl
  | .selector _ (.ident _ _) _, _, _ => Expr.readsAsType_typeName rfl
  | .paren _ inner, _, h => Expr.readsAsType_paren (inner.readsAsType false h)
  | .star _ elem, _, h => Expr.readsAsType_star (elem.readsAsType false h)
  | .arrayType _ length elem, inferable, h =>
    Expr.readsAsType_arrayType (length.readsBack inferable h.1) (elem.readsAsType false h.2)
  | .structType _ fields, _, h => Expr.readsAsType_structType (FieldsInGrammar.mem h) (fieldsReadBack fields h)
  | .functionType _ sig, _, h => Expr.readsAsType_functionType (sig.readsBack h)
  | .interfaceType _ elems, _, h => Expr.readsAsType_interfaceType (ElemsInGrammar.mem h) (elemsReadBack elems h)
  | .mapType _ key value, _, h => Expr.readsAsType_mapType (key.readsAsType false h.1) (value.readsAsType false h.2)
  | .channelType _ _ elem, _, h => Expr.readsAsType_channelType h.2 h.1 (elem.readsAsType false h.2)
termination_by structural t => t

/-- Expressions and elements of composite literals are read back. -/
theorem Expr.readsBack : ∀ (e : Expr) (level : Int), e.InGrammar level → e.ReadsBack level
  | .ident loc text, _, h => .of_reads h (Nat.succ_pos 6) (Expr.reads_ident loc text)
  | .literal loc value, _, h => .of_reads h (Nat.succ_pos 6) (Expr.reads_literal loc value)
  | .composite _ none elements, level, h => .of_body fun e he => (exprsReadBack elements (level + 1) h e he).2.element
  | .composite _ (some type) elements, level, h =>
    .of_reads h (Nat.succ_pos 6) (Expr.reads_composite h.1 ((type.readsBack level h.2.1).operand (Expr.rank_of_takesBody h.1))
      fun e he => (exprsReadBack elements (level + 1) h.2.2 e he).2.element)
  | .function _ sig body, _, h => .of_reads h (Nat.succ_pos 6) (Expr.reads_function (sig.readsBack h.1) (body.readsBack h.2))
  | .paren _ inner, level, h => .of_reads h (Nat.succ_pos 6) (Expr.reads_paren ((inner.readsBack (level + 1) h.2).value h.2 h.1))
  | .selector _ operand _, level, h =>
    .of_reads h (Nat.succ_pos 6) (Expr.reads_selector h.1 ((operand.readsBack level h.2).operand (Expr.rank_of_isOperand h.1)))
  | .assertion _ operand type, level, h =>
    .of_reads h (Nat.succ_pos 6) (Expr.reads_assertion h.1 ((operand.readsBack level h.2.1).operand (Expr.rank_of_isOperand h.1))
      (typeReadsBack? type h.2.2))
  | .index _ operand subscript, level, h =>
    .of_reads h (Nat.succ_pos 6) (Expr.reads_index h.1 ((operand.readsBack level h.2.1).operand (Expr.rank_of_isOperand h.1))
      ((subscript.readsBack (level + 1) h.2.2.2).value h.2.2.2 h.2.2.1))
  | .slice _ operand low high max _, level, h => by
    obtain ⟨hop, hin, hmax, hhigh, hl, hh, hm⟩ := h
    exact .of_reads ⟨hop, hin, hmax, hhigh, hl, hh, hm⟩ (Nat.succ_pos 6)
      (Expr.reads_slice hop ((operand.readsBack level hin).operand (Expr.rank_of_isOperand hop)) hmax hhigh
        (exprReadsBack? low (level + 1) hl) (exprReadsBack? high (level + 1) hh) (exprReadsBack? max (level + 1) hm))
  | .call _ callee args _, level, h => by
    obtain ⟨hop, hin, hspread, hvalues, hargs⟩ := h
    exact .of_reads ⟨hop, hin, hspread, hvalues, hargs⟩ (Nat.succ_pos 6)
      (Expr.reads_call hop ((callee.readsBack level hin).operand (Expr.rank_of_callee hop)) hspread
        (valuesReadBack (exprsReadBack args (level + 1) hargs) hvalues))
  | .star _ operand, level, h => by
    have hrank : 6 ≤ operand.rank := h.1
    exact .of_reads h (Nat.succ_pos 5) (Expr.reads_star ((operand.readsBack level h.2).reads (by omega)) hrank)
  | .unary _ op operand, level, h => by
    obtain ⟨hop, hmul, hchan, hrank, hin⟩ := h
    exact .of_reads ⟨hop, hmul, hchan, hrank, hin⟩ (Nat.succ_pos 5) (Expr.reads_unary hop hmul hchan
      (Expr.startsValue_word hin (by omega)) ((operand.readsBack level hin).reads (by omega)) hrank)
  | .binary _ op left right, level, h => by
    obtain ⟨hop, hleft, hright, hl, hr⟩ := h
    have hprec := op.precedence_pos hop
    exact .of_reads ⟨hop, hleft, hright, hl, hr⟩ hprec (Expr.reads_binary hop ((left.readsBack level hl).reads (by omega))
      ((right.readsBack level hr).reads (by omega)) hleft hright)
  | .keyValue _ key value, level, h =>
    .of_keyValue ((key.readsBack level h.2.2.1).elementValue h.1) ((value.readsBack level h.2.2.2).elementValue h.2.1)
  | .arrayType _ length elem, _, h => .of_reads h (Nat.succ_pos 6) (Expr.reads_typeForm rfl (fun _ => rfl) (fun _ _ h => nomatch h)
      (Expr.readsAsType_arrayType (length.readsBack true h.1) (elem.readsAsType false h.2)))
  | .structType _ fields, _, h => .of_reads h (Nat.succ_pos 6) (Expr.reads_typeForm rfl (fun _ => rfl) (fun _ _ h => nomatch h)
      (Expr.readsAsType_structType (FieldsInGrammar.mem h) (fieldsReadBack fields h)))
  | .functionType _ sig, _, h => .of_reads h (Nat.succ_pos 6) (Expr.reads_functionType (sig.readsBack h))
  | .interfaceType _ elems, _, h => .of_reads h (Nat.succ_pos 6) (Expr.reads_typeForm rfl (fun _ => rfl) (fun _ _ h => nomatch h)
      (Expr.readsAsType_interfaceType (ElemsInGrammar.mem h) (elemsReadBack elems h)))
  | .mapType _ key value, _, h => .of_reads h (Nat.succ_pos 6) (Expr.reads_typeForm rfl (fun _ => rfl) (fun _ _ h => nomatch h)
      (Expr.readsAsType_mapType (key.readsAsType false h.1) (value.readsAsType false h.2)))
  | .channelType _ .receive elem, _, h => .of_reads h (Nat.succ_pos 6) (Expr.reads_receiveType (elem.readsAsType false h.2))
  | .channelType _ .send elem, _, h => .of_reads h (Nat.succ_pos 6) (Expr.reads_typeForm rfl (fun _ => rfl) (fun _ _ h => nomatch h)
      (Expr.readsAsType_channelType h.2 h.1 (elem.readsAsType false h.2)))
  | .channelType _ .both elem, _, h => .of_reads h (Nat.succ_pos 6) (Expr.reads_typeForm rfl (fun _ => rfl) (fun _ _ h => nomatch h)
      (Expr.readsAsType_channelType h.2 h.1 (elem.readsAsType false h.2)))
termination_by structural e => e

theorem typeReadsBack? : ∀ type : Option Expr, TypeInGrammar? type → ∀ t ∈ type, t.IsType false ∧ t.ReadsAsType false
  | some t, h, _, rfl => ⟨h, t.readsAsType false h⟩
termination_by structural type => type

theorem exprReadsBack? : ∀ (e : Option Expr) (level : Int), ExprInGrammar? e level → ∀ e' ∈ e, e'.ReadsAsValue level
  | some e, level, h, _, rfl => (e.readsBack level h.2).value h.2 h.1
termination_by structural e => e

theorem exprsReadBack : ∀ (es : List Expr) (level : Int), ExprsInGrammar es level → ∀ e ∈ es, e.InGrammar level ∧ e.ReadsBack level
  | [], _, _ => List.forall_mem_nil _
  | e :: es, level, h => List.forall_mem_cons.2 ⟨⟨h.1, e.readsBack level h.1⟩, exprsReadBack es level h.2⟩
termination_by structural es => es

theorem typesReadBack : ∀ ts : List Expr, TypesInGrammar ts → ∀ t ∈ ts, t.ReadsAsType false
  | [], _ => List.forall_mem_nil _
  | t :: ts, h => List.forall_mem_cons.2 ⟨t.readsAsType false h.1, typesReadBack ts h.2⟩
termination_by structural ts => ts

theorem ArrayLength.readsBack : ∀ (l : ArrayLength) (inferable : Bool), l.InGrammar inferable → l.Reads inferable
  | .slice, _, h => ArrayLength.reads h fun _ h => nomatch h
  | .inferred, _, h => ArrayLength.reads h fun _ h => nomatch h
  | .fixed length, _, h => ArrayLength.reads h fun e he => by
    obtain rfl := ArrayLength.fixed.inj he
    exact (length.readsBack 0 h.2).value h.2 h.1
termination_by structural l => l

theorem Field.readsBack : ∀ f : Field, f.InGrammar → f.Reads
  | ⟨_, [], _, _⟩, h => Field.reads h fun hne => absurd rfl hne
  | ⟨_, _ :: _, type, _⟩, h => Field.reads h fun _ => type.readsAsType false h.1
termination_by structural f => f

theorem fieldsReadBack : ∀ fields : List Field, FieldsInGrammar fields → ∀ f ∈ fields, f.Reads
  | [], _ => List.forall_mem_nil _
  | f :: fs, h => List.forall_mem_cons.2 ⟨f.readsBack h.1, fieldsReadBack fs h.2⟩
termination_by structural fields => fields

theorem Field.parameterReadsBack : ∀ (f : Field) (v variadic : Bool), f.IsParameter v → (v = true → variadic = true) →
    f.type.ReadsAsParameter variadic
  | ⟨_, _, type, _⟩, v, variadic, h, hv => by
    cases type with
    | variadicType loc elem =>
      obtain rfl := hv h.1
      exact (elem.readsAsType false h.2.2.2).ellipsis
    | _ => exact (Expr.readsAsType _ false h.2).parameter h.2
termination_by structural f => f

theorem parametersReadBack : ∀ (fields : List Field) (variadic : Bool), ParametersInGrammar fields variadic →
    ∀ f ∈ fields, f.type.ReadsAsParameter variadic
  | [], _, _ => List.forall_mem_nil _
  | f :: fs, variadic, h => List.forall_mem_cons.2
      ⟨f.parameterReadsBack _ variadic h.1 fun hv => (Bool.and_eq_true_iff.1 hv).1, parametersReadBack fs variadic h.2⟩
termination_by structural fields => fields

theorem Signature.readsBack : ∀ sig : Signature, sig.InGrammar → sig.Reads
  | ⟨params, results⟩, h => Signature.reads h (parametersReadBack params true h.1.2) (parametersReadBack results false h.2.2)
termination_by structural sig => sig

theorem InterfaceElem.readsBack : ∀ e : InterfaceElem, e.InGrammar → e.Reads
  | .method _ _ sig, h => InterfaceElem.reads h fun _ _ _ he => by
    obtain ⟨-, -, rfl⟩ := InterfaceElem.method.inj he
    exact sig.readsBack h
  | .embedded _ _, h => InterfaceElem.reads h fun _ _ _ he => nomatch he
termination_by structural e => e

theorem elemsReadBack : ∀ elems : List InterfaceElem, ElemsInGrammar elems → ∀ e ∈ elems, e.Reads
  | [], _ => List.forall_mem_nil _
  | e :: es, h => List.forall_mem_cons.2 ⟨e.readsBack h.1, elemsReadBack es h.2⟩
termination_by structural elems => elems

theorem Block.readsBack : ∀ b : Block, b.InGrammar → b.Reads
  | ⟨_, stmts⟩, h => Block.reads (stmtsReadBack stmts h)
termination_by structural b => b

theorem Stmt.simpleReadsBack : ∀ (s : Stmt) (level : Int), s.IsSimple level → s.ReadsAsSimple level
  | .expr _ e, level, h => Stmt.readsAsSimple_expr ((e.readsBack level h.2).value h.2 h.1)
  | .send _ channel value, level, h => Stmt.readsAsSimple_send ((channel.readsBack level h.2.1).value h.2.1 h.1)
      ((value.readsBack level h.2.2.2).value h.2.2.2 h.2.2.1)
  | .incDec _ _ operand, level, h => Stmt.readsAsSimple_incDec h.1 ((operand.readsBack level h.2.2).value h.2.2 h.2.1)
  | .assign _ _ left right, level, h => by
    obtain ⟨hop, hne, hne', hfault, hvalues, hleft, hright⟩ := h
    exact Stmt.readsAsSimple_assign hop hne hne' hfault
      (valuesReadBack (exprsReadBack left level hleft) fun e he => hvalues e (List.mem_append_left right he))
      (valuesReadBack (exprsReadBack right level hright) fun e he => hvalues e (List.mem_append_right left he))
termination_by structural s => s

theorem simpleReadsBack? : ∀ (s : Option Stmt) (level : Int), SimpleInGrammar? s level → ∀ t ∈ s, t.ReadsAsSimple level
  | some s, level, h, _, rfl => s.simpleReadsBack level h
termination_by structural s => s

theorem Stmt.readsBack : ∀ s : Stmt, s.InGrammar → s.Reads
  | .declaration _ group, h => Stmt.reads_declaration (h.2.keyword_of_ne_import h.1) (group.readsBack h.2)
  | .empty _, _ => Stmt.reads_empty
  | .labeled _ _ s, h => Stmt.reads_labeled (s.readsBack h)
  | .expr _ e, h => (Stmt.readsAsSimple_expr ((e.readsBack 0 h.2).value h.2 h.1)).stmt
  | .send _ channel value, h => (Stmt.readsAsSimple_send ((channel.readsBack 0 h.2.1).value h.2.1 h.1)
      ((value.readsBack 0 h.2.2.2).value h.2.2.2 h.2.2.1)).stmt
  | .incDec _ _ operand, h => (Stmt.readsAsSimple_incDec h.1 ((operand.readsBack 0 h.2.2).value h.2.2 h.2.1)).stmt
  | .assign _ _ left right, h => by
    obtain ⟨hop, hne, hne', hfault, hvalues, hleft, hright⟩ := h
    exact (Stmt.readsAsSimple_assign hop hne hne' hfault
      (valuesReadBack (exprsReadBack left 0 hleft) fun e he => hvalues e (List.mem_append_left right he))
      (valuesReadBack (exprsReadBack right 0 hright) fun e he => hvalues e (List.mem_append_right left he))).stmt
  | .go _ call, h => Stmt.reads_go ((call.readsBack 0 h.2).value h.2 h.1)
  | .defer _ call, h => Stmt.reads_defer ((call.readsBack 0 h.2).value h.2 h.1)
  | .return _ values, h => Stmt.reads_return (valuesReadBack (exprsReadBack values 0 h.2) h.1)
  | .branch _ _ _, h => Stmt.reads_branch h
  | .block body, h => Stmt.reads_block (body.readsBack h)
  | .if _ init cond body otherwise, h => by
    obtain ⟨hinit, hvalue, hcond, hopens, hbody, hotherwise⟩ := h
    exact Stmt.reads_if (simpleReadsBack? init (-1) hinit) ((cond.readsBack (-1) hcond).value hcond hvalue) hopens
      (body.readsBack hbody)
      (otherwiseReadsBack otherwise hotherwise)
  | .switch _ init tag clauses, h => by
    obtain ⟨hinit, htag, hopens, hclauses⟩ := h
    exact Stmt.reads_switch (simpleReadsBack? init (-1) hinit) (exprReadsBack? tag (-1) htag) hopens
      (casesReadBack clauses false hclauses)
  | .typeSwitch _ init subject clauses, h => by
    obtain ⟨hinit, hguard, hkind, hclauses⟩ := h
    exact Stmt.reads_typeSwitch (simpleReadsBack? init (-1) hinit) (subject.simpleReadsBack (-1) hguard) hkind
      (casesReadBack clauses true hclauses)
  | .select _ clauses, h => Stmt.reads_select (commsReadBack clauses h)
  | .for _ init cond post body, h => by
    obtain ⟨hinit, hcond, hpost, hopens, hopens', hbody⟩ := h
    exact Stmt.reads_for (simpleReadsBack? init (-1) hinit) (exprReadsBack? cond (-1) hcond) (simpleReadsBack? post (-1) hpost)
      hopens hopens'
      (body.readsBack hbody)
  | .range _ key value _ operand body, h => by
    obtain ⟨hnone, hkey, hvalue, hoperand, hin, hopens, hbody⟩ := h
    exact Stmt.reads_range hnone (exprReadsBack? key (-1) hkey) (exprReadsBack? value (-1) hvalue)
      ((operand.readsBack (-1) hin).value hin hoperand) hopens (body.readsBack hbody)
termination_by structural s => s

theorem otherwiseReadsBack : ∀ otherwise : Option Stmt, OtherwiseInGrammar otherwise → ∀ s ∈ otherwise, s.ReadsBehindElse
  | some (.if loc init cond body otherwise), h, _, rfl => Stmt.readsBehindElse_if ((Stmt.if loc init cond body otherwise).readsBack h)
  | some (.block body), h, _, rfl => Stmt.readsBehindElse_block (body.readsBack h)
termination_by structural otherwise => otherwise

theorem stmtsReadBack : ∀ ss : List Stmt, StmtsInGrammar ss → ∀ s ∈ ss, s.Reads
  | [], _ => List.forall_mem_nil _
  | s :: ss, h => List.forall_mem_cons.2 ⟨s.readsBack h.1, stmtsReadBack ss h.2⟩
termination_by structural ss => ss

theorem CaseClause.readsBack : ∀ (c : CaseClause) (ofTypes : Bool), c.InGrammar ofTypes → c.Reads ofTypes
  | ⟨_, list, body⟩, ofTypes, h => CaseClause.reads (stmtsReadBack body h.2) (caseListReadsBack list ofTypes h.1)
termination_by structural c => c

theorem caseListReadsBack : ∀ (list : Option (List Expr)) (ofTypes : Bool), CaseListInGrammar list ofTypes → ∀ es ∈ list, ∀ rest,
    Yields (caseList .full ofTypes) (List.Forall₂ (fun a e => a.shape = e.shape) · es) (exprsWord es ++ .punctuation .colon :: rest)
      (.punctuation .colon :: rest)
  | some es, true, h, _, rfl, _ => .caseTypes h.1 (typesReadBack es h.2)
  | some es, false, h, _, rfl, _ => .caseValues h.1 (valuesReadBack (exprsReadBack es 0 h.2.2) h.2.1)
termination_by structural list => list

theorem casesReadBack : ∀ (clauses : List CaseClause) (ofTypes : Bool), CasesInGrammar clauses ofTypes → ∀ c ∈ clauses, c.Reads ofTypes
  | [], _, _ => List.forall_mem_nil _
  | c :: cs, ofTypes, h => List.forall_mem_cons.2 ⟨c.readsBack ofTypes h.1, casesReadBack cs ofTypes h.2⟩
termination_by structural clauses => clauses

theorem Stmt.communicationReadsBack : ∀ s : Stmt, s.IsCommunication → s.ReadsAsCommunication
  | .expr _ e, h => Stmt.readsAsCommunication_expr ((e.readsBack 0 h.2).value h.2 h.1)
  | .send _ channel value, h => Stmt.readsAsCommunication_send ((channel.readsBack 0 h.2.1).value h.2.1 h.1)
      ((value.readsBack 0 h.2.2.2).value h.2.2.2 h.2.2.1)
  | .assign _ _ left [value], h => by
    obtain ⟨hop, hne, htwo, hvalues, hleft, hvalue, hin⟩ := h
    exact Stmt.readsAsCommunication_assign hop hne htwo (valuesReadBack (exprsReadBack left 0 hleft) hvalues)
      ((value.readsBack 0 hin).value hin hvalue)
termination_by structural s => s

theorem CommClause.readsBack : ∀ c : CommClause, c.InGrammar → c.Reads
  | ⟨_, some comm, body⟩, h => CommClause.reads (stmtsReadBack body h.2) fun s hs => by
    obtain rfl := Option.some.inj hs
    exact comm.communicationReadsBack h.1
  | ⟨_, none, body⟩, h => CommClause.reads (stmtsReadBack body h) fun _ hs => nomatch hs
termination_by structural c => c

theorem commsReadBack : ∀ clauses : List CommClause, CommsInGrammar clauses → ∀ c ∈ clauses, c.Reads
  | [], _ => List.forall_mem_nil _
  | c :: cs, h => List.forall_mem_cons.2 ⟨c.readsBack h.1, commsReadBack cs h.2⟩
termination_by structural clauses => clauses

theorem DeclGroup.readsBack : ∀ g : DeclGroup, g.InGrammar → g.Reads
  | ⟨keyword, specs, _⟩, h => DeclGroup.reads h.2.1 (specsReadBack specs keyword true h.2.2)
termination_by structural g => g

theorem Spec.readsBack : ∀ (s : Spec) (keyword : Keyword) (isFirst : Bool), s.InGrammar keyword isFirst → s.Reads keyword isFirst
  | .import _ _, _, _, h => by
    obtain ⟨rfl, hpath⟩ := h
    exact Spec.reads_import hpath
  | .value _ _ type values, _, _, h => by
    obtain ⟨hkeyword, hne, hrequired, hvalues, htype, hin⟩ := h
    exact Spec.reads_value hkeyword hne hrequired (typeReadsBack? type htype) (valuesReadBack (exprsReadBack values 0 hin) hvalues)
  | .type _ _ type, _, _, h => by
    obtain ⟨rfl, htype⟩ := h
    exact Spec.reads_type (type.readsAsType false htype)
termination_by structural s => s

theorem specsReadBack : ∀ (specs : List Spec) (keyword : Keyword) (isFirst : Bool), SpecsInGrammar specs keyword isFirst →
    SpecsRead specs keyword isFirst
  | [], _, _, _ => trivial
  | s :: ss, keyword, isFirst, h => ⟨s.readsBack keyword isFirst h.1, specsReadBack ss keyword false h.2⟩
termination_by structural specs => specs

end

end GoSyntax
