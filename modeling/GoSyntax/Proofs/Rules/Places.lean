import GoSyntax.Tree.Rules

/-!
# Every expression of a file has a role

The rules about roles speak of the expressions directly below each node. No expression of a file is left out of them: each stands directly
below a node of the file. So what no role allows does not occur at all.
-/

namespace GoSyntax

/-- Every expression among the nodes is one of these, or stands directly below one of the nodes. -/
def Placed (tops : List Expr) (ns : List Node) : Prop :=
  ∀ e, .expr e ∈ ns → e ∈ tops ∨ ∃ n ∈ ns, ∃ role, (role, e) ∈ n.parts

/-- Each of these expressions is a part. -/
def InParts (tops : List Expr) (parts : List (Role × Expr)) : Prop := ∀ e ∈ tops, ∃ role, (role, e) ∈ parts

namespace Placed

variable {tops tops' : List Expr} {ns ns' : List Node}

theorem nil : Placed [] [] := fun _ h => nomatch h

theorem append (h : Placed tops ns) (h' : Placed tops' ns') : Placed (tops ++ tops') (ns ++ ns') := by
  intro e he
  rcases List.mem_append.1 he with he | he
  · rcases h e he with htop | ⟨n, hn, hpart⟩
    · exact .inl (List.mem_append_left _ htop)
    · exact .inr ⟨n, List.mem_append_left _ hn, hpart⟩
  · rcases h' e he with htop | ⟨n, hn, hpart⟩
    · exact .inl (List.mem_append_right _ htop)
    · exact .inr ⟨n, List.mem_append_right _ hn, hpart⟩

/-- Nodes that are no expressions need no place. -/
theorem of_none (h : ∀ e, .expr e ∉ ns) : Placed [] ns := fun e he => absurd he (h e)

/-- What stands on top of the nodes below a node are its parts. -/
theorem below {n : Node} (h : Placed tops ns) (hparts : InParts tops n.parts) :
    ∀ e, .expr e ∈ ns → ∃ m ∈ n :: ns, ∃ role, (role, e) ∈ m.parts := by
  intro e he
  rcases h e he with htop | ⟨m, hm, hpart⟩
  · exact ⟨n, List.mem_cons_self, hparts e htop⟩
  · exact ⟨m, List.mem_cons_of_mem _ hm, hpart⟩

theorem expr {e : Expr} (h : Placed tops ns) (hparts : InParts tops e.parts) : Placed [e] (.expr e :: ns) := by
  intro e' he'
  rcases List.mem_cons.1 he' with heq | he'
  · exact .inl (List.mem_singleton.2 (Node.expr.inj heq))
  · exact .inr (below (n := .expr e) h hparts e' he')

theorem other {n : Node} (hn : ∀ e, n ≠ .expr e) (h : Placed tops ns) (hparts : InParts tops n.parts) : Placed [] (n :: ns) := by
  intro e he
  rcases List.mem_cons.1 he with heq | he
  · exact absurd heq.symm (hn e)
  · exact .inr (below h hparts e he)

/-- The node of a field has no parts of its own: its type is one of what the field belongs to. -/
theorem passed {n : Node} (hn : ∀ e, n ≠ .expr e) (h : Placed tops ns) : Placed tops (n :: ns) := by
  intro e he
  rcases List.mem_cons.1 he with heq | he
  · exact absurd heq.symm (hn e)
  · rcases h e he with htop | ⟨m, hm, hpart⟩
    · exact .inl htop
    · exact .inr ⟨m, List.mem_cons_of_mem _ hm, hpart⟩

end Placed

theorem inParts_nil (parts : List (Role × Expr)) : InParts [] parts := fun _ h => nomatch h

theorem inParts_plainly (es : List Expr) : InParts es (plainly es) := fun e he => ⟨.plain, List.mem_map.2 ⟨e, he, rfl⟩⟩

theorem InParts.append {tops tops' : List Expr} {parts parts' : List (Role × Expr)} (h : InParts tops parts)
    (h' : InParts tops' parts') : InParts (tops ++ tops') (parts ++ parts') := by
  intro e he
  rcases List.mem_append.1 he with he | he
  · obtain ⟨role, hpart⟩ := h e he
    exact ⟨role, List.mem_append_left _ hpart⟩
  · obtain ⟨role, hpart⟩ := h' e he
    exact ⟨role, List.mem_append_right _ hpart⟩

theorem inParts_parameterParts (fields : List Field) : InParts (fields.map Field.type) (parameterParts fields) := by
  induction fields with
  | nil => exact inParts_nil _
  | cons f fields ih =>
    intro e he
    rcases List.mem_cons.1 he with rfl | he
    · exact ⟨_, List.mem_cons_self⟩
    · obtain ⟨role, hpart⟩ := ih e he
      exact ⟨role, List.mem_cons_of_mem _ hpart⟩

theorem Signature.inParts (s : Signature) : InParts (s.params.map Field.type ++ s.results.map Field.type) s.parts :=
  (inParts_parameterParts s.params).append (inParts_plainly _)

mutual

theorem Expr.placed : ∀ e : Expr, Placed [e] e.nodes
  | .bad _ | .ident _ _ | .literal _ _ => .expr .nil (inParts_nil _)
  | .composite _ type elements =>
    .expr ((exprPlaced? type).append (exprsPlaced elements))
      ((inParts_plainly _).append fun e he => ⟨.element, List.mem_map.2 ⟨e, he, rfl⟩⟩)
  | .function _ sig body => .expr (sig.placed.append body.placed) (by simpa [Expr.parts] using sig.inParts)
  | .paren _ e | .star _ e | .unary _ _ e | .channelType _ _ e | .variadicType _ e => .expr e.placed (inParts_plainly [e])
  | .selector _ e _ => .expr (e.placed.append (.of_none (by simp))) (inParts_plainly [e])
  | .assertion _ e type => .expr (e.placed.append (exprPlaced? type)) (inParts_plainly (e :: type.toList))
  | .index _ e e' | .binary _ _ e e' | .mapType _ e e' => .expr (e.placed.append e'.placed) (inParts_plainly [e, e'])
  | .slice _ e low high max _ =>
    .expr (((e.placed.append (exprPlaced? low)).append (exprPlaced? high)).append (exprPlaced? max)) (by
      simpa [Expr.parts] using inParts_plainly (e :: (low.toList ++ high.toList ++ max.toList)))
  | .call _ callee args _ => .expr (callee.placed.append (exprsPlaced args)) (inParts_plainly (callee :: args))
  | .keyValue _ key value => .expr (key.placed.append value.placed) (by simp [InParts, Expr.parts])
  | .arrayType _ length e => .expr (length.placed.append e.placed) (inParts_plainly (length.expr?.toList ++ [e]))
  | .structType _ fields => .expr (fieldsPlaced fields) (inParts_plainly _)
  | .functionType _ sig => .expr sig.placed sig.inParts
  | .interfaceType _ elems => .expr (elemsPlaced elems) (inParts_nil _)
termination_by structural e => e

theorem exprPlaced? : ∀ e : Option Expr, Placed e.toList (nodesOfExpr? e)
  | some e => e.placed
  | none => .nil
termination_by structural e => e

theorem exprsPlaced : ∀ es : List Expr, Placed es (nodesOfExprs es)
  | [] => .nil
  | e :: es => e.placed.append (exprsPlaced es)
termination_by structural es => es

theorem ArrayLength.placed : ∀ l : ArrayLength, Placed l.expr?.toList l.nodes
  | .slice | .inferred => .nil
  | .fixed length => length.placed
termination_by structural l => l

theorem Field.placed : ∀ f : Field, Placed [f.type] f.nodes
  | ⟨_, names, type, tag⟩ => .passed (by simp) (((Placed.of_none (by simp [nodesOfNames])).append type.placed).append
      (.of_none (by cases tag <;> simp [nodesOfLiteral?])))
termination_by structural f => f

theorem fieldsPlaced : ∀ fields : List Field, Placed (fields.map Field.type) (nodesOfFields fields)
  | [] => .nil
  | f :: fields => f.placed.append (fieldsPlaced fields)
termination_by structural fields => fields

theorem Signature.placed : ∀ s : Signature, Placed (s.params.map Field.type ++ s.results.map Field.type) s.nodes
  | ⟨params, results⟩ => (fieldsPlaced params).append (fieldsPlaced results)
termination_by structural s => s

theorem InterfaceElem.placed : ∀ e : InterfaceElem, Placed [] e.nodes
  | .method _ _ sig => .other (by simp) (.passed (by simp) sig.placed) sig.inParts
  | .embedded _ type => .other (by simp) type.placed (inParts_plainly [type])
termination_by structural e => e

theorem elemsPlaced : ∀ es : List InterfaceElem, Placed [] (nodesOfElems es)
  | [] => .nil
  | e :: es => e.placed.append (elemsPlaced es)
termination_by structural es => es

theorem Block.placed : ∀ b : Block, Placed [] b.nodes
  | ⟨_, stmts⟩ => .other (by simp) (stmtsPlaced stmts) (inParts_nil _)
termination_by structural b => b

theorem Stmt.placed : ∀ s : Stmt, Placed [] s.nodes
  | .bad _ | .empty _ => .other (by simp) .nil (inParts_nil _)
  | .declaration _ group => .other (by simp) group.placed (inParts_nil _)
  | .labeled _ _ s => .other (by simp) (.passed (by simp) s.placed) (inParts_nil _)
  | .expr _ e | .incDec _ _ e | .go _ e | .defer _ e => .other (by simp) e.placed (inParts_plainly [e])
  | .send _ e e' => .other (by simp) (e.placed.append e'.placed) (inParts_plainly [e, e'])
  | .assign _ _ left right => .other (by simp) ((exprsPlaced left).append (exprsPlaced right)) (inParts_plainly (left ++ right))
  | .return _ values => .other (by simp) (exprsPlaced values) (inParts_plainly values)
  | .branch _ _ label => .of_none (by cases label <;> simp [Stmt.nodes])
  | .block ⟨_, stmts⟩ => .other (by simp) (stmtsPlaced stmts) (inParts_nil _)
  | .if _ init cond body otherwise =>
    .other (by simp) ((((stmtPlaced? init).append cond.placed).append body.placed).append (stmtPlaced? otherwise))
      (inParts_plainly [cond])
  | .switch _ init tag clauses =>
    .other (by simp) (((stmtPlaced? init).append (exprPlaced? tag)).append (casesPlaced clauses))
      (by simpa [Node.parts, Stmt.parts] using inParts_plainly tag.toList)
  | .typeSwitch _ init guard clauses =>
    .other (by simp) (((stmtPlaced? init).append guard.placed).append (casesPlaced clauses)) (inParts_nil _)
  | .select _ clauses => .other (by simp) (commsPlaced clauses) (inParts_nil _)
  | .for _ init cond post body =>
    .other (by simp) ((((stmtPlaced? init).append (exprPlaced? cond)).append (stmtPlaced? post)).append body.placed)
      (by simpa [Node.parts, Stmt.parts] using inParts_plainly cond.toList)
  | .range _ key value _ e body =>
    .other (by simp) ((((exprPlaced? key).append (exprPlaced? value)).append e.placed).append body.placed)
      (by simpa [Node.parts, Stmt.parts] using inParts_plainly (key.toList ++ value.toList ++ [e]))
termination_by structural s => s

theorem stmtPlaced? : ∀ s : Option Stmt, Placed [] (nodesOfStmt? s)
  | some s => s.placed
  | none => .nil
termination_by structural s => s

theorem stmtsPlaced : ∀ ss : List Stmt, Placed [] (nodesOfStmts ss)
  | [] => .nil
  | s :: ss => s.placed.append (stmtsPlaced ss)
termination_by structural ss => ss

theorem CaseClause.placed : ∀ c : CaseClause, Placed [] c.nodes
  | ⟨_, list, body⟩ => .other (by simp) ((caseListPlaced list).append (stmtsPlaced body))
      (by simpa [Node.parts] using inParts_plainly (list.getD []))
termination_by structural c => c

theorem caseListPlaced : ∀ list : Option (List Expr), Placed (list.getD []) (nodesOfCaseList list)
  | some es => exprsPlaced es
  | none => .nil
termination_by structural list => list

theorem casesPlaced : ∀ cs : List CaseClause, Placed [] (nodesOfCases cs)
  | [] => .nil
  | c :: cs => c.placed.append (casesPlaced cs)
termination_by structural cs => cs

theorem CommClause.placed : ∀ c : CommClause, Placed [] c.nodes
  | ⟨_, comm, body⟩ => .other (by simp) ((stmtPlaced? comm).append (stmtsPlaced body)) (inParts_nil _)
termination_by structural c => c

theorem commsPlaced : ∀ cs : List CommClause, Placed [] (nodesOfComms cs)
  | [] => .nil
  | c :: cs => c.placed.append (commsPlaced cs)
termination_by structural cs => cs

theorem DeclGroup.placed : ∀ g : DeclGroup, Placed [] g.nodes
  | ⟨_, specs, _⟩ => specsPlaced specs
termination_by structural g => g

theorem Spec.placed : ∀ s : Spec, Placed [] s.nodes
  | .import _ ⟨name, path⟩ => .of_none (by cases name <;> simp [Spec.nodes, ImportSpec.nodes])
  | .value _ names type values =>
    .other (by simp) (((Placed.of_none (by simp [nodesOfNames])).append (exprPlaced? type)).append (exprsPlaced values))
      (inParts_plainly (type.toList ++ values))
  | .type _ _ t => .other (by simp) (.passed (by simp) t.placed) (inParts_plainly [t])
termination_by structural s => s

theorem specsPlaced : ∀ ss : List Spec, Placed [] (nodesOfSpecs ss)
  | [] => .nil
  | s :: ss => s.placed.append (specsPlaced ss)
termination_by structural ss => ss

end

theorem placed_fields? (fields : Option (List Field)) : Placed ((fields.getD []).map Field.type) (nodesOfFields? fields) := by
  cases fields with
  | none => exact .nil
  | some fields => exact fieldsPlaced fields

theorem placed_block? (b : Option Block) : Placed [] (nodesOfBlock? b) := by
  cases b with
  | none => exact .nil
  | some b => exact b.placed

theorem Decl.placed (d : Decl) : Placed [] d.nodes := by
  cases d with
  | bad loc => exact .other (by simp) .nil (inParts_nil _)
  | group loc g => exact .other (by simp) g.placed (inParts_nil _)
  | func loc f =>
    have hsig : Placed _ (.name f.name :: f.sig.nodes) := .passed (by simp) f.sig.placed
    refine .other (by simp) (((placed_fields? f.receiver).append hsig).append (placed_block? f.body)) ?_
    simpa [Node.parts, parts, fieldParts] using (inParts_plainly ((f.receiver.getD []).map Field.type)).append f.sig.inParts

/-- Every expression of a file stands in some role directly below a node of the file. -/
theorem SourceFile.exists_role (f : SourceFile) {e : Expr} (he : .expr e ∈ f.nodes) :
    ∃ n ∈ f.nodes, ∃ role, (role, e) ∈ n.parts := by
  have hplaced : Placed [] f.nodes := by
    refine .passed (by simp) ?_
    induction f.decls with
    | nil => exact .nil
    | cons d decls ih => exact d.placed.append ih
  exact (hplaced e he).resolve_left (nomatch ·)

end GoSyntax
