import GoSyntax.Proofs.Junk.Parts

/-!
# How an editing changes a tree

An editing that puts a placeholder in front of each member at a spot adds as many placeholders to a tree as members of its lists stand
there. So a tree that has such a member is changed, and where there is room for one placeholder only one member stands there. The editing
that changes nothing leaves every tree as it is.
-/

namespace GoSyntax

section Gains

variable (l : Listing) (spot : Location)

/-- There is one placeholder more for each member at the spot in a list of these nodes, and `more` others. -/
def Gains (more : Nat) (before after : List Node) : Prop :=
  (placeholders after).length = (placeholders before).length + (before.flatMap (Node.memberPlaces l)).count spot + more

variable {l : Listing} {spot : Location} {more : Nat} {n n' : Node} {ns ns' ms ms' : List Node}

namespace Gains

theorem nil : Gains l spot 0 [] [] := rfl

theorem append (h : Gains l spot 0 ns ns') (h' : Gains l spot more ms ms') : Gains l spot more (ns ++ ms) (ns' ++ ms') := by
  rw [Gains] at h h' ⊢
  rw [placeholders_append, placeholders_append, List.length_append, List.length_append, List.flatMap_append, List.count_append, h, h']
  omega

/-- The members at the spot that a node has itself are counted with those below it. -/
theorem cons (hn : n'.placeholder? = n.placeholder?) (hmore : (n.memberPlaces l).count spot = more) (h : Gains l spot more ns ns') :
    Gains l spot 0 (n :: ns) (n' :: ns') := by
  rw [Gains] at h ⊢
  rw [placeholders_cons, placeholders_cons, List.length_append, List.length_append, List.flatMap_cons, List.count_append, h, hn, hmore]
  omega

/-- Names and literals have no lists. -/
theorem of_plain (h : ∀ n ∈ ns, n.memberPlaces l = []) : Gains l spot 0 ns ns := by
  rw [Gains, List.flatMap_eq_nil_iff.2 h]
  rfl

theorem names (names : List Name) : Gains l spot 0 (nodesOfNames names) (nodesOfNames names) := of_plain fun n hn => by
  obtain ⟨name, -, rfl⟩ := List.mem_map.1 hn
  rfl

theorem name? (name : Option Name) : Gains l spot 0 (name.map Node.name).toList (name.map Node.name).toList := by
  cases name with
  | none => exact nil
  | some name => exact .cons rfl rfl nil

theorem literal? (literal : Option Literal) : Gains l spot 0 (nodesOfLiteral? literal) (nodesOfLiteral? literal) := by
  cases literal with
  | none => exact nil
  | some literal => exact .cons rfl rfl nil

/-! ## Lists -/

variable {α : Type} {locOf : α → Location} {new : α} {nodes : α → List Node} {as : List α} {φ : Prop} [Decidable φ]

theorem placeholders_insertAt (hnew : (placeholders (nodes new)).length = 1) (as : List α) :
    (placeholders ((insertAt locOf spot new as).flatMap nodes)).length
      = (placeholders (as.flatMap nodes)).length + (as.map locOf).count spot := by
  induction as with
  | nil => rfl
  | cons a as ih =>
    rw [insertAt] at ih ⊢
    rw [List.flatMap_cons, List.flatMap_append, placeholders_append, List.length_append, ih, List.flatMap_cons, placeholders_append,
      List.length_append, List.map_cons, List.count_cons]
    by_cases hspot : locOf a = spot
    · rw [if_pos hspot, if_pos (beq_iff_eq.2 hspot), List.flatMap_cons, List.flatMap_singleton, placeholders_append, List.length_append,
        hnew]
      omega
    · rw [if_neg hspot, if_neg (by rwa [beq_iff_eq]), List.flatMap_singleton]
      omega

theorem placeholders_insertFirst (hnew : (placeholders (nodes new)).length = 1) (as : List α) :
    (placeholders ((insertFirst locOf spot new as).flatMap nodes)).length
      = (placeholders (as.flatMap nodes)).length + ((as.map locOf).take 1).count spot := by
  cases as with
  | nil => rfl
  | cons a as =>
    rw [insertFirst, List.map_cons, List.take_succ_cons, List.take_zero, List.count_singleton]
    by_cases hspot : locOf a = spot
    · rw [if_pos hspot, if_pos (beq_iff_eq.2 hspot), List.flatMap_cons, placeholders_append, List.length_append, hnew, Nat.add_comm]
    · rw [if_neg hspot, if_neg (by rwa [beq_iff_eq])]
      rfl

/-- A list is edited by editing its members first, which leaves them where they are. -/
theorem list (hnew : (placeholders (nodes new)).length = 1) {as' : List α} (hlocs : as'.map locOf = as.map locOf)
    (h : Gains l spot 0 ns (as'.flatMap nodes)) : Gains l spot ((if φ then as.map locOf else []).count spot) ns
      (((if φ then insertAt locOf spot new else id) as').flatMap nodes) := by
  split
  · rw [Gains] at h ⊢
    rw [placeholders_insertAt hnew, h, hlocs, Nat.add_zero]
  · exact h

theorem first (hnew : (placeholders (nodes new)).length = 1) {as' : List α} (hlocs : as'.map locOf = as.map locOf)
    (h : Gains l spot 0 ns (as'.flatMap nodes)) : Gains l spot ((if φ then (as.map locOf).take 1 else []).count spot) ns
      (((if φ then insertFirst locOf spot new else id) as').flatMap nodes) := by
  split
  · rw [Gains] at h ⊢
    rw [placeholders_insertFirst hnew, h, hlocs, Nat.add_zero]
  · exact h

end Gains

end Gains

/-! ## Members stay where they are -/

theorem locs_edited {α : Type} [Editable α] {E : Editing} {locOf : α → Location} (h : ∀ a, locOf (edited E a) = locOf a) (as : List α) :
    (edited E as).map locOf = as.map locOf := by
  change (as.map (edited E)).map locOf = _
  rw [List.map_map]
  exact List.map_congr_left fun a _ => h a

section Trees

variable (l : Listing) (spot loc : Location)

/-- Placeholders are put into fields, if their lists are the ones. -/
theorem fields_gain {fs : List Field} (h : Gains l spot 0 (nodesOfFields fs) (nodesOfFields (editsOfFields (.insert l spot loc) fs))) :
    Gains l spot ((if l = .fields then fs.map Field.loc else []).count spot) (nodesOfFields fs)
      (nodesOfFields ((Editing.insert l spot loc).fields (editsOfFields (.insert l spot loc) fs))) := by
  rw [editsOfFields_eq, nodesOfFields_eq (edited _ fs)] at h
  rw [editsOfFields_eq, nodesOfFields_eq ((Editing.insert l spot loc).fields _)]
  exact .list rfl (locs_edited (fun f => by cases f; rfl) fs) h

theorem elems_gain {es : List InterfaceElem} (h : Gains l spot 0 (nodesOfElems es) (nodesOfElems (editsOfElems (.insert l spot loc) es))) :
    Gains l spot ((if l = .elems then es.map InterfaceElem.loc else []).count spot) (nodesOfElems es)
      (nodesOfElems ((Editing.insert l spot loc).elems (editsOfElems (.insert l spot loc) es))) := by
  rw [editsOfElems_eq, nodesOfElems_eq (edited _ es)] at h
  rw [editsOfElems_eq, nodesOfElems_eq ((Editing.insert l spot loc).elems _)]
  exact .list rfl (locs_edited (fun e => by cases e <;> rfl) es) h

theorem stmts_gain {ss : List Stmt} (h : Gains l spot 0 (nodesOfStmts ss) (nodesOfStmts (editsOfStmts (.insert l spot loc) ss))) :
    Gains l spot ((if l = .statements then ss.map Stmt.loc else []).count spot) (nodesOfStmts ss)
      (nodesOfStmts ((Editing.insert l spot loc).stmts (editsOfStmts (.insert l spot loc) ss))) := by
  rw [editsOfStmts_eq, nodesOfStmts_eq (edited _ ss)] at h
  rw [editsOfStmts_eq, nodesOfStmts_eq ((Editing.insert l spot loc).stmts _)]
  exact .list rfl (locs_edited (Stmt.loc_edited _) ss) h

theorem cases_gain {cs : List CaseClause} (h : Gains l spot 0 (nodesOfCases cs) (nodesOfCases (editsOfCases (.insert l spot loc) cs))) :
    Gains l spot ((if l = .clauses then (cs.map CaseClause.loc).take 1 else []).count spot) (nodesOfCases cs)
      (nodesOfCases ((Editing.insert l spot loc).cases (editsOfCases (.insert l spot loc) cs))) := by
  rw [editsOfCases_eq, nodesOfCases_eq (edited _ cs)] at h
  rw [editsOfCases_eq, nodesOfCases_eq ((Editing.insert l spot loc).cases _)]
  exact .first rfl (locs_edited (fun c => by cases c; rfl) cs) h

theorem comms_gain {cs : List CommClause} (h : Gains l spot 0 (nodesOfComms cs) (nodesOfComms (editsOfComms (.insert l spot loc) cs))) :
    Gains l spot ((if l = .clauses then (cs.map CommClause.loc).take 1 else []).count spot) (nodesOfComms cs)
      (nodesOfComms ((Editing.insert l spot loc).comms (editsOfComms (.insert l spot loc) cs))) := by
  rw [editsOfComms_eq, nodesOfComms_eq (edited _ cs)] at h
  rw [editsOfComms_eq, nodesOfComms_eq ((Editing.insert l spot loc).comms _)]
  exact .first rfl (locs_edited (fun c => by cases c; rfl) cs) h

theorem specs_gain (keyword : Keyword) (grouped : Bool) {ss : List Spec}
    (h : Gains l spot 0 (nodesOfSpecs ss) (nodesOfSpecs (editsOfSpecs (.insert l spot loc) ss))) :
    Gains l spot ((if l = .specs keyword ∧ grouped then ss.map Spec.loc else []).count spot) (nodesOfSpecs ss)
      (nodesOfSpecs ((Editing.insert l spot loc).specs keyword grouped (editsOfSpecs (.insert l spot loc) ss))) := by
  rw [editsOfSpecs_eq, nodesOfSpecs_eq (edited _ ss)] at h
  rw [editsOfSpecs_eq, nodesOfSpecs_eq ((Editing.insert l spot loc).specs keyword grouped _)]
  exact .list rfl (locs_edited (fun s => by cases s <;> rfl) ss) h

mutual

theorem Expr.gains : ∀ e : Expr, Gains l spot 0 e.nodes (e.edit (.insert l spot loc)).nodes
  | .bad _ | .ident _ _ | .literal _ _ => .cons rfl rfl .nil
  | .composite _ type elements => .cons rfl rfl ((gainsOfExpr? type).append (gainsOfExprs elements))
  | .function _ sig body => .cons rfl rfl (sig.gains.append body.gains)
  | .paren _ e | .star _ e | .unary _ _ e | .channelType _ _ e | .variadicType _ e => .cons rfl rfl e.gains
  | .selector _ e _ => .cons rfl rfl (e.gains.append (.cons rfl rfl .nil))
  | .assertion _ e type => .cons rfl rfl (e.gains.append (gainsOfExpr? type))
  | .index _ e e' | .binary _ _ e e' | .mapType _ e e' | .keyValue _ e e' => .cons rfl rfl (e.gains.append e'.gains)
  | .slice _ e low high max _ =>
    .cons rfl rfl (((e.gains.append (gainsOfExpr? low)).append (gainsOfExpr? high)).append (gainsOfExpr? max))
  | .call _ callee args _ => .cons rfl rfl (callee.gains.append (gainsOfExprs args))
  | .arrayType _ length e => .cons rfl rfl (length.gains.append e.gains)
  | .structType _ fields => .cons rfl rfl (fields_gain l spot loc (gainsOfFields fields))
  | .functionType _ sig => .cons rfl rfl sig.gains
  | .interfaceType _ elems => .cons rfl rfl (elems_gain l spot loc (gainsOfElems elems))

theorem gainsOfExpr? : ∀ e : Option Expr, Gains l spot 0 (nodesOfExpr? e) (nodesOfExpr? (editOfExpr? (.insert l spot loc) e))
  | some e => e.gains
  | none => .nil

theorem gainsOfExprs : ∀ es : List Expr, Gains l spot 0 (nodesOfExprs es) (nodesOfExprs (editsOfExprs (.insert l spot loc) es))
  | [] => .nil
  | e :: es => e.gains.append (gainsOfExprs es)

theorem ArrayLength.gains : ∀ length : ArrayLength, Gains l spot 0 length.nodes (length.edit (.insert l spot loc)).nodes
  | .slice | .inferred => .nil
  | .fixed length => length.gains

theorem Field.gains : ∀ f : Field, Gains l spot 0 f.nodes (f.edit (.insert l spot loc)).nodes
  | ⟨_, names, type, tag⟩ => .cons rfl rfl (((Gains.names names).append type.gains).append (.literal? tag))

theorem gainsOfFields : ∀ fs : List Field, Gains l spot 0 (nodesOfFields fs) (nodesOfFields (editsOfFields (.insert l spot loc) fs))
  | [] => .nil
  | f :: fs => f.gains.append (gainsOfFields fs)

theorem Signature.gains : ∀ s : Signature, Gains l spot 0 s.nodes (s.edit (.insert l spot loc)).nodes
  | ⟨params, results⟩ => (gainsOfFields params).append (gainsOfFields results)

theorem InterfaceElem.gains : ∀ e : InterfaceElem, Gains l spot 0 e.nodes (e.edit (.insert l spot loc)).nodes
  | .method _ _ sig => .cons rfl rfl (.cons rfl rfl sig.gains)
  | .embedded _ type => .cons rfl rfl type.gains

theorem gainsOfElems : ∀ es : List InterfaceElem, Gains l spot 0 (nodesOfElems es) (nodesOfElems (editsOfElems (.insert l spot loc) es))
  | [] => .nil
  | e :: es => e.gains.append (gainsOfElems es)

theorem Block.gains : ∀ b : Block, Gains l spot 0 b.nodes (b.edit (.insert l spot loc)).nodes
  | ⟨_, stmts⟩ => .cons rfl rfl (stmts_gain l spot loc (gainsOfStmts stmts))

theorem Stmt.gains : ∀ s : Stmt, Gains l spot 0 s.nodes (s.edit (.insert l spot loc)).nodes
  | .bad _ | .empty _ => .cons rfl rfl .nil
  | .declaration _ group => .cons rfl rfl group.gains
  | .labeled _ _ s => .cons rfl rfl (.cons rfl rfl s.gains)
  | .expr _ e | .incDec _ _ e | .go _ e | .defer _ e => .cons rfl rfl e.gains
  | .send _ e e' => .cons rfl rfl (e.gains.append e'.gains)
  | .assign _ _ left right => .cons rfl rfl ((gainsOfExprs left).append (gainsOfExprs right))
  | .return _ values => .cons rfl rfl (gainsOfExprs values)
  | .branch _ _ label => .cons rfl rfl (.name? label)
  | .block ⟨_, stmts⟩ => .cons rfl rfl (stmts_gain l spot loc (gainsOfStmts stmts))
  | .if _ init cond body otherwise =>
    .cons rfl rfl ((((gainsOfStmt? init).append cond.gains).append body.gains).append (gainsOfStmt? otherwise))
  | .switch _ init tag clauses =>
    .cons rfl rfl (((gainsOfStmt? init).append (gainsOfExpr? tag)).append (cases_gain l spot loc (gainsOfCases clauses)))
  | .typeSwitch _ init guard clauses =>
    .cons rfl rfl (((gainsOfStmt? init).append guard.gains).append (cases_gain l spot loc (gainsOfCases clauses)))
  | .select _ clauses => .cons rfl rfl (comms_gain l spot loc (gainsOfComms clauses))
  | .for _ init cond post body =>
    .cons rfl rfl ((((gainsOfStmt? init).append (gainsOfExpr? cond)).append (gainsOfStmt? post)).append body.gains)
  | .range _ key value _ e body => .cons rfl rfl ((((gainsOfExpr? key).append (gainsOfExpr? value)).append e.gains).append body.gains)

theorem gainsOfStmt? : ∀ s : Option Stmt, Gains l spot 0 (nodesOfStmt? s) (nodesOfStmt? (editOfStmt? (.insert l spot loc) s))
  | some s => s.gains
  | none => .nil

theorem gainsOfStmts : ∀ ss : List Stmt, Gains l spot 0 (nodesOfStmts ss) (nodesOfStmts (editsOfStmts (.insert l spot loc) ss))
  | [] => .nil
  | s :: ss => s.gains.append (gainsOfStmts ss)

theorem CaseClause.gains : ∀ c : CaseClause, Gains l spot 0 c.nodes (c.edit (.insert l spot loc)).nodes
  | ⟨_, list, body⟩ => .cons rfl rfl ((gainsOfCaseList list).append (stmts_gain l spot loc (gainsOfStmts body)))

theorem gainsOfCaseList : ∀ list : Option (List Expr),
    Gains l spot 0 (nodesOfCaseList list) (nodesOfCaseList (editOfCaseList (.insert l spot loc) list))
  | some es => gainsOfExprs es
  | none => .nil

theorem gainsOfCases : ∀ cs : List CaseClause, Gains l spot 0 (nodesOfCases cs) (nodesOfCases (editsOfCases (.insert l spot loc) cs))
  | [] => .nil
  | c :: cs => c.gains.append (gainsOfCases cs)

theorem CommClause.gains : ∀ c : CommClause, Gains l spot 0 c.nodes (c.edit (.insert l spot loc)).nodes
  | ⟨_, comm, body⟩ => .cons rfl rfl ((gainsOfStmt? comm).append (stmts_gain l spot loc (gainsOfStmts body)))

theorem gainsOfComms : ∀ cs : List CommClause, Gains l spot 0 (nodesOfComms cs) (nodesOfComms (editsOfComms (.insert l spot loc) cs))
  | [] => .nil
  | c :: cs => c.gains.append (gainsOfComms cs)

theorem DeclGroup.gains : ∀ g : DeclGroup, Gains l spot ((g.memberPlaces l).count spot) g.nodes (g.edit (.insert l spot loc)).nodes
  | ⟨keyword, specs, grouped⟩ => specs_gain l spot loc keyword grouped (gainsOfSpecs specs)

theorem Spec.gains : ∀ s : Spec, Gains l spot 0 s.nodes (s.edit (.insert l spot loc)).nodes
  | .import _ ⟨name, _⟩ => .cons rfl rfl ((Gains.name? name).append (.cons rfl rfl .nil))
  | .value _ names type values => .cons rfl rfl (((Gains.names names).append (gainsOfExpr? type)).append (gainsOfExprs values))
  | .type _ _ type => .cons rfl rfl (.cons rfl rfl type.gains)

theorem gainsOfSpecs : ∀ ss : List Spec, Gains l spot 0 (nodesOfSpecs ss) (nodesOfSpecs (editsOfSpecs (.insert l spot loc) ss))
  | [] => .nil
  | s :: ss => s.gains.append (gainsOfSpecs ss)

end

theorem FuncDecl.gains (f : FuncDecl) : Gains l spot 0 f.nodes (f.edit (.insert l spot loc)).nodes := by
  obtain ⟨receiver, name, sig, body⟩ := f
  have hreceiver : Gains l spot 0 (nodesOfFields? receiver) (nodesOfFields? (receiver.map (editsOfFields (.insert l spot loc)))) := by
    cases receiver with
    | none => exact .nil
    | some fields => exact gainsOfFields l spot loc fields
  have hbody : Gains l spot 0 (nodesOfBlock? body) (nodesOfBlock? (body.map (Block.edit (.insert l spot loc)))) := by
    cases body with
    | none => exact .nil
    | some body => exact body.gains l spot loc
  have hsig : Gains l spot 0 (.name name :: sig.nodes) (.name name :: (sig.edit (.insert l spot loc)).nodes) :=
    .cons rfl rfl (sig.gains l spot loc)
  exact (hreceiver.append hsig).append hbody

theorem Decl.gains (d : Decl) : Gains l spot 0 d.nodes (d.edit (.insert l spot loc)).nodes := by
  cases d with
  | bad _ => exact .cons rfl rfl .nil
  | group _ g => exact .cons rfl rfl (g.gains l spot loc)
  | func _ f => exact .cons rfl rfl (f.gains l spot loc)

/-- A file gains a placeholder for each member of such a list at the spot. -/
theorem SourceFile.placeholders_edit (f : SourceFile) : (placeholders (f.edit (.insert l spot loc)).nodes).length
    = (placeholders f.nodes).length + (f.memberPlaces l).count spot := by
  obtain ⟨start, package, decls⟩ := f
  have hdecls : Gains l spot 0 (decls.flatMap Decl.nodes) ((decls.map (Decl.edit (.insert l spot loc))).flatMap Decl.nodes) := by
    induction decls with
    | nil => exact .nil
    | cons d ds ih => exact (d.gains l spot loc).append ih
  have hfile : Gains l spot ((if l = .declarations then decls.map Decl.loc else []).count spot) (decls.flatMap Decl.nodes)
      (((Editing.insert l spot loc).decls (decls.map (Decl.edit (.insert l spot loc)))).flatMap Decl.nodes) :=
    .list rfl (locs_edited (fun d => by cases d <;> rfl) decls) hdecls
  change (placeholders (((Editing.insert l spot loc).decls (decls.map (Decl.edit (.insert l spot loc)))).flatMap Decl.nodes)).length
    = (placeholders (decls.flatMap Decl.nodes)).length
      + ((if l = .declarations then decls.map Decl.loc else []) ++ (decls.flatMap Decl.nodes).flatMap (Node.memberPlaces l)).count spot
  rw [hfile, List.count_append]
  omega

end Trees

/-! ## Nothing changed -/

mutual

theorem Expr.edit_none : ∀ e : Expr, e.edit .none = e
  | .bad _ | .ident _ _ | .literal _ _ => rfl
  | .composite loc type elements => congrArg₂ (Expr.composite loc) (editOfExpr?_none type) (editsOfExprs_none elements)
  | .function loc sig body => congrArg₂ (Expr.function loc) sig.edit_none body.edit_none
  | .paren loc e => congrArg (Expr.paren loc) e.edit_none
  | .selector loc e field => congrArg (Expr.selector loc · field) e.edit_none
  | .assertion loc e type => congrArg₂ (Expr.assertion loc) e.edit_none (editOfExpr?_none type)
  | .index loc e e' => congrArg₂ (Expr.index loc) e.edit_none e'.edit_none
  | .slice loc e low high max three => by
    rw [Expr.edit, e.edit_none, editOfExpr?_none low, editOfExpr?_none high, editOfExpr?_none max]
  | .call loc callee args spread => congrArg₂ (Expr.call loc · · spread) callee.edit_none (editsOfExprs_none args)
  | .star loc e => congrArg (Expr.star loc) e.edit_none
  | .unary loc op e => congrArg (Expr.unary loc op) e.edit_none
  | .binary loc op e e' => congrArg₂ (Expr.binary loc op) e.edit_none e'.edit_none
  | .keyValue loc e e' => congrArg₂ (Expr.keyValue loc) e.edit_none e'.edit_none
  | .arrayType loc length e => congrArg₂ (Expr.arrayType loc) length.edit_none e.edit_none
  | .structType loc fields => congrArg (Expr.structType loc) (editsOfFields_none fields)
  | .functionType loc sig => congrArg (Expr.functionType loc) sig.edit_none
  | .interfaceType loc elems => congrArg (Expr.interfaceType loc) (editsOfElems_none elems)
  | .mapType loc e e' => congrArg₂ (Expr.mapType loc) e.edit_none e'.edit_none
  | .channelType loc direction e => congrArg (Expr.channelType loc direction) e.edit_none
  | .variadicType loc e => congrArg (Expr.variadicType loc) e.edit_none

theorem editOfExpr?_none : ∀ e : Option Expr, editOfExpr? .none e = e
  | some e => congrArg some e.edit_none
  | none => rfl

theorem editsOfExprs_none : ∀ es : List Expr, editsOfExprs .none es = es
  | [] => rfl
  | e :: es => congrArg₂ List.cons e.edit_none (editsOfExprs_none es)

theorem ArrayLength.edit_none : ∀ length : ArrayLength, length.edit .none = length
  | .slice | .inferred => rfl
  | .fixed length => congrArg ArrayLength.fixed length.edit_none

theorem Field.edit_none : ∀ f : Field, f.edit .none = f
  | ⟨loc, names, type, tag⟩ => congrArg (Field.mk loc names · tag) type.edit_none

theorem editsOfFields_none : ∀ fs : List Field, editsOfFields .none fs = fs
  | [] => rfl
  | f :: fs => congrArg₂ List.cons f.edit_none (editsOfFields_none fs)

theorem Signature.edit_none : ∀ s : Signature, s.edit .none = s
  | ⟨params, results⟩ => congrArg₂ Signature.mk (editsOfFields_none params) (editsOfFields_none results)

theorem InterfaceElem.edit_none : ∀ e : InterfaceElem, e.edit .none = e
  | .method loc name sig => congrArg (InterfaceElem.method loc name) sig.edit_none
  | .embedded loc type => congrArg (InterfaceElem.embedded loc) type.edit_none

theorem editsOfElems_none : ∀ es : List InterfaceElem, editsOfElems .none es = es
  | [] => rfl
  | e :: es => congrArg₂ List.cons e.edit_none (editsOfElems_none es)

theorem Block.edit_none : ∀ b : Block, b.edit .none = b
  | ⟨loc, stmts⟩ => congrArg (Block.mk loc) (editsOfStmts_none stmts)

theorem Stmt.edit_none : ∀ s : Stmt, s.edit .none = s
  | .bad _ | .empty _ | .branch _ _ _ => rfl
  | .declaration loc group => congrArg (Stmt.declaration loc) group.edit_none
  | .labeled loc label s => congrArg (Stmt.labeled loc label) s.edit_none
  | .expr loc e => congrArg (Stmt.expr loc) e.edit_none
  | .send loc e e' => congrArg₂ (Stmt.send loc) e.edit_none e'.edit_none
  | .incDec loc op e => congrArg (Stmt.incDec loc op) e.edit_none
  | .assign loc op left right => congrArg₂ (Stmt.assign loc op) (editsOfExprs_none left) (editsOfExprs_none right)
  | .go loc e => congrArg (Stmt.go loc) e.edit_none
  | .defer loc e => congrArg (Stmt.defer loc) e.edit_none
  | .return loc values => congrArg (Stmt.return loc) (editsOfExprs_none values)
  | .block ⟨loc, stmts⟩ => congrArg (fun ss => Stmt.block ⟨loc, ss⟩) (editsOfStmts_none stmts)
  | .if loc init cond body otherwise => by
    rw [Stmt.edit, editOfStmt?_none init, cond.edit_none, body.edit_none, editOfStmt?_none otherwise]
  | .switch loc init tag clauses => by
    rw [Stmt.edit, editOfStmt?_none init, editOfExpr?_none tag, editsOfCases_none clauses]
    rfl
  | .typeSwitch loc init guard clauses => by
    rw [Stmt.edit, editOfStmt?_none init, guard.edit_none, editsOfCases_none clauses]
    rfl
  | .select loc clauses => congrArg (Stmt.select loc) (editsOfComms_none clauses)
  | .for loc init cond post body => by
    rw [Stmt.edit, editOfStmt?_none init, editOfExpr?_none cond, editOfStmt?_none post, body.edit_none]
  | .range loc key value define e body => by
    rw [Stmt.edit, editOfExpr?_none key, editOfExpr?_none value, e.edit_none, body.edit_none]

theorem editOfStmt?_none : ∀ s : Option Stmt, editOfStmt? .none s = s
  | some s => congrArg some s.edit_none
  | none => rfl

theorem editsOfStmts_none : ∀ ss : List Stmt, editsOfStmts .none ss = ss
  | [] => rfl
  | s :: ss => congrArg₂ List.cons s.edit_none (editsOfStmts_none ss)

theorem CaseClause.edit_none : ∀ c : CaseClause, c.edit .none = c
  | ⟨loc, list, body⟩ => congrArg₂ (CaseClause.mk loc) (editOfCaseList_none list) (editsOfStmts_none body)

theorem editOfCaseList_none : ∀ list : Option (List Expr), editOfCaseList .none list = list
  | some es => congrArg some (editsOfExprs_none es)
  | none => rfl

theorem editsOfCases_none : ∀ cs : List CaseClause, editsOfCases .none cs = cs
  | [] => rfl
  | c :: cs => congrArg₂ List.cons c.edit_none (editsOfCases_none cs)

theorem CommClause.edit_none : ∀ c : CommClause, c.edit .none = c
  | ⟨loc, comm, body⟩ => congrArg₂ (CommClause.mk loc) (editOfStmt?_none comm) (editsOfStmts_none body)

theorem editsOfComms_none : ∀ cs : List CommClause, editsOfComms .none cs = cs
  | [] => rfl
  | c :: cs => congrArg₂ List.cons c.edit_none (editsOfComms_none cs)

theorem DeclGroup.edit_none : ∀ g : DeclGroup, g.edit .none = g
  | ⟨keyword, specs, grouped⟩ => congrArg (DeclGroup.mk keyword · grouped) (editsOfSpecs_none specs)

theorem Spec.edit_none : ∀ s : Spec, s.edit .none = s
  | .import _ _ => rfl
  | .value loc names type values => congrArg₂ (Spec.value loc names) (editOfExpr?_none type) (editsOfExprs_none values)
  | .type loc name type => congrArg (Spec.type loc name) type.edit_none

theorem editsOfSpecs_none : ∀ ss : List Spec, editsOfSpecs .none ss = ss
  | [] => rfl
  | s :: ss => congrArg₂ List.cons s.edit_none (editsOfSpecs_none ss)

end

theorem FuncDecl.edit_none (f : FuncDecl) : f.edit .none = f := by
  obtain ⟨receiver, name, sig, body⟩ := f
  rw [FuncDecl.edit, sig.edit_none, show editsOfFields .none = id from funext editsOfFields_none,
    show Block.edit .none = id from funext Block.edit_none,
    Option.map_id, Option.map_id]
  rfl

/-- A file is left as it is. -/
theorem SourceFile.edit_none (f : SourceFile) : f.edit .none = f := by
  have hdecl : Decl.edit .none = id := funext fun
    | .bad _ => rfl
    | .group loc g => congrArg (Decl.group loc) g.edit_none
    | .func loc d => congrArg (Decl.func loc) d.edit_none
  rw [SourceFile.edit, hdecl, List.map_id]
  rfl

end GoSyntax
