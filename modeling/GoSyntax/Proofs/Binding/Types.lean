import GoSyntax.Grammar.TypeForm
import GoSyntax.Proofs.Lengths.Types
import GoSyntax.Tree.Binding
import GoSyntax.Tree.Headers

/-!
# What types bind

Two properties of the nodes of a tree hold whatever has been read and reported: operators follow the precedences, and no header exposes a
composite literal whose type is a name. A type is never what a binary operator joins, and it exposes no such literal, since expressions
stand in it only in brackets.
-/

namespace GoSyntax

/-! ## Shielded expressions -/

/-- An expression is shielded if it is no such literal itself and its open parts are shielded. -/
theorem Expr.Shielded.of_parts {e : Expr} (he : e.isNamedComposite = false) (hparts : ∀ part ∈ e.openParts, part.Shielded) :
    e.Shielded := by
  intro x hx
  cases hx with
  | self => exact he
  | part hpart hx => exact hparts _ hpart x hx

/-! ## Nodes -/

/-- The node follows the precedences and has no header that exposes a composite literal. -/
def Node.Settled (n : Node) : Prop := n.Ordered ∧ n.HeaderShielded

@[simp] theorem Node.settled_expr (e : Expr) : (Node.expr e).Settled ↔ e.Ordered := and_iff_left trivial

@[simp] theorem Node.settled_stmt (s : Stmt) : (Node.stmt s).Settled ↔ s.HeaderShielded := and_iff_right trivial

@[simp] theorem Node.settled_decl (d : Decl) : (Node.decl d).Settled := ⟨trivial, trivial⟩

@[simp] theorem Node.settled_spec (s : Spec) : (Node.spec s).Settled := ⟨trivial, trivial⟩

@[simp] theorem Node.settled_field (f : Field) : (Node.field f).Settled := ⟨trivial, trivial⟩

@[simp] theorem Node.settled_elem (e : InterfaceElem) : (Node.elem e).Settled := ⟨trivial, trivial⟩

@[simp] theorem Node.settled_block (b : Block) : (Node.block b).Settled := ⟨trivial, trivial⟩

@[simp] theorem Node.settled_case (c : CaseClause) : (Node.case c).Settled := ⟨trivial, trivial⟩

@[simp] theorem Node.settled_comm (c : CommClause) : (Node.comm c).Settled := ⟨trivial, trivial⟩

@[simp] theorem Node.settled_name (n : Name) : (Node.name n).Settled := ⟨trivial, trivial⟩

@[simp] theorem Node.settled_literal (l : Literal) : (Node.literal l).Settled := ⟨trivial, trivial⟩

/-- All these nodes follow the precedences and shield their headers. -/
def Settled (ns : List Node) : Prop := ∀ n ∈ ns, n.Settled

@[simp] theorem settled_nil : Settled [] := List.forall_mem_nil _

@[simp] theorem settled_cons (n : Node) (ns : List Node) : Settled (n :: ns) ↔ n.Settled ∧ Settled ns := List.forall_mem_cons

@[simp] theorem settled_append (ms ns : List Node) : Settled (ms ++ ns) ↔ Settled ms ∧ Settled ns := List.forall_mem_append

theorem settled_flatMap {α : Type} (f : α → List Node) (as : List α) : Settled (as.flatMap f) ↔ ∀ a ∈ as, Settled (f a) := by
  simp only [Settled, List.mem_flatMap]
  grind

@[simp] theorem settled_names (ns : List Name) : Settled (nodesOfNames ns) := List.forall_mem_map.2 fun n _ => Node.settled_name n

@[simp] theorem settled_literal? (l : Option Literal) : Settled (nodesOfLiteral? l) := by cases l <;> simp [nodesOfLiteral?]

@[simp] theorem settled_expr? (e : Option Expr) : Settled (nodesOfExpr? e) ↔ ∀ e' ∈ e, Settled e'.nodes := by
  cases e <;> simp [nodesOfExpr?]

@[simp] theorem settled_exprs (es : List Expr) : Settled (nodesOfExprs es) ↔ ∀ e ∈ es, Settled e.nodes := by
  rw [nodesOfExprs_eq, settled_flatMap]

@[simp] theorem settled_length (l : ArrayLength) : Settled l.nodes ↔ ∀ e ∈ l.expr?, Settled e.nodes := by
  cases l <;> simp [ArrayLength.nodes, ArrayLength.expr?]

@[simp] theorem settled_field (f : Field) : Settled f.nodes ↔ Settled f.type.nodes := by
  obtain ⟨loc, names, type, tag⟩ := f
  simp [Field.nodes]

@[simp] theorem settled_fields (fs : List Field) : Settled (nodesOfFields fs) ↔ ∀ f ∈ fs, Settled f.type.nodes := by
  simp [nodesOfFields_eq, settled_flatMap]

@[simp] theorem settled_elems (es : List InterfaceElem) : Settled (nodesOfElems es) ↔ ∀ e ∈ es, Settled e.nodes := by
  rw [nodesOfElems_eq, settled_flatMap]

/-! ## Expressions as they are read -/

/-- An expression that has been read at a nesting level: in a header it is shielded. -/
structure Expr.SettledAt (level : Int) (e : Expr) : Prop where
  nodes : Settled e.nodes
  shielded : level < 0 → e.Shielded

/-- An operand that has been read at a nesting level. -/
structure Expr.SettledOperand (level : Int) (e : Expr) : Prop extends e.SettledAt level where
  notBinary : e.isBinary = false

/-- A type that has been read. -/
structure Expr.SettledType (e : Expr) : Prop where
  nodes : Settled e.nodes
  notBinary : e.isBinary = false
  shielded : e.Shielded

theorem Expr.SettledType.operand {e : Expr} (h : e.SettledType) (level : Int) : e.SettledOperand level :=
  ⟨⟨h.nodes, fun _ => h.shielded⟩, h.notBinary⟩

theorem Expr.settledType_bad (loc : Location) : (Expr.bad loc).SettledType :=
  ⟨by simp [Expr.nodes, Expr.Ordered], rfl, .of_parts rfl (List.forall_mem_nil _)⟩

/-- The types of all fields have been read. -/
def SettledFields (fields : List Field) : Prop := ∀ f ∈ fields, f.type.SettledType

theorem SettledFields.nodes {fields : List Field} (h : SettledFields fields) : ∀ f ∈ fields, Settled f.type.nodes :=
  fun f hf => (h f hf).nodes

theorem settledFields_nil : SettledFields [] := List.forall_mem_nil _

/-- The types in a signature have been read. -/
structure Signature.Settled (s : Signature) : Prop where
  params : SettledFields s.params
  results : SettledFields s.results

theorem Signature.Settled.nodes {s : Signature} (h : s.Settled) : GoSyntax.Settled s.nodes := by
  obtain ⟨params, results⟩ := s
  have hparams := h.params.nodes
  have hresults := h.results.nodes
  simpa [Signature.nodes] using ⟨hparams, hresults⟩

theorem Signature.Settled.shielded {s : Signature} (h : s.Settled) : ∀ t ∈ s.typeParts, t.Shielded := by
  intro t ht
  rcases List.mem_append.1 ht with ht | ht
  · obtain ⟨f, hf, rfl⟩ := List.mem_map.1 ht
    exact (h.params f hf).shielded
  · obtain ⟨f, hf, rfl⟩ := List.mem_map.1 ht
    exact (h.results f hf).shielded

/-! ## Productions -/

/-- What the productions give follows the precedences and shields its headers. -/
structure Productions.GiveSettled (p : Productions) : Prop where
  type? : Gives (fun t => ∀ e ∈ t, e.SettledType) p.type?
  expr : ∀ level, Gives (Expr.SettledAt level) (p.expr level)
  unary : ∀ level, Gives (Expr.SettledOperand level) (p.unary level)
  elementValue : ∀ level, Gives (fun e => Settled e.nodes) (p.elementValue level)
  stmt : Gives (fun s => Settled s.nodes) p.stmt

namespace Grammar

open Gives

variable {p : Productions}

attribute [local simp] Expr.nodes Expr.Ordered

theorem type_settled (hp : p.GiveSettled) : Gives Expr.SettledType (type p) := by
  refine hp.type?.bind fun t ht => ?_
  cases t with
  | some t => exact .pure (ht t rfl)
  | none => exact step fun here => step fun _ => step fun _ => .pure (Expr.settledType_bad here.loc)

theorem typeName_settled : Gives Expr.SettledType typeName := by
  have hident : ∀ loc name, (Expr.ident loc name).Shielded := fun loc name => .of_parts rfl (List.forall_mem_nil _)
  refine step fun base => step fun _ => .ite (step fun field => .pure ⟨by simp [Expr.isBinary], rfl, ?_⟩) (.pure ⟨by simp, rfl, hident _ _⟩)
  exact .of_parts rfl (List.forall_mem_singleton.2 (hident _ _))

theorem arrayLength_settled (hp : p.GiveSettled) (inferable : Bool) :
    Gives (fun l => ∀ e ∈ l.expr?, Settled e.nodes) (arrayLength p inferable) := by
  have hfixed : Gives (fun l => ∀ e ∈ l.expr?, Settled e.nodes) (p.expr 0 >>= fun e => Pure.pure (ArrayLength.fixed e)) :=
    (hp.expr 0).bind fun e he => .pure (by simpa [ArrayLength.expr?] using he.nodes)
  have hgiven : Gives (fun l => ∀ e ∈ l.expr?, Settled e.nodes) (givenLength p inferable) :=
    step fun _ => .ite (.pure (by simp [ArrayLength.expr?])) hfixed
  exact step fun _ => .ite (.pure (by simp [ArrayLength.expr?])) (hgiven.bind fun l hl => step fun _ => .pure hl)

theorem arrayType_settled (hp : p.GiveSettled) (inferable : Bool) : Gives Expr.SettledType (arrayType p inferable) := by
  refine step fun here => (arrayLength_settled hp inferable).bind fun l hl => (type_settled hp).bind fun elem helem => .pure ⟨?_, rfl, ?_⟩
  · simpa using ⟨hl, helem.nodes⟩
  · exact .of_parts rfl (List.forall_mem_singleton.2 helem.shielded)

theorem mapType_settled (hp : p.GiveSettled) : Gives Expr.SettledType (mapType p) := by
  refine step fun _ => step fun _ => (type_settled hp).bind fun key hkey => step fun _ => (type_settled hp).bind fun value hvalue =>
    .pure ⟨?_, rfl, ?_⟩
  · simpa using ⟨hkey.nodes, hvalue.nodes⟩
  · exact .of_parts rfl (List.forall_mem_cons.2 ⟨hkey.shielded, List.forall_mem_singleton.2 hvalue.shielded⟩)

theorem channelType_settled (hp : p.GiveSettled) : Gives Expr.SettledType (channelType p) :=
  step fun _ => step fun _ => (type_settled hp).bind fun elem helem =>
    .pure ⟨by simpa using helem.nodes, rfl, .of_parts rfl (List.forall_mem_singleton.2 helem.shielded)⟩

/-! ## Parameters and signatures -/

theorem parameterType?_settled (hp : p.GiveSettled) (variadic : Bool) :
    Gives (fun t => ∀ e ∈ t, e.SettledType) (parameterType? p variadic) := by
  have hvariadic : Gives Expr.SettledType (variadicType p variadic) :=
    step fun _ => step fun _ => (type_settled hp).bind fun elem helem =>
      .pure ⟨by simpa using helem.nodes, rfl, .of_parts rfl (List.forall_mem_singleton.2 helem.shielded)⟩
  exact step fun _ => .ite hvariadic.some_ hp.type?

theorem parameterType_settled (hp : p.GiveSettled) (variadic : Bool) : Gives Expr.SettledType (parameterType p variadic) := by
  refine (parameterType?_settled hp variadic).bind fun t ht => ?_
  cases t with
  | some t => exact .pure (ht t rfl)
  | none => exact type_settled hp

theorem parameterList_settled (hp : p.GiveSettled) (variadic : Bool) : Gives SettledFields (parameterList p variadic) := by
  have hentry : ∀ entries, Gives (Keeps Expr.SettledType entries) (entryPass p variadic entries) := fun entries =>
    (parameterType_settled hp variadic).bind fun t ht => step fun _ => .ite
      (step fun _ => .ite (.pure (keeps_push rfl ht)) (.pure (keeps_push rfl ht))) (.pure (keeps_push rfl ht))
  have hgroup : Gives (fun f : Field => f.type.SettledType) (parameterGroup p variadic) :=
    step fun _ => step fun _ => (parameterType_settled hp variadic).bind fun t ht => .pure ht
  have hpass : ∀ groups, Gives (Keeps (fun f : Field => f.type.SettledType) groups) (groupPass p variadic groups) := fun groups =>
    step fun _ => .ite (step fun _ => .ite (.pure id) (hgroup.bind fun f hf => .pure (keeps_push rfl hf))) (.pure id)
  have hgroups : Gives SettledFields (moreGroups p variadic) := (collect hpass).bind fun groups hgroups => .pure hgroups
  have hentries : Gives (fun entries => ∀ e ∈ entries, e.SettledType) (parameterEntries p variadic) :=
    (collect hentry).bind fun entries hentries => .pure hentries
  refine hentries.bind fun entries hentries => ?_
  refine (parameterType?_settled hp variadic).bind fun t ht => ?_
  cases t with
  | some t => exact step fun _ => hgroups.bind fun groups hgroups => .pure (List.forall_mem_cons.2 ⟨ht t rfl, hgroups⟩)
  | none => exact .pure (List.forall_mem_map.2 hentries)

theorem parameters_settled (hp : p.GiveSettled) (variadic : Bool) : Gives SettledFields (parameters p variadic) := by
  have hfields : Gives SettledFields (parameterFields p variadic) := step fun _ => .ite (.pure settledFields_nil)
    ((parameterList_settled hp variadic).bind fun fields hfields => step fun _ => .pure hfields)
  exact step fun _ => hfields.bind fun fields hfields => step fun _ => .pure hfields

theorem signature_settled (hp : p.GiveSettled) : Gives Signature.Settled (signature p) := by
  have hresults : Gives SettledFields (results p) := by
    refine step fun _ => .ite (parameters_settled hp false) (hp.type?.bind fun t ht => ?_)
    cases t with
    | some t => exact .pure (List.forall_mem_singleton.2 (ht t rfl))
    | none => exact .pure settledFields_nil
  exact (parameters_settled hp true).bind fun params hparams => hresults.bind fun results hresults => .pure ⟨hparams, hresults⟩

theorem functionType_settled (hp : p.GiveSettled) : Gives Expr.SettledType (functionType p) :=
  step fun _ => (signature_settled hp).bind fun sig hsig => .pure ⟨by simpa using hsig.nodes, rfl, .of_parts rfl hsig.shielded⟩

/-! ## Bodies of structs and interfaces -/

theorem structType_settled (hp : p.GiveSettled) : Gives Expr.SettledType (structType p) := by
  have htype : Gives (fun nt : List Name × Expr => nt.2.SettledType) (fieldType p) := by
    refine step fun _ => .ite (step fun _ => .ite (typeName_settled.bind fun t ht => .pure ht) ?_)
      (step fun star => typeName_settled.bind fun t ht => .pure ⟨?_, rfl, .of_parts rfl (List.forall_mem_singleton.2 ht.shielded)⟩)
    · exact step fun _ => (type_settled hp).bind fun t ht => .pure ht
    · simpa using ⟨ht.notBinary, ht.nodes⟩
  have hfield : Gives (fun f : Field => f.type.SettledType) (field p) :=
    step fun _ => htype.bind fun (_, _) ht => step fun _ => .pure ht
  refine step fun _ => (bodyItems_gives _ _ hfield).bind fun fields hfields => .pure ⟨?_, rfl, .of_parts rfl ?_⟩
  · have hnodes : ∀ f ∈ fields, Settled f.type.nodes := SettledFields.nodes hfields
    simpa using hnodes
  · exact List.forall_mem_map.2 fun f hf => (hfields f hf).shielded

theorem interfaceType_settled (hp : p.GiveSettled) : Gives Expr.SettledType (interfaceType p) := by
  have helem : Gives (fun e : InterfaceElem => Settled e.nodes ∧ ∀ t ∈ e.typeParts, t.Shielded) (interfaceElem p) := by
    refine step fun _ => step fun _ => .ite (step fun _ => (signature_settled hp).bind fun sig hsig => .pure ⟨?_, hsig.shielded⟩)
      (typeName_settled.bind fun t ht => .pure ⟨?_, List.forall_mem_singleton.2 ht.shielded⟩)
    · simpa [InterfaceElem.nodes] using hsig.nodes
    · simpa [InterfaceElem.nodes] using ht.nodes
  refine step fun _ => (bodyItems_gives _ _ helem).bind fun elems helems => .pure ⟨?_, rfl, .of_parts rfl fun t ht => ?_⟩
  · have hnodes : ∀ e ∈ elems, Settled e.nodes := fun e he => (helems e he).1
    simpa using hnodes
  · obtain ⟨e, he, ht⟩ := List.mem_flatMap.1 ht
    exact (helems e he).2 t ht

/-! ## All types -/

theorem type?_settled (hp : p.GiveSettled) (inferable : Bool) : Gives (fun t => ∀ e ∈ t, e.SettledType) (type? p inferable) := by
  have hparen : Gives Expr.SettledType (parenType p) :=
    step fun _ => (type_settled hp).bind fun inner hinner => step fun _ =>
      .pure ⟨by simpa using hinner.nodes, rfl, .of_parts rfl (List.forall_mem_nil _)⟩
  have hpointer : Gives Expr.SettledType (pointerType p) :=
    step fun _ => (type_settled hp).bind fun elem helem =>
      .pure ⟨by simpa using ⟨helem.notBinary, helem.nodes⟩, rfl, .of_parts rfl (List.forall_mem_singleton.2 helem.shielded)⟩
  refine step fun here => ?_
  split
  · exact typeName_settled.some_
  · exact (arrayType_settled hp inferable).some_
  · exact hparen.some_
  · exact hpointer.some_
  · exact (channelType_settled hp).some_
  · exact (structType_settled hp).some_
  · exact (interfaceType_settled hp).some_
  · exact (mapType_settled hp).some_
  · exact (channelType_settled hp).some_
  · exact (functionType_settled hp).some_
  · exact .none_

end Grammar

end GoSyntax
