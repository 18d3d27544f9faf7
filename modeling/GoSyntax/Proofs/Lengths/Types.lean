import GoSyntax.Grammar.TypeForm
import GoSyntax.Proofs.Same
import GoSyntax.Proofs.TreeTally
import GoSyntax.Tree.TypePlaces

/-!
# Types have lengths

The length of an array type is left open only where an operand is read, and no type is read as an operand. So a type that stands where
only a type can stand has a length, whatever has been read and reported.
-/

namespace GoSyntax

/-- Among these nodes no type leaves its length open where only a type can stand. -/
def Sized (ns : List Node) : Prop := ∀ n ∈ ns, ∀ t ∈ n.typeParts, t.infersLength = false

/-- All types below the expression have lengths where they must, and so has the expression. -/
def Expr.SizedType (t : Expr) : Prop := Sized t.nodes ∧ t.infersLength = false

/-- The types of all fields have lengths. -/
def SizedFields (fields : List Field) : Prop := ∀ f ∈ fields, f.type.SizedType

/-! ## Nodes -/

@[simp] theorem sized_nil : Sized [] := fun _ h => nomatch h

@[simp] theorem sized_cons (n : Node) (ns : List Node) :
    Sized (n :: ns) ↔ (∀ t ∈ n.typeParts, t.infersLength = false) ∧ Sized ns := by simp [Sized]

@[simp] theorem sized_append (ms ns : List Node) : Sized (ms ++ ns) ↔ Sized ms ∧ Sized ns := by
  simp only [Sized, List.mem_append, or_imp, forall_and]

theorem sized_flatMap {α : Type} (f : α → List Node) (as : List α) : Sized (as.flatMap f) ↔ ∀ a ∈ as, Sized (f a) := by
  simp only [Sized, List.mem_flatMap]
  grind

@[simp] theorem sized_names (ns : List Name) : Sized (nodesOfNames ns) := by simp [Sized, nodesOfNames, Node.typeParts]

@[simp] theorem sized_literal? (l : Option Literal) : Sized (nodesOfLiteral? l) := by
  cases l <;> simp [nodesOfLiteral?, Node.typeParts]

@[simp] theorem sized_expr? (e : Option Expr) : Sized (nodesOfExpr? e) ↔ ∀ e' ∈ e, Sized e'.nodes := by
  cases e <;> simp [nodesOfExpr?]

@[simp] theorem sized_exprs (es : List Expr) : Sized (nodesOfExprs es) ↔ ∀ e ∈ es, Sized e.nodes := by
  rw [nodesOfExprs_eq, sized_flatMap]

@[simp] theorem sized_length (l : ArrayLength) : Sized l.nodes ↔ ∀ e ∈ l.expr?, Sized e.nodes := by
  cases l <;> simp [ArrayLength.nodes, ArrayLength.expr?]

@[simp] theorem sized_field (f : Field) : Sized f.nodes ↔ Sized f.type.nodes := by
  obtain ⟨loc, names, type, tag⟩ := f
  simp [Field.nodes, Node.typeParts]

@[simp] theorem sized_fields (fs : List Field) : Sized (nodesOfFields fs) ↔ ∀ f ∈ fs, Sized f.type.nodes := by
  simp [nodesOfFields_eq, sized_flatMap]

@[simp] theorem sized_elems (es : List InterfaceElem) : Sized (nodesOfElems es) ↔ ∀ e ∈ es, Sized e.nodes := by
  rw [nodesOfElems_eq, sized_flatMap]

theorem Expr.SizedType.fields {fields : List Field} : SizedFields fields
    ↔ (∀ f ∈ fields, Sized f.type.nodes) ∧ ∀ f ∈ fields, f.type.infersLength = false := by
  simp only [SizedFields, Expr.SizedType, imp_and, forall_and]

/-- The types in a signature have lengths. -/
structure Signature.Sized (s : Signature) : Prop where
  params : SizedFields s.params
  results : SizedFields s.results

theorem Signature.Sized.nodes {s : Signature} (h : s.Sized) : GoSyntax.Sized s.nodes := by
  obtain ⟨params, results⟩ := s
  have hparams := (Expr.SizedType.fields.1 h.params).1
  have hresults := (Expr.SizedType.fields.1 h.results).1
  simpa [Signature.nodes] using ⟨hparams, hresults⟩

theorem Signature.Sized.typeParts {s : Signature} (h : s.Sized) : ∀ t ∈ s.typeParts, t.infersLength = false := by
  intro t ht
  rcases List.mem_append.1 ht with ht | ht
  · obtain ⟨f, hf, rfl⟩ := List.mem_map.1 ht
    exact (h.params f hf).2
  · obtain ⟨f, hf, rfl⟩ := List.mem_map.1 ht
    exact (h.results f hf).2

/-! ## Productions -/

/-- What the productions give has lengths where it must. -/
structure Productions.GiveSized (p : Productions) : Prop where
  type? : Gives (fun t => ∀ e ∈ t, e.SizedType) p.type?
  expr : ∀ level, Gives (fun e => Sized e.nodes) (p.expr level)
  unary : ∀ level, Gives (fun e => Sized e.nodes) (p.unary level)
  elementValue : ∀ level, Gives (fun e => Sized e.nodes) (p.elementValue level)
  stmt : Gives (fun s => Sized s.nodes) p.stmt

namespace Grammar

open Gives

variable {p : Productions}

attribute [local simp] Expr.nodes Node.typeParts Expr.typeParts Expr.infersLength Expr.SizedType

theorem type_sized (hp : p.GiveSized) : Gives Expr.SizedType (type p) := by
  refine hp.type?.bind fun t ht => ?_
  cases t with
  | some t => exact .pure (ht t rfl)
  | none => exact step fun _ => step fun _ => step fun _ => .pure (by simp)

theorem typeName_sized : Gives Expr.SizedType typeName := step fun _ => step fun _ => .ite (step fun _ => .pure (by simp)) (.pure (by simp))

/-- The length is left open only if it may be. -/
theorem arrayLength_sized (hp : p.GiveSized) (inferable : Bool) :
    Gives (fun l => (∀ e ∈ l.expr?, Sized e.nodes) ∧ (inferable = false → l ≠ .inferred)) (arrayLength p inferable) := by
  have hgiven : Gives (fun l => (∀ e ∈ l.expr?, Sized e.nodes) ∧ (inferable = false → l ≠ .inferred)) (givenLength p inferable) := by
    have hfixed := (hp.expr 0).bind fun e he => pure (a := ArrayLength.fixed e)
      (P := fun l => (∀ e ∈ l.expr?, Sized e.nodes) ∧ (inferable = false → l ≠ .inferred)) (by simpa [ArrayLength.expr?] using he)
    cases inferable with
    | true => exact step fun _ => .ite (.pure (by simp [ArrayLength.expr?])) hfixed
    | false => exact hfixed
  exact step fun _ => .ite (.pure (by simp [ArrayLength.expr?])) (hgiven.bind fun l hl => step fun _ => .pure hl)

theorem arrayType_sized (hp : p.GiveSized) (inferable : Bool) :
    Gives (fun t => Sized t.nodes ∧ (inferable = false → t.infersLength = false)) (arrayType p inferable) := by
  refine step fun here => (arrayLength_sized hp inferable).bind fun l hl => (type_sized hp).bind fun elem helem => .pure ⟨?_, ?_⟩
  · simpa using ⟨helem.2, hl.1, helem.1⟩
  · intro hinferable
    have hne := hl.2 hinferable
    cases l <;> simp_all

theorem mapType_sized (hp : p.GiveSized) : Gives Expr.SizedType (mapType p) :=
  step fun _ => step fun _ => (type_sized hp).bind fun key hkey => step fun _ => (type_sized hp).bind fun value hvalue =>
    .pure (by simpa using ⟨⟨hkey.2, hvalue.2⟩, hkey.1, hvalue.1⟩)

theorem channelType_sized (hp : p.GiveSized) : Gives Expr.SizedType (channelType p) :=
  step fun _ => step fun _ => (type_sized hp).bind fun elem helem => .pure (by simpa using helem.symm)

/-! ## Parameters and signatures -/

theorem parameterType?_sized (hp : p.GiveSized) (variadic : Bool) :
    Gives (fun t => ∀ e ∈ t, e.SizedType) (parameterType? p variadic) := by
  have hvariadic : Gives Expr.SizedType (variadicType p variadic) :=
    step fun _ => step fun _ => (type_sized hp).bind fun elem helem => .pure (by simpa using helem.symm)
  exact step fun _ => .ite hvariadic.some_ hp.type?

theorem parameterType_sized (hp : p.GiveSized) (variadic : Bool) : Gives Expr.SizedType (parameterType p variadic) := by
  refine (parameterType?_sized hp variadic).bind fun t ht => ?_
  cases t with
  | some t => exact .pure (ht t rfl)
  | none => exact type_sized hp

theorem parameterList_sized (hp : p.GiveSized) (variadic : Bool) : Gives SizedFields (parameterList p variadic) := by
  have hentry : ∀ entries, Gives (Keeps Expr.SizedType entries) (entryPass p variadic entries) := fun entries =>
    (parameterType_sized hp variadic).bind fun t ht => step fun _ => .ite
      (step fun _ => .ite (.pure (keeps_push rfl ht)) (.pure (keeps_push rfl ht))) (.pure (keeps_push rfl ht))
  have hgroup : Gives (fun f : Field => f.type.SizedType) (parameterGroup p variadic) :=
    step fun _ => step fun _ => (parameterType_sized hp variadic).bind fun t ht => .pure ht
  have hpass : ∀ groups, Gives (Keeps (fun f : Field => f.type.SizedType) groups) (groupPass p variadic groups) := fun groups =>
    step fun _ => .ite (step fun _ => .ite (.pure id) (hgroup.bind fun f hf => .pure (keeps_push rfl hf))) (.pure id)
  have hgroups : Gives SizedFields (moreGroups p variadic) := (collect hpass).bind fun groups hgroups => .pure hgroups
  have hentries : Gives (fun entries => ∀ e ∈ entries, e.SizedType) (parameterEntries p variadic) :=
    (collect hentry).bind fun entries hentries => .pure hentries
  refine hentries.bind fun entries hentries => ?_
  refine (parameterType?_sized hp variadic).bind fun t ht => ?_
  cases t with
  | some t => exact step fun _ => hgroups.bind fun groups hgroups => .pure (List.forall_mem_cons.2 ⟨ht t rfl, hgroups⟩)
  | none =>
    refine .pure ?_
    simpa [SizedFields, unnamed] using hentries

theorem parameters_sized (hp : p.GiveSized) (variadic : Bool) : Gives SizedFields (parameters p variadic) := by
  have hfields : Gives SizedFields (parameterFields p variadic) := step fun _ => .ite (.pure fun _ h => nomatch h)
    ((parameterList_sized hp variadic).bind fun fields hfields => step fun _ => .pure hfields)
  exact step fun _ => hfields.bind fun fields hfields => step fun _ => .pure hfields

theorem signature_sized (hp : p.GiveSized) : Gives Signature.Sized (signature p) := by
  have hresults : Gives SizedFields (results p) := by
    refine step fun _ => .ite (parameters_sized hp false) (hp.type?.bind fun t ht => ?_)
    cases t with
    | some t =>
      refine .pure ?_
      simpa [SizedFields, unnamed] using ht
    | none => exact .pure fun _ h => nomatch h
  exact (parameters_sized hp true).bind fun params hparams => hresults.bind fun results hresults => .pure ⟨hparams, hresults⟩

theorem functionType_sized (hp : p.GiveSized) : Gives Expr.SizedType (functionType p) :=
  step fun _ => (signature_sized hp).bind fun sig hsig => .pure (by simpa using ⟨hsig.typeParts, hsig.nodes⟩)

/-! ## Bodies of structs and interfaces -/

theorem bodyItems_gives {α : Type} {P : α → Prop} (starts : TokenKind → Bool) {item : Parse α} (missing : String → Fault)
    (hitem : Gives P item) : Gives (fun items => ∀ a ∈ items, P a) (bodyItems starts item missing) := by
  have hresume : ∀ items : Array α, Gives (Keeps P items) (resumeBody items) := fun items =>
    step fun _ => step fun _ => .ite (.pure id) (.pure id)
  have hpass : ∀ items : Array α, Gives (Keeps P items) (itemPass starts item missing items) := by
    intro items
    refine step fun here => .ite (.pure id) (.ite (hitem.bind fun a ha => step fun _ => ?_) (step fun _ => hresume items))
    refine .ite (.pure (keeps_push rfl ha)) (step fun _ => (hresume _).weaken fun s hs hitems => ?_)
    exact hs (Array.forall_mem_push.2 ⟨ha, hitems⟩)
  exact step fun _ => (collect hpass).bind fun items hitems => step fun _ => .pure hitems

theorem structType_sized (hp : p.GiveSized) : Gives Expr.SizedType (structType p) := by
  have htype : Gives (fun nt : List Name × Expr => nt.2.SizedType) (fieldType p) := by
    refine step fun _ => .ite (step fun _ => .ite (typeName_sized.bind fun t ht => .pure ht) ?_)
      (step fun star => typeName_sized.bind fun t ht => .pure ?_)
    · exact step fun _ => (type_sized hp).bind fun t ht => .pure ht
    · simpa using ht
  have hfield : Gives (fun f : Field => f.type.SizedType) (field p) :=
    step fun _ => htype.bind fun (_, _) ht => step fun _ => .pure ht
  refine step fun _ => (bodyItems_gives _ _ hfield).bind fun fields hfields => .pure ?_
  obtain ⟨hnodes, hinfers⟩ := Expr.SizedType.fields.1 hfields
  simpa using ⟨hinfers, hnodes⟩

theorem interfaceType_sized (hp : p.GiveSized) : Gives Expr.SizedType (interfaceType p) := by
  have helem : Gives (fun e : InterfaceElem => Sized e.nodes) (interfaceElem p) := by
    refine step fun _ => step fun _ => .ite (step fun _ => (signature_sized hp).bind fun sig hsig => .pure ?_)
      (typeName_sized.bind fun t ht => .pure ?_)
    · simpa [InterfaceElem.nodes, InterfaceElem.typeParts] using ⟨hsig.typeParts, hsig.nodes⟩
    · simpa [InterfaceElem.nodes, InterfaceElem.typeParts] using ht.symm
  exact step fun _ => (bodyItems_gives _ _ helem).bind fun elems helems => .pure (by simpa using helems)

/-! ## All types -/

/-- A type has a length unless its length may be left open. -/
theorem type?_sized (hp : p.GiveSized) (inferable : Bool) :
    Gives (fun t => ∀ e ∈ t, Sized e.nodes ∧ (inferable = false → e.infersLength = false)) (type? p inferable) := by
  have given : ∀ {f : Parse Expr}, Gives Expr.SizedType f →
      Gives (fun t => ∀ e ∈ t, Sized e.nodes ∧ (inferable = false → e.infersLength = false)) (some <$> f) := fun hf =>
    (hf.weaken fun e he => ⟨he.1, fun _ => he.2⟩).some_
  have hparen : Gives Expr.SizedType (parenType p) :=
    step fun _ => (type_sized hp).bind fun inner hinner => step fun _ => .pure (by simpa using hinner)
  have hpointer : Gives Expr.SizedType (pointerType p) :=
    step fun _ => (type_sized hp).bind fun elem helem => .pure (by simpa using helem)
  refine step fun here => ?_
  split
  · exact given typeName_sized
  · exact (arrayType_sized hp inferable).some_
  · exact given hparen
  · exact given hpointer
  · exact given (channelType_sized hp)
  · exact given (structType_sized hp)
  · exact given (interfaceType_sized hp)
  · exact given (mapType_sized hp)
  · exact given (channelType_sized hp)
  · exact given (functionType_sized hp)
  · exact .none_

end Grammar

end GoSyntax
