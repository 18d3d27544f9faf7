import GoSyntax.Grammar.TypeForm
import GoSyntax.Proofs.Leaves.Gathers

/-!
# Types gather their leaves

The entries of a parameter list are read as types and may become names. An entry that is a name keeps its leaf, and any other gives all
of its leaves away, so the leaves of the names are among those of the entries.
-/

namespace GoSyntax

open Gathers

/-- All productions gather. -/
structure Productions.Gather (p : Productions) : Prop where
  type? : Gathers [] p.type?
  expr : ∀ level, Gathers [] (p.expr level)
  unary : ∀ level, Gathers [] (p.unary level)
  elementValue : ∀ level, Gathers [] (p.elementValue level)
  stmt : Gathers [] p.stmt

namespace Grammar

variable {p : Productions}

theorem type_gathers (hp : p.Gather) : Gathers [] (type p) := by
  refine hp.type?.bind fun t => ?_
  cases t with
  | some t => exact .pure (by simp)
  | none => exact current.step fun _ => (reportHere _).step fun _ => (skipTo _).step fun _ => .pure (List.nil_sublist _)

theorem qualified_gathers (base : Name) : Gathers (leaves base) (qualified base) :=
  (accept _).step fun _ => .ite (name.bind fun _ => .pure (by simp [Name.leaves_eq])) (.pure (by simp [Name.leaves_eq]))

theorem typeName_gathers : Gathers [] typeName := name.bind fun base => qualified_gathers base

theorem arrayLength_gathers (hp : p.Gather) (inferable : Bool) : Gathers [] (arrayLength p inferable) := by
  have hgiven : Gathers [] (givenLength p inferable) :=
    (andM (.pure (List.nil_sublist _)) (accept _)).step fun _ =>
      .ite (.pure (List.nil_sublist _)) ((hp.expr 0).bind fun _ => .pure (by simp))
  exact (accept _).step fun _ => .ite (.pure (List.nil_sublist _)) (hgiven.bind fun _ => (expect _).step fun _ => .pure (by simp))

theorem arrayType_gathers (hp : p.Gather) (inferable : Bool) : Gathers [] (arrayType p inferable) :=
  consume.step fun _ => (arrayLength_gathers hp inferable).bind fun _ => (type_gathers hp).bind fun _ => .pure (by simp)

theorem mapType_gathers (hp : p.Gather) : Gathers [] (mapType p) :=
  consume.step fun _ => (expect _).step fun _ => (type_gathers hp).bind fun _ => (expect _).step fun _ =>
    (type_gathers hp).bind fun _ => .pure (by simp)

theorem channelDirection_gathers : Gathers [] channelDirection :=
  (accept _).step fun _ => .ite
    ((accept _).step fun _ => .ite (.pure (List.nil_sublist _)) (.pure (List.nil_sublist _)))
    ((expect _).step fun _ => (expect _).step fun _ => .pure (List.nil_sublist _))

theorem channelType_gathers (hp : p.Gather) : Gathers [] (channelType p) :=
  current.step fun _ => channelDirection_gathers.step fun _ => (type_gathers hp).bind fun _ => .pure (by simp)

/-! ## Parameters and signatures -/

theorem parameterType?_gathers (hp : p.Gather) (variadic : Bool) : Gathers [] (parameterType? p variadic) := by
  have hvariadic : Gathers [] (variadicType p variadic) :=
    consume.step fun _ => (reportUnless _ _ _).step fun _ => (type_gathers hp).bind fun _ => .pure (by simp)
  exact (isAt _).step fun _ => .ite (hvariadic.map fun _ => by simp) hp.type?

theorem parameterType_gathers (hp : p.Gather) (variadic : Bool) : Gathers [] (parameterType p variadic) := by
  refine (parameterType?_gathers hp variadic).bind fun t => ?_
  cases t with
  | some t => exact .pure (by simp)
  | none => exact type_gathers hp

/-- A name has the leaf of the entry that it was read as, or none. -/
theorem nameOf_still (entry : Expr) (c : Cursor) :
    (nameOf entry c).2.kinds = c.kinds ∧ (leaves (nameOf entry c).1).Sublist (leaves entry) := by
  cases entry with
  | ident loc text => exact ⟨rfl, by rw [Expr.leaves_ident]; exact List.Sublist.refl _⟩
  | _ => exact ⟨rfl, List.nil_sublist _⟩

theorem namesOf_still (entries : List Expr) (c : Cursor) :
    (namesOf entries c).2.kinds = c.kinds ∧ (leaves (namesOf entries c).1).Sublist (leaves entries) := by
  induction entries generalizing c with
  | nil => exact ⟨rfl, List.nil_sublist _⟩
  | cons entry entries ih =>
    obtain ⟨hkinds, hleaves⟩ := nameOf_still entry c
    obtain ⟨hkinds', hleaves'⟩ := ih (nameOf entry c).2
    exact ⟨hkinds'.trans hkinds, hleaves.append hleaves'⟩

theorem checkFields_gathers (variadic : Bool) (fields : List Field) : Gathers [] (checkFields variadic fields) := by
  refine .ite ?_ (.pure (List.nil_sublist _))
  induction fields with
  | nil => exact .pure (List.nil_sublist _)
  | cons field fields ih =>
    have hfield : Gathers [] (checkField fields.isEmpty field) := by
      unfold checkField
      split
      · exact reportUnless _ _ _
      · exact .pure (List.nil_sublist _)
    exact hfield.step fun _ => ih

theorem parameterEntries_gathers (hp : p.Gather) (variadic : Bool) : Gathers [] (parameterEntries p variadic) := by
  refine .bind (.loop (fun entries => ?_) #[]) fun _ => .pure (by simp)
  exact (parameterType_gathers hp variadic).bind fun _ => (accept _).step fun _ =>
    .ite ((isAt _).step fun _ => .ite (.pure (by simp)) (.pure (by simp))) (.pure (by simp))

theorem moreGroups_gathers (hp : p.Gather) (variadic : Bool) : Gathers [] (moreGroups p variadic) := by
  have hgroup : Gathers [] (parameterGroup p variadic) :=
    current.step fun _ => names.bind fun _ => (parameterType_gathers hp variadic).bind fun _ => .pure (by simp)
  refine .bind (.loop (fun groups => ?_) #[]) fun _ => .pure (by simp)
  exact (accept _).step fun _ => .ite
    ((isAt _).step fun _ => .ite (.pure (by simp)) (hgroup.bind fun _ => .pure (by simp))) (.pure (by simp))

theorem parameterList_gathers (hp : p.Gather) (variadic : Bool) : Gathers [] (parameterList p variadic) := by
  refine (parameterEntries_gathers hp variadic).bind fun entries => (parameterType?_gathers hp variadic).bind fun t => ?_
  cases t with
  | some t =>
    refine .still (namesOf_still entries) fun list hlist => (moreGroups_gathers hp variadic).bind fun groups => .pure ?_
    simpa using hlist
  | none =>
    refine .pure ?_
    rw [leaves_map_of_eq fun t => by simp [unnamed]]
    simp

theorem parameters_gathers (hp : p.Gather) (variadic : Bool) : Gathers [] (parameters p variadic) := by
  have hfields : Gathers [] (parameterFields p variadic) :=
    (isAt _).step fun _ => .ite (.pure (List.nil_sublist _))
      ((parameterList_gathers hp variadic).bind fun _ => (checkFields_gathers _ _).step fun _ => .pure (by simp))
  exact (expect _).step fun _ => hfields.bind fun _ => (expect _).step fun _ => .pure (by simp)

theorem results_gathers (hp : p.Gather) : Gathers [] (results p) := by
  refine (isAt _).step fun _ => .ite (parameters_gathers hp false) (hp.type?.bind fun t => ?_)
  cases t with
  | some t => exact .pure (by simp [unnamed])
  | none => exact .pure (List.nil_sublist _)

theorem signature_gathers (hp : p.Gather) : Gathers [] (signature p) :=
  (parameters_gathers hp true).bind fun _ => (results_gathers hp).bind fun _ => .pure (by simp)

/-! ## Bodies of structs and interfaces -/

theorem bodyItems_gathers {α : Type} [HasLeaves α] (starts : TokenKind → Bool) {item : Parse α} (missing : String → Fault)
    (hitem : Gathers [] item) : Gathers [] (bodyItems starts item missing) := by
  have hresume : ∀ items : Array α, Gathers (leaves items) (resumeBody items) := fun items =>
    (skipTo _).step fun _ => (accept _).step fun _ => .ite (.pure (by simp)) (.pure (by simp))
  refine (expect _).step fun _ => .bind (.loop (fun items => ?_) #[]) fun _ => (expect _).step fun _ => .pure (by simp)
  refine current.step fun _ => .ite (.pure (by simp)) (.ite ?_ ((reportHere _).step fun _ => hresume items))
  exact hitem.bind fun _ => (orM (isAt _) (accept _)).step fun _ => .ite (.pure (by simp))
    ((reportExpected _).step fun _ => (hresume _).weaken (by simp))

theorem fieldType_gathers (hp : p.Gather) : Gathers [] (fieldType p) :=
  current.step fun _ => .ite
    ((Gathers.peek 1).step fun _ => .ite (typeName_gathers.bind fun _ => .pure (by simp))
      (names.bind fun _ => (type_gathers hp).bind fun _ => .pure (by simp)))
    (consume.step fun _ => typeName_gathers.bind fun _ => .pure (by simp))

theorem structType_gathers (hp : p.Gather) : Gathers [] (structType p) := by
  have hfield : Gathers [] (field p) :=
    current.step fun _ => (fieldType_gathers hp).bind fun (_, _) => stringLiteral?.bind fun _ => .pure (by simp)
  exact consume.step fun _ => (bodyItems_gathers _ _ hfield).bind fun _ => .pure (by simp)

theorem interfaceType_gathers (hp : p.Gather) : Gathers [] (interfaceType p) := by
  have helem : Gathers [] (interfaceElem p) :=
    current.step fun _ => (Gathers.peek 1).step fun _ => .ite
      (name.bind fun _ => (signature_gathers hp).bind fun _ => .pure (by simp))
      (typeName_gathers.bind fun _ => .pure (by simp))
  exact consume.step fun _ => (bodyItems_gathers _ _ helem).bind fun _ => .pure (by simp)

/-! ## All types -/

theorem functionType_gathers (hp : p.Gather) : Gathers [] (functionType p) :=
  consume.step fun _ => (signature_gathers hp).bind fun _ => .pure (by simp)

theorem parenType_gathers (hp : p.Gather) : Gathers [] (parenType p) :=
  consume.step fun _ => (type_gathers hp).bind fun _ => (expect _).step fun _ => .pure (by simp)

theorem pointerType_gathers (hp : p.Gather) : Gathers [] (pointerType p) :=
  consume.step fun _ => (type_gathers hp).bind fun _ => .pure (by simp)

theorem type?_gathers (hp : p.Gather) (inferable : Bool) : Gathers [] (type? p inferable) := by
  have some_ : ∀ {f : Parse Expr}, Gathers [] f → Gathers [] (some <$> f) := fun h => h.map fun _ => by simp
  refine current.step fun here => ?_
  split
  · exact some_ typeName_gathers
  · exact some_ (arrayType_gathers hp inferable)
  · exact some_ (parenType_gathers hp)
  · exact some_ (pointerType_gathers hp)
  · exact some_ (channelType_gathers hp)
  · exact some_ (structType_gathers hp)
  · exact some_ (interfaceType_gathers hp)
  · exact some_ (mapType_gathers hp)
  · exact some_ (channelType_gathers hp)
  · exact some_ (functionType_gathers hp)
  · exact .pure (List.nil_sublist _)

end Grammar

end GoSyntax
