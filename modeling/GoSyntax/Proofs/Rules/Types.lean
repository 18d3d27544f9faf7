import GoSyntax.Grammar.TypeForm
import GoSyntax.Proofs.Rules.Assures
import GoSyntax.Proofs.Rules.Parts

/-!
# Types keep the rules

An entry of a parameter list may be variadic when it is read, and only the list as a whole shows whether it may stay so: it must be the
last, with at most one name. An entry that turns out to be a name is not variadic, or it is reported.
-/

namespace GoSyntax

open Assures

/-- What all productions assure. An `if` is read where its keyword comes next. -/
structure Productions.Assured (p : Productions) : Prop where
  type? : Assures (fun t => ∀ e ∈ t, e.Sound .plain) p.type?
  expr : ∀ level, Assures (Expr.Sound .plain) (p.expr level)
  unary : ∀ level, Assures (Expr.Sound .plain) (p.unary level)
  elementValue : ∀ level, Assures (Expr.Sound .keyOrValue) (p.elementValue level)
  stmt : Assures (fun s => KeepRules s.nodes) p.stmt
  ifStmt : ∀ c : Cursor, c.here.kind = Keyword.if → (p.stmt c).2.log = #[] → (p.stmt c).1.IsElse

@[simp] theorem Expr.sound_bad {role : Role} {loc : Location} : (bad loc).Sound role := by
  refine Iff.mpr (sound_iff True trivial rfl ?_) ?_
  · simp [parts]
  · simp [parts, Node.fieldLists, Coheres]

namespace Grammar

variable {p : Productions}

theorem type_assures (hp : p.Assured) : Assures (Expr.Sound .plain) (type p) := by
  refine hp.type?.bind fun t => ?_
  cases t with
  | some t =>
    refine .pure ?_
    intro ht
    exact ht t rfl
  | none =>
    refine current.step fun _ => (reportHere _).step fun _ => (skipTo _).step fun _ => .pure ?_
    intro _
    exact Expr.sound_bad

theorem qualified_assures (base : Name) : Assures (Expr.Sound .plain) (qualified base) :=
  (accept _).step fun _ => .ite (name.step fun _ => .pure (by simp)) (.pure Expr.sound_ident)

theorem typeName_assures : Assures (Expr.Sound .plain) typeName := name.step fun base => qualified_assures base

theorem arrayLength_assures (hp : p.Assured) (inferable : Bool) :
    Assures (fun l => ∀ e ∈ l.expr?, e.Sound .plain) (arrayLength p inferable) := by
  have hgiven : Assures (fun l => ∀ e ∈ l.expr?, e.Sound .plain) (givenLength p inferable) := by
    refine (andM (.pure trivial) (accept _)).step fun _ => .ite (.pure ?_) ((hp.expr 0).bind fun length => .pure ?_)
    · simp [ArrayLength.expr?]
    · intro hlength
      simpa [ArrayLength.expr?] using hlength
  refine (accept _).step fun _ => .ite (.pure ?_) (hgiven.bind fun length => (expect _).step fun _ => .pure id)
  simp [ArrayLength.expr?]

theorem arrayType_assures (hp : p.Assured) (inferable : Bool) : Assures (Expr.Sound .plain) (arrayType p inferable) := by
  refine consume.step fun _ => (arrayLength_assures hp inferable).bind fun length => (type_assures hp).bind fun elem => .pure ?_
  intro helem hlength
  exact Expr.sound_arrayType.2 ⟨hlength, helem⟩

theorem mapType_assures (hp : p.Assured) : Assures (Expr.Sound .plain) (mapType p) := by
  refine consume.step fun _ => (expect _).step fun _ => (type_assures hp).bind fun key => (expect _).step fun _ => ?_
  refine (type_assures hp).bind fun value => .pure ?_
  intro hvalue hkey
  exact Expr.sound_mapType.2 ⟨hkey, hvalue⟩

theorem channelDirection_assures : Assures (fun _ => True) channelDirection :=
  (accept _).step fun _ => .ite ((accept _).step fun _ => .ite (.pure trivial) (.pure trivial))
    ((expect _).step fun _ => (expect _).step fun _ => .pure trivial)

theorem channelType_assures (hp : p.Assured) : Assures (Expr.Sound .plain) (channelType p) := by
  refine current.step fun _ => channelDirection_assures.step fun _ => (type_assures hp).bind fun elem => .pure ?_
  intro helem
  exact Expr.sound_channelType.2 helem

/-! ## Parameters and signatures -/

/-- The role of an entry before its list has been read: the best one it may get. -/
def entryRole (variadic : Bool) : Role := if variadic then .parameter true 0 else .plain

theorem parameterType?_assures (hp : p.Assured) (variadic : Bool) :
    Assures (fun t => ∀ e ∈ t, e.Sound (entryRole variadic)) (parameterType? p variadic) := by
  refine (isAt _).step fun _ => .ite ?_ (hp.type?.weaken fun t ht e he => (ht e he).of_plain)
  refine Assures.map (P := Expr.Sound (entryRole variadic)) ?_ (by simp)
  refine consume.step fun _ => (reportUnless variadic _ _).bind fun _ => (type_assures hp).bind fun elem => .pure ?_
  rintro helem rfl
  exact (Expr.sound_variadicType (Nat.zero_le 1)).2 helem

theorem parameterType_assures (hp : p.Assured) (variadic : Bool) :
    Assures (Expr.Sound (entryRole variadic)) (parameterType p variadic) := by
  refine (parameterType?_assures hp variadic).bind fun t => ?_
  cases t with
  | some t =>
    refine .pure ?_
    intro ht
    exact ht t rfl
  | none => exact (type_assures hp).weaken fun e he _ => he.of_plain

theorem nameOf_assures (entry : Expr) : Assures (fun _ => True) (nameOf entry) := by
  unfold nameOf
  split
  · exact .pure trivial
  · exact (report _ _).step fun _ => .pure trivial

/-- There are as many names as entries. -/
theorem namesOf_assures (entries : List Expr) : Assures (fun names => entries ≠ [] → names ≠ []) (namesOf entries) := by
  have hnames : ∀ entries, Assures (fun _ => True) (namesOf entries) := by
    intro entries
    induction entries with
    | nil => exact .pure trivial
    | cons entry entries ih => exact (nameOf_assures entry).step fun _ => ih.step fun _ => .pure trivial
  cases entries with
  | nil => exact .pure fun h => absurd rfl h
  | cons entry entries => exact (nameOf_assures entry).step fun _ => (hnames entries).step fun _ => .pure fun _ => List.cons_ne_nil _ _

/-- A field whose type is sound for the last parameter without a name is sound where it stands, or it is reported. -/
theorem checkField_assures (isLast : Bool) (f : Field) : Assures
    (fun _ => f.type.Sound (.parameter true 0) → f.type.Sound (.parameter isLast f.names.length)) (checkField isLast f) := by
  unfold checkField
  split
  · next loc elem htype =>
    refine (reportUnless _ _ _).weaken fun _ hok htypeSound => ?_
    simp only [Bool.and_eq_true, decide_eq_true_eq] at hok
    rw [htype] at htypeSound ⊢
    obtain ⟨rfl, hnames⟩ := hok
    exact (Expr.sound_variadicType hnames).2 ((Expr.sound_variadicType (Nat.zero_le 1)).1 htypeSound)
  · next hother =>
    refine .pure ?_
    rintro ⟨hkeep, hsuits⟩
    refine ⟨hkeep, ?_⟩
    -- what is not variadic suits the place of one parameter if it suits that of another
    unfold Expr.Suits at hsuits ⊢
    split
    · next htype => simp [htype] at hsuits
    · next htype => simp [htype] at hsuits
    · next loc elem htype => exact absurd htype (hother loc elem)
    · trivial

theorem checkVariadic_assures (fields : List Field) : Assures
    (fun _ => (∀ f ∈ fields, f.type.Sound (.parameter true 0)) → Each Expr.Sound (parameterParts fields))
    (checkVariadic fields) := by
  induction fields with
  | nil => exact .pure fun _ => each_nil
  | cons f fields ih =>
    refine (checkField_assures fields.isEmpty f).bind fun _ => ih.weaken ?_
    intro _ hrest hfirst htypes
    exact (each_cons _ _ _).2 ⟨hfirst (htypes f List.mem_cons_self), hrest fun g hg => htypes g (List.mem_cons_of_mem f hg)⟩

/-- The types of the fields of a list in their roles. -/
def listParts (variadic : Bool) (fields : List Field) : List (Role × Expr) :=
  if variadic then parameterParts fields else fieldParts fields

theorem checkFields_assures (variadic : Bool) (fields : List Field) : Assures
    (fun _ => (∀ f ∈ fields, f.type.Sound (entryRole variadic)) → Each Expr.Sound (listParts variadic fields))
    (checkFields variadic fields) := by
  cases variadic with
  | false =>
    refine .pure ?_
    intro htypes
    exact (each_fieldParts fields).2 htypes
  | true => exact checkVariadic_assures fields

theorem parameterEntries_assures (hp : p.Assured) (variadic : Bool) :
    Assures (fun entries => entries ≠ [] ∧ ∀ e ∈ entries, e.Sound (entryRole variadic)) (parameterEntries p variadic) := by
  have hpass : ∀ entries : Array Expr, Assures (fun s => (∀ e ∈ entries, e.Sound (entryRole variadic)) →
      s.value ≠ #[] ∧ ∀ e ∈ s.value, e.Sound (entryRole variadic)) (entryPass p variadic entries) := by
    intro entries
    refine (parameterType_assures hp variadic).bind fun e => ?_
    have hpush : e.Sound (entryRole variadic) → (∀ e ∈ entries, e.Sound (entryRole variadic)) →
        entries.push e ≠ #[] ∧ ∀ e' ∈ entries.push e, e'.Sound (entryRole variadic) := by
      intro he hentries
      exact ⟨Array.push_ne_empty, Array.forall_mem_push.2 ⟨he, hentries⟩⟩
    exact (accept _).step fun _ => .ite ((isAt _).step fun _ => .ite (.pure hpush) (.pure hpush)) (.pure hpush)
  refine (loop (I := fun entries => ∀ e ∈ entries, e.Sound (entryRole variadic))
    (J := fun entries => entries ≠ #[] ∧ ∀ e ∈ entries, e.Sound (entryRole variadic)) (fun _ h => h.2) hpass #[]).bind
    fun entries => .pure ?_
  intro hloop
  simpa using hloop

/-- The names and the types of a list that has names. -/
def Named (variadic : Bool) (f : Field) : Prop := f.names ≠ [] ∧ f.type.Sound (entryRole variadic)

theorem parameterGroup_assures (hp : p.Assured) (variadic : Bool) : Assures (Named variadic) (parameterGroup p variadic) := by
  refine current.step fun _ => names.bind fun list => (parameterType_assures hp variadic).bind fun t => .pure ?_
  intro ht hlist
  exact ⟨hlist, ht⟩

theorem moreGroups_assures (hp : p.Assured) (variadic : Bool) :
    Assures (fun fields => ∀ f ∈ fields, Named variadic f) (moreGroups p variadic) := by
  have hpass : ∀ groups : Array Field, Assures (Collecting (Named variadic) groups) (groupPass p variadic groups) := by
    intro groups
    refine (accept _).step fun _ => .ite ((isAt _).step fun _ => .ite (.pure id) ?_) (.pure id)
    exact (parameterGroup_assures hp variadic).bind fun f => .pure (collecting_push rfl)
  exact (collect hpass).bind fun groups => .pure id

/-- The fields of a list are all named or all unnamed, and the only fault of their types may be where they stand. -/
theorem parameterList_assures (hp : p.Assured) (variadic : Bool) :
    Assures (fun fields => namedAlike fields ∧ ∀ f ∈ fields, f.type.Sound (entryRole variadic)) (parameterList p variadic) := by
  refine (parameterEntries_assures hp variadic).bind fun entries => (parameterType?_assures hp variadic).bind fun t => ?_
  cases t with
  | some t =>
    refine (namesOf_assures entries).bind fun list => (moreGroups_assures hp variadic).bind fun groups => .pure ?_
    intro hgroups hlist ht hentries
    have hnamed : ∀ f ∈ (⟨(list.head?.map Name.loc).getD t.loc, list, t, none⟩ : Field) :: groups, Named variadic f := by
      intro f hf
      rcases List.mem_cons.1 hf with rfl | hf
      · exact ⟨hlist hentries.1, ht t rfl⟩
      · exact hgroups f hf
    exact ⟨.inr fun f hf => (hnamed f hf).1, fun f hf => (hnamed f hf).2⟩
  | none =>
    refine .pure ?_
    intro _ hentries
    refine ⟨.inl ?_, ?_⟩
    · simp [unnamed]
    · simpa [unnamed] using hentries.2

theorem parameters_assures (hp : p.Assured) (variadic : Bool) :
    Assures (fun fields => namedAlike fields ∧ Each Expr.Sound (listParts variadic fields)) (parameters p variadic) := by
  have hfields : Assures (fun fields => namedAlike fields ∧ Each Expr.Sound (listParts variadic fields))
      (parameterFields p variadic) := by
    refine (isAt _).step fun _ => .ite (.pure ⟨.inl ?_, ?_⟩) ?_
    · simp
    · cases variadic <;> exact each_nil
    · refine (parameterList_assures hp variadic).bind fun fields => (checkFields_assures variadic fields).bind fun _ => .pure ?_
      rintro hcheck ⟨halike, htypes⟩
      exact ⟨halike, hcheck htypes⟩
  exact (expect _).step fun _ => hfields.bind fun fields => (expect _).step fun _ => .pure id

theorem results_assures (hp : p.Assured) :
    Assures (fun fields => namedAlike fields ∧ Each Expr.Sound (fieldParts fields)) (results p) := by
  refine (isAt _).step fun _ => .ite (parameters_assures hp false) (hp.type?.bind fun t => ?_)
  cases t with
  | some t =>
    refine .pure ?_
    intro ht
    exact ⟨.inl (by simp [unnamed]), by simpa [unnamed] using ht⟩
  | none => exact .pure fun _ => ⟨.inl (by simp), by simp⟩

theorem signature_assures (hp : p.Assured) : Assures Signature.Sound (signature p) := by
  refine (parameters_assures hp true).bind fun params => (results_assures hp).bind fun results => .pure ?_
  rintro ⟨hresults, hresultTypes⟩ ⟨hparams, hparamTypes⟩
  exact ⟨(each_append _ _).2 ⟨hparamTypes, hresultTypes⟩, hparams, hresults⟩

/-! ## Bodies of structs and interfaces -/

theorem bodyItems_assures {α : Type} {P : α → Prop} (starts : TokenKind → Bool) {item : Parse α} (missing : String → Fault)
    (hitem : Assures P item) : Assures (fun items => ∀ a ∈ items, P a) (bodyItems starts item missing) := by
  have hresume : ∀ items : Array α, Assures (Collecting P items) (resumeBody items) := fun items =>
    (skipTo _).step fun _ => (accept _).step fun _ => .ite (.pure id) (.pure id)
  have hpass : ∀ items : Array α, Assures (Collecting P items) (itemPass starts item missing items) := by
    intro items
    refine current.step fun here => .ite (.pure id) (.ite ?_ ((reportHere _).step fun _ => hresume items))
    refine hitem.bind fun a => (orM (isAt _) (accept _)).step fun _ => .ite (.pure (collecting_push rfl)) ?_
    refine (reportExpected _).step fun _ => (hresume (items.push a)).weaken fun s hs ha hitems => ?_
    exact hs (Array.forall_mem_push.2 ⟨ha, hitems⟩)
  exact (expect _).step fun _ => (collect hpass).bind fun items => (expect _).step fun _ => .pure id

theorem fieldType_assures (hp : p.Assured) : Assures (fun nt => nt.2.Sound .plain) (fieldType p) := by
  refine current.step fun here => .ite ((peek 1).step fun next => .ite ?_ ?_) ?_
  · exact typeName_assures.bind fun t => .pure id
  · exact names.step fun list => (type_assures hp).bind fun t => .pure id
  · refine consume.step fun star => typeName_assures.bind fun t => .pure ?_
    intro ht
    exact Expr.sound_star.2 ht

theorem structType_assures (hp : p.Assured) : Assures (Expr.Sound .plain) (structType p) := by
  have hfield : Assures (fun f : Field => f.type.Sound .plain) (field p) :=
    current.step fun _ => (fieldType_assures hp).bind fun (_, _) => stringLiteral?.step fun _ => .pure id
  refine consume.step fun _ => (bodyItems_assures _ _ hfield).bind fun fields => .pure ?_
  intro hfields
  exact Expr.sound_structType.2 hfields

theorem interfaceElem_assures (hp : p.Assured) : Assures (fun e => KeepRules e.nodes) (interfaceElem p) := by
  refine current.step fun here => (peek 1).step fun next => .ite ?_ ?_
  · refine name.step fun method => (signature_assures hp).bind fun sig => .pure ?_
    intro hsig
    exact InterfaceElem.keepRules_method.2 hsig
  · refine typeName_assures.bind fun t => .pure ?_
    intro ht
    exact InterfaceElem.keepRules_embedded.2 ht

theorem interfaceType_assures (hp : p.Assured) : Assures (Expr.Sound .plain) (interfaceType p) := by
  refine consume.step fun _ => (bodyItems_assures _ _ (interfaceElem_assures hp)).bind fun elems => .pure ?_
  intro helems
  exact Expr.sound_interfaceType.2 helems

/-! ## All types -/

theorem functionType_assures (hp : p.Assured) : Assures (Expr.Sound .plain) (functionType p) := by
  refine consume.step fun _ => (signature_assures hp).bind fun sig => .pure ?_
  intro hsig
  exact Expr.sound_functionType.2 hsig

theorem parenType_assures (hp : p.Assured) : Assures (Expr.Sound .plain) (parenType p) := by
  refine consume.step fun _ => (type_assures hp).bind fun inner => (expect _).step fun _ => .pure ?_
  intro hinner
  exact Expr.sound_paren.2 hinner

theorem pointerType_assures (hp : p.Assured) : Assures (Expr.Sound .plain) (pointerType p) := by
  refine consume.step fun _ => (type_assures hp).bind fun elem => .pure ?_
  intro helem
  exact Expr.sound_star.2 helem

theorem type?_assures (hp : p.Assured) (inferable : Bool) : Assures (fun t => ∀ e ∈ t, e.Sound .plain) (type? p inferable) := by
  have some_ : ∀ {f : Parse Expr}, Assures (Expr.Sound .plain) f → Assures (fun t => ∀ e ∈ t, e.Sound .plain) (some <$> f) :=
    fun hf => hf.map fun t ht e he => by
      obtain rfl := Option.some.inj he
      exact ht
  refine current.step fun here => ?_
  split
  · exact some_ typeName_assures
  · exact some_ (arrayType_assures hp inferable)
  · exact some_ (parenType_assures hp)
  · exact some_ (pointerType_assures hp)
  · exact some_ (channelType_assures hp)
  · exact some_ (structType_assures hp)
  · exact some_ (interfaceType_assures hp)
  · exact some_ (mapType_assures hp)
  · exact some_ (channelType_assures hp)
  · exact some_ (functionType_assures hp)
  · refine .pure ?_
    intro e he
    nomatch he

end Grammar

end GoSyntax
