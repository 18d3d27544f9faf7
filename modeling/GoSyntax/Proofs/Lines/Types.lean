import GoSyntax.Grammar.TypeForm
import GoSyntax.Proofs.Lines.Traces

/-!
# Types trace their source

A composed form stands where its first token does, and a name or an unnamed parameter where its only part does. The entries of a parameter
list are read as types and may become names, each where it was read; their group then stands where the first of them does.
-/

namespace GoSyntax

open Traces

/-- All productions trace their source. -/
structure Productions.Trace (p : Productions) : Prop where
  type? : Traces [] p.type?
  expr : ∀ level, Traces [] (p.expr level)
  unary : ∀ level, Traces [] (p.unary level)
  elementValue : ∀ level, Traces [] (p.elementValue level)
  stmt : Traces [] p.stmt

namespace Grammar

variable {p : Productions} {given : List Location}

theorem type_traces (hp : p.Trace) : Traces [] (type p) := by
  refine hp.type?.bind fun t => ?_
  cases t with
  | some t => exact .pure (by simp)
  | none =>
    refine current.bind fun here => (reportHere _).step fun _ => (skipTo _).step fun _ => .pure ?_
    simp

theorem qualified_traces (base : Name) : Traces (places base) (qualified base) := by
  refine (accept _).step fun _ => .ite (name.bind fun field => .pure ?_) (.pure ?_)
  · simpa using (Along.refl [base.loc, field.loc]).stop
  · simp

theorem typeName_traces : Traces [] typeName := name.bind fun base => qualified_traces base

theorem arrayLength_traces (hp : p.Trace) (inferable : Bool) : Traces [] (arrayLength p inferable) := by
  have hgiven : Traces [] (givenLength p inferable) := by
    refine (andM (.pure (by simp)) (accept _)).step fun _ => .ite (.pure (by simp)) ?_
    exact (hp.expr 0).bind fun _ => .pure (by simp)
  refine (accept _).step fun _ => .ite (.pure (by simp)) ?_
  exact hgiven.bind fun _ => (expect _).among.step fun _ => .pure (by simp)

theorem arrayType_traces (hp : p.Trace) (inferable : Bool) : Traces [] (arrayType p inferable) := by
  refine consume.bind fun here => (arrayLength_traces hp inferable).bind fun _ => (type_traces hp).bind fun _ => ?_
  exact .pure (by simp)

theorem mapType_traces (hp : p.Trace) : Traces [] (mapType p) := by
  refine consume.bind fun here => (expect _).among.step fun _ => (type_traces hp).bind fun _ => ?_
  exact (expect _).among.step fun _ => (type_traces hp).bind fun _ => .pure (by simp)

theorem channelDirection_traces : Traces given channelDirection := by
  refine (accept _).step fun _ => .ite ?_ ?_
  · exact (accept _).step fun _ => .ite (.pure (by simp)) (.pure (by simp))
  · exact (expect _).among.step fun _ => (expect _).among.step fun _ => .pure (by simp)

theorem channelType_traces (hp : p.Trace) : Traces [] (channelType p) := by
  refine current.bind fun here => channelDirection_traces.step fun _ => ?_
  exact (type_traces hp).bind fun _ => .pure (by simp)

/-! ## Parameters and signatures -/

theorem parameterType?_traces (hp : p.Trace) (variadic : Bool) : Traces [] (parameterType? p variadic) := by
  have hvariadic : Traces [] (variadicType p variadic) := by
    refine consume.bind fun here => (reportUnless _ _ (by simp)).step fun _ => ?_
    exact (type_traces hp).bind fun _ => .pure (by simp)
  exact (isAt _).step fun _ => .ite (hvariadic.map fun _ => by simp) hp.type?

theorem parameterType_traces (hp : p.Trace) (variadic : Bool) : Traces [] (parameterType p variadic) := by
  refine (parameterType?_traces hp variadic).bind fun t => ?_
  cases t with
  | some t => exact .pure (by simp)
  | none => exact type_traces hp

/-- An entry becomes a name where it stands, and if it is none it is reported there. -/
theorem nameOf_knowing (entry : Expr) (c : Cursor) : (nameOf entry c).2.feed = c.feed
    ∧ (∀ d ∈ (nameOf entry c).2.log.toList, d ∈ c.log.toList ∨ d.loc ∈ places entry) ∧ (nameOf entry c).1.loc = entry.loc := by
  have hreport : ∀ fault : Fault, ∀ d ∈ (c.log.push ⟨fault, entry.loc⟩).toList, d ∈ c.log.toList ∨ d.loc ∈ places entry := by
    intro fault d hd
    rw [Array.toList_push, List.mem_append, List.mem_singleton] at hd
    rcases hd with hd | rfl
    · exact .inl hd
    · exact .inr entry.loc_mem_places
  cases entry with
  | ident loc text => exact ⟨rfl, fun d hd => .inl hd, rfl⟩
  | _ => exact ⟨rfl, hreport _, rfl⟩

/-- The names that entries become stand where the entries do. -/
theorem namesOf_knowing (entries : List Expr) (c : Cursor) : (namesOf entries c).2.feed = c.feed
    ∧ (∀ d ∈ (namesOf entries c).2.log.toList, d ∈ c.log.toList ∨ d.loc ∈ places entries)
    ∧ Along (places (namesOf entries c).1) (places entries) := by
  induction entries generalizing c with
  | nil => exact ⟨rfl, fun d hd => .inl hd, .refl _⟩
  | cons entry entries ih =>
    obtain ⟨hfeed, hlog, hloc⟩ := nameOf_knowing entry c
    obtain ⟨hfeed', hlog', hnames⟩ := ih (nameOf entry c).2
    refine ⟨hfeed'.trans hfeed, fun d hd => ?_, ?_⟩
    · rcases hlog' d hd with hd | hd
      · exact (hlog d hd).imp_right fun hd => List.mem_append_left _ hd
      · exact .inr (List.mem_append_right _ hd)
    · have hfirst : Along [(nameOf entry c).1.loc] (places entry) := by simp [hloc]
      exact hfirst.append hnames

theorem checkFields_traces (variadic : Bool) (fields : List Field) : Traces (places fields) (checkFields variadic fields) := by
  refine .ite ?_ (.pure (by simp))
  induction fields with
  | nil => exact .pure (by simp)
  | cons field fields ih =>
    have hfield : Traces (places field ++ places fields) (checkField fields.isEmpty field) := by
      obtain ⟨loc, names, t, tag⟩ := field
      unfold checkField
      split
      · next loc' elem ht =>
        obtain rfl : t = .variadicType loc' elem := ht
        exact reportUnless _ _ (by simp)
      · exact .pure (by simp)
    exact hfield.step fun _ => ih.weaken ((Along.refl _).behind _)

theorem parameterEntries_traces (hp : p.Trace) (variadic : Bool) : Traces [] (parameterEntries p variadic) := by
  refine .bind (.loop (fun entries => ?_) #[]) fun _ => .pure (by simp)
  refine (parameterType_traces hp variadic).bind fun _ => (accept _).step fun _ => .ite ?_ (.pure (by simp))
  exact (isAt _).step fun _ => .ite (.pure (by simp)) (.pure (by simp))

theorem moreGroups_traces (hp : p.Trace) (variadic : Bool) : Traces [] (moreGroups p variadic) := by
  have hgroup : Traces [] (parameterGroup p variadic) := by
    refine current.bind fun here => names.bind fun _ => (parameterType_traces hp variadic).bind fun _ => ?_
    exact .pure (by simp)
  refine .bind (.loop (fun groups => ?_) #[]) fun _ => .pure (by simp)
  refine (accept _).step fun _ => .ite ((isAt _).step fun _ => .ite (.pure (by simp)) ?_) (.pure (by simp))
  exact hgroup.bind fun _ => .pure (by simp)

/-- A group of names stands where the first of them does. -/
theorem along_named {list : List Name} {entries : List Expr} (h : Along (places list) (places entries)) (t : Expr) :
    Along (places (Field.mk ((list.head?.map Name.loc).getD t.loc) list t none)) (places entries ++ places t) := by
  have hlist : Along (places list ++ places t) (places entries ++ places t) := h.appendRight _
  refine Along.trans ?_ hlist
  cases list with
  | nil => simp
  | cons n ns => simpa using (Along.refl _).stop

theorem parameterList_traces (hp : p.Trace) (variadic : Bool) : Traces [] (parameterList p variadic) := by
  refine (parameterEntries_traces hp variadic).bind fun entries => (parameterType?_traces hp variadic).bind fun t => ?_
  cases t with
  | some t =>
    refine .knowing (P := fun list => Along (places list) (places entries)) (fun c => ?_) fun list hlist => ?_
    · obtain ⟨hfeed, hlog, hnames⟩ := namesOf_knowing entries c
      exact ⟨hfeed, fun d hd => (hlog d hd).imp_right fun hd => by simp [hd], hnames⟩
    · refine (moreGroups_traces hp variadic).bind fun groups => .pure ?_
      simpa using (along_named hlist t).appendRight (places groups)
  | none =>
    refine .pure ?_
    simpa using along_map (r := unnamed) (fun t => by simp [unnamed]) entries

theorem parameters_traces (hp : p.Trace) (variadic : Bool) : Traces [] (parameters p variadic) := by
  have hfields : Traces [] (parameterFields p variadic) := by
    refine (isAt _).step fun _ => .ite (.pure (by simp)) ?_
    exact (parameterList_traces hp variadic).bind fun fields => (checkFields_traces _ fields).step fun _ => .pure (by simp)
  exact (expect _).step fun _ => hfields.bind fun _ => (expect _).among.step fun _ => .pure (by simp)

theorem results_traces (hp : p.Trace) : Traces [] (results p) := by
  refine (isAt _).step fun _ => .ite (parameters_traces hp false) (hp.type?.bind fun t => ?_)
  cases t with
  | some t => exact .pure (by simp [unnamed])
  | none => exact .pure (by simp)

theorem signature_traces (hp : p.Trace) : Traces [] (signature p) :=
  (parameters_traces hp true).bind fun _ => (results_traces hp).bind fun _ => .pure (by simp)

/-! ## Bodies of structs and interfaces -/

theorem bodyItems_traces {α : Type} [HasPlaces α] (starts : TokenKind → Bool) {item : Parse α} (missing : String → Fault)
    (hitem : Traces [] item) : Traces [] (bodyItems starts item missing) := by
  have hresume : ∀ items : Array α, Traces (places items) (resumeBody items) := by
    intro items
    exact (skipTo _).step fun _ => (accept _).step fun _ => .ite (.pure (by simp)) (.pure (by simp))
  refine (expect _).step fun _ => .bind (.loop (fun items => ?_) #[]) fun _ => (expect _).among.step fun _ => .pure (by simp)
  refine current.among.step fun _ => .ite (.pure (by simp)) (.ite ?_ ((reportHere _).step fun _ => hresume items))
  refine hitem.bind fun _ => (orM (isAt _) (accept _)).step fun _ => .ite (.pure (by simp)) ?_
  exact (reportExpected _).step fun _ => (hresume _).weaken (by simp)

theorem fieldType_traces (hp : p.Trace) : Traces [] (fieldType p) := by
  refine current.step fun _ => .ite (ahead 1 fun _ => .ite ?_ ?_) ?_
  · exact typeName_traces.bind fun _ => .pure (by simp)
  · exact names.bind fun _ => (type_traces hp).bind fun _ => .pure (by simp)
  · exact consume.bind fun here => typeName_traces.bind fun _ => .pure (by simp)

theorem structType_traces (hp : p.Trace) : Traces [] (structType p) := by
  have hfield : Traces [] (field p) := by
    refine current.bind fun here => (fieldType_traces hp).bind fun (_, _) => stringLiteral?.bind fun _ => ?_
    exact .pure (by simp)
  exact consume.bind fun here => (bodyItems_traces _ _ hfield).bind fun _ => .pure (by simp)

theorem interfaceType_traces (hp : p.Trace) : Traces [] (interfaceType p) := by
  have helem : Traces [] (interfaceElem p) := by
    refine current.bind fun here => ahead 1 fun _ => .ite ?_ ?_
    · exact name.bind fun _ => (signature_traces hp).bind fun _ => .pure (by simp)
    · exact typeName_traces.bind fun _ => .pure (by simp)
  exact consume.bind fun here => (bodyItems_traces _ _ helem).bind fun _ => .pure (by simp)

/-! ## All types -/

theorem functionType_traces (hp : p.Trace) : Traces [] (functionType p) :=
  consume.bind fun here => (signature_traces hp).bind fun _ => .pure (by simp)

theorem parenType_traces (hp : p.Trace) : Traces [] (parenType p) :=
  consume.bind fun here => (type_traces hp).bind fun _ => (expect _).among.step fun _ => .pure (by simp)

theorem pointerType_traces (hp : p.Trace) : Traces [] (pointerType p) :=
  consume.bind fun here => (type_traces hp).bind fun _ => .pure (by simp)

theorem type?_traces (hp : p.Trace) (inferable : Bool) : Traces [] (type? p inferable) := by
  have some_ : ∀ {f : Parse Expr}, Traces [] f → Traces [] (some <$> f) := fun h => h.map fun _ => by simp
  refine current.step fun here => ?_
  split
  · exact some_ typeName_traces
  · exact some_ (arrayType_traces hp inferable)
  · exact some_ (parenType_traces hp)
  · exact some_ (pointerType_traces hp)
  · exact some_ (channelType_traces hp)
  · exact some_ (structType_traces hp)
  · exact some_ (interfaceType_traces hp)
  · exact some_ (mapType_traces hp)
  · exact some_ (channelType_traces hp)
  · exact some_ (functionType_traces hp)
  · exact .pure (by simp)

end Grammar

end GoSyntax
