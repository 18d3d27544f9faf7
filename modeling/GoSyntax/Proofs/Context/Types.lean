import GoSyntax.Proofs.Context.Pursuit

/-!
# Types are pursued

If the productions that a type is read with are pursued, so is the type. The entries of a parameter list are turned into names in both runs
alike, because this depends on what the entries are and not on where they stand.
-/

namespace GoSyntax

open FollowsAt Grammar

/-- The loops over the productions are paced. -/
structure Productions.LoopsPaced (B : Pursuit) (p : Productions) : Prop where
  types : Paced B (Parse.separatedPass (type p))
  exprs : ∀ level, Paced B (Parse.separatedPass (Grammar.expr p level))
  operands : ∀ level (families : List Operator.Family) family,
    Paced B (binaryPass family (families.foldr binaryLevel (Grammar.unary p level)))
  suffixes : ∀ level, Paced B (suffix p level)
  arguments : ∀ level, Paced B (Parse.memberPass Punctuation.rParen (argument p level))
  elements : ∀ level, Paced B (Parse.memberPass Punctuation.rBrace (element p level))
  entries : ∀ variadic, Paced B (entryPass p variadic)
  parameters : ∀ variadic, Paced B (groupPass p variadic)
  fields : Paced B (itemPass startsField (field p) .expectedField)
  methods : Paced B (itemPass TokenKind.isIdent (interfaceElem p) .expectedMethodSpec)
  statements : Paced B (statementPass p)
  cases : ∀ ofTypes, Paced B (clausePass (caseClause p ofTypes))
  comms : Paced B (clausePass (commClause p))
  specs : ∀ keyword, Paced B (specPass p keyword)

/-- The second productions follow the first ones, whose loops are paced. -/
structure Productions.Pursued (B : Pursuit) (p q : Productions) : Prop where
  type? : Follows B p.type? q.type?
  expr : ∀ level, Follows B (p.expr level) (q.expr level)
  unary : ∀ level, Follows B (p.unary level) (q.unary level)
  elementValue : ∀ level, Follows B (p.elementValue level) (q.elementValue level)
  stmt : Follows B p.stmt q.stmt
  paced : p.LoopsPaced B

namespace Grammar

variable {B : Pursuit} {p q : Productions}

theorem type_follows (h : p.Pursued B q) : Follows B (type p) (type q) := by
  refine h.type?.bind fun t => ?_
  cases t with
  | some t => exact .pure rfl
  | none => exact current.bind fun _ => (reportHere _).bind fun _ => (skipTo _).bind fun _ => .pure rfl

theorem qualified_follows (base : Name) : Follows B (qualified base) (qualified (moved B.shift base)) :=
  (accept _).bind fun _ => .ite (name.bind fun _ => .pure rfl) (.pure rfl)

theorem typeName_follows : Follows B typeName typeName := name.bind fun base => qualified_follows base

theorem arrayLength_follows (h : p.Pursued B q) (inferable : Bool) : Follows B (arrayLength p inferable) (arrayLength q inferable) := by
  have hgiven : Follows B (givenLength p inferable) (givenLength q inferable) :=
    (andM (.pure rfl) (accept _)).bind fun _ => .ite (.pure rfl) ((h.expr 0).bind fun _ => .pure rfl)
  exact (accept _).bind fun _ => .ite (.pure rfl) (hgiven.bind fun _ => (expect _).bind fun _ => .pure rfl)

theorem arrayType_follows (h : p.Pursued B q) (inferable : Bool) : Follows B (arrayType p inferable) (arrayType q inferable) :=
  consume.bind fun _ => (arrayLength_follows h inferable).bind fun _ => (type_follows h).bind fun _ => .pure rfl

theorem mapType_follows (h : p.Pursued B q) : Follows B (mapType p) (mapType q) :=
  consume.bind fun _ => (expect _).bind fun _ => (type_follows h).bind fun _ => (expect _).bind fun _ =>
    (type_follows h).bind fun _ => .pure rfl

theorem channelDirection_follows : Follows B channelDirection channelDirection :=
  (accept _).bind fun _ => .ite
    ((accept _).bind fun _ => .ite (.pure rfl) (.pure rfl))
    ((expect _).bind fun _ => (expect _).bind fun _ => .pure rfl)

theorem channelType_follows (h : p.Pursued B q) : Follows B (channelType p) (channelType q) :=
  current.bind fun _ => channelDirection_follows.bind fun _ => (type_follows h).bind fun _ => .pure rfl

/-! ## Parameters and signatures -/

theorem parameterType?_follows (h : p.Pursued B q) (variadic : Bool) :
    Follows B (parameterType? p variadic) (parameterType? q variadic) := by
  have hvariadic : Follows B (variadicType p variadic) (variadicType q variadic) :=
    consume.bind fun _ => (reportUnless _ _ _).bind fun _ => (type_follows h).bind fun _ => .pure rfl
  exact (isAt _).bind fun _ => .ite (hvariadic.map fun _ => rfl) h.type?

theorem parameterType_follows (h : p.Pursued B q) (variadic : Bool) :
    Follows B (parameterType p variadic) (parameterType q variadic) := by
  refine (parameterType?_follows h variadic).bind fun t => ?_
  cases t with
  | some t => exact .pure rfl
  | none => exact type_follows h

theorem nameOf_follows (entry : Expr) : Follows B (nameOf entry) (nameOf (moved B.shift entry)) := by
  have hother : Follows B (do Parse.report (.expectedIdentifier (describe entry)) entry.loc; return ⟨entry.loc, "_"⟩)
      (do
        Parse.report (.expectedIdentifier (describe (moved B.shift entry))) (moved B.shift entry).loc
        return (⟨(moved B.shift entry).loc, "_"⟩ : Name)) := by
    rw [describe_moved, Expr.loc_moved]
    exact (report _ _).bind fun _ => .pure rfl
  cases entry with
  | ident loc text => exact .pure rfl
  | _ => exact hother

theorem namesOf_follows (entries : List Expr) : Follows B (namesOf entries) (namesOf (moved B.shift entries)) := by
  induction entries with
  | nil => exact .pure rfl
  | cons entry entries ih => exact (nameOf_follows entry).bind fun _ => ih.bind fun _ => .pure rfl

theorem checkField_follows (isLast : Bool) (field : Field) :
    Follows B (checkField isLast field) (checkField isLast (moved B.shift field)) := by
  obtain ⟨loc, list, t, tag⟩ := field
  cases t with
  | variadicType loc elem =>
    change Follows B (Parse.reportUnless (isLast && decide (list.length ≤ 1)) .illegalVariadic loc)
      (Parse.reportUnless (isLast && decide ((moved B.shift list).length ≤ 1)) .illegalVariadic (moved B.shift loc))
    rw [length_moved]
    exact reportUnless _ _ _
  | _ => exact .pure rfl

theorem checkFields_follows (variadic : Bool) (fields : List Field) :
    Follows B (checkFields variadic fields) (checkFields variadic (moved B.shift fields)) := by
  refine .ite ?_ (.pure rfl)
  induction fields with
  | nil => exact .pure rfl
  | cons field fields ih =>
    change Follows B (checkVariadic (field :: fields)) (do
      checkField (moved B.shift fields).isEmpty (moved B.shift field)
      checkVariadic (moved B.shift fields))
    rw [isEmpty_moved]
    exact (checkField_follows _ field).bind fun _ => ih

theorem entryPass_follows (h : p.Pursued B q) (variadic : Bool) (entries : Array Expr) :
    Follows B (entryPass p variadic entries) (entryPass q variadic (moved B.shift entries)) :=
  (parameterType_follows h variadic).bind fun _ => (accept _).bind fun _ => .ite
    ((isAt _).bind fun _ => .ite (.pure (by simp)) (.pure (by simp))) (.pure (by simp))

theorem parameterEntries_follows (h : p.Pursued B q) (variadic : Bool) :
    Follows B (parameterEntries p variadic) (parameterEntries q variadic) :=
  (loop (h.paced.entries variadic) (by simp) (entryPass_follows h variadic)).bind fun _ => .pure (by simp)

theorem groupPass_follows (h : p.Pursued B q) (variadic : Bool) (groups : Array Field) :
    Follows B (groupPass p variadic groups) (groupPass q variadic (moved B.shift groups)) := by
  have hgroup : Follows B (parameterGroup p variadic) (parameterGroup q variadic) :=
    current.bind fun _ => names.bind fun _ => (parameterType_follows h variadic).bind fun _ => .pure rfl
  exact (accept _).bind fun _ => .ite
    ((isAt _).bind fun _ => .ite (.pure rfl) (hgroup.bind fun _ => .pure (by simp))) (.pure rfl)

theorem moreGroups_follows (h : p.Pursued B q) (variadic : Bool) : Follows B (moreGroups p variadic) (moreGroups q variadic) :=
  (loop (h.paced.parameters variadic) (by simp) (groupPass_follows h variadic)).bind fun _ => .pure (by simp)

theorem unnamed_moved (t : Expr) : unnamed (moved B.shift t) = moved B.shift (unnamed t) := by
  rw [unnamed, Expr.loc_moved]
  rfl

theorem namedParameters_follows (h : p.Pursued B q) (variadic : Bool) (entries : List Expr) (t : Expr) :
    Follows B (namedParameters p variadic entries t)
      (namedParameters q variadic (moved B.shift entries) (moved B.shift t)) := by
  refine (namesOf_follows entries).bind fun list => (moreGroups_follows h variadic).bind fun groups => .pure ?_
  have hloc : ((moved B.shift list).head?.map Name.loc).getD (moved B.shift t).loc
      = moved B.shift ((list.head?.map Name.loc).getD t.loc) := by
    cases list with
    | nil => exact Expr.loc_moved B.shift t
    | cons first others => rfl
  rw [hloc]
  rfl

theorem parameters_follows (h : p.Pursued B q) (variadic : Bool) : Follows B (parameters p variadic) (parameters q variadic) := by
  have hlist : Follows B (parameterList p variadic) (parameterList q variadic) := by
    refine (parameterEntries_follows h variadic).bind fun entries => (parameterType?_follows h variadic).bind fun t => ?_
    cases t with
    | some t => exact namedParameters_follows h variadic entries t
    | none => exact .pure (moved_map B.shift unnamed_moved entries)
  have hfields : Follows B (parameterFields p variadic) (parameterFields q variadic) :=
    (isAt _).bind fun _ => .ite (.pure rfl) (hlist.bind fun fields => (checkFields_follows variadic fields).bind fun _ => .pure rfl)
  exact (expect _).bind fun _ => hfields.bind fun _ => (expect _).bind fun _ => .pure rfl

theorem results_follows (h : p.Pursued B q) : Follows B (results p) (results q) := by
  refine (isAt _).bind fun _ => .ite (parameters_follows h false) (h.type?.bind fun t => ?_)
  cases t with
  | some t => exact .pure (congrArg (· :: []) (unnamed_moved t))
  | none => exact .pure rfl

theorem signature_follows (h : p.Pursued B q) : Follows B (signature p) (signature q) :=
  (parameters_follows h true).bind fun _ => (results_follows h).bind fun _ => .pure (by simp)

/-! ## Bodies of structs and interfaces -/

section Bodies

variable {α : Type} [Movable α]

theorem resumeBody_follows (items : Array α) : Follows B (resumeBody items) (resumeBody (moved B.shift items)) :=
  (skipTo _).bind fun _ => (accept _).bind fun _ => .ite (.pure rfl) (.pure rfl)

variable {starts : TokenKind → Bool} {item item' : Parse α} {missing : String → Fault}

/-- An item of a body is read where a token that starts one has been seen. -/
theorem itemPass_follows (hitem : FollowsAt B (fun t => starts t.kind = true) item item') (items : Array α) :
    Follows B (itemPass starts item missing items) (itemPass starts item' missing (moved B.shift items)) := by
  refine .currentAt fun here _ => ?_
  refine .ite (.pure rfl) (.dite (fun hstarts => ?_) fun _ => (reportHere _).bind fun _ => resumeBody_follows items)
  refine (hitem.weaken (by rintro _ rfl; exact hstarts)).bind fun item => ?_
  rw [← moved_push]
  exact (orM (isAt _) (accept _)).bind fun _ =>
    .ite (.pure rfl) ((reportExpected _).bind fun _ => resumeBody_follows (items.push item))

theorem bodyItems_follows (hpaced : Paced B (itemPass starts item missing))
    (hitem : FollowsAt B (fun t => starts t.kind = true) item item') :
    Follows B (bodyItems starts item missing) (bodyItems starts item' missing) :=
  (expect _).bind fun _ => (loop hpaced (by simp) (itemPass_follows hitem)).bind fun _ => (expect _).bind fun _ => .pure (by simp)

end Bodies

theorem fieldType_follows (h : p.Pursued B q) : Follows B (fieldType p) (fieldType q) := by
  refine .currentAt fun here _ => ?_
  obtain ⟨kind, loc⟩ := here
  cases kind with
  | ident text =>
    exact (second (by rintro _ rfl; rfl)).bind fun _ => .ite (typeName_follows.bind fun _ => .pure rfl)
      (names.bind fun _ => (type_follows h).bind fun _ => .pure rfl)
  | _ => exact consume.bind fun _ => typeName_follows.bind fun _ => .pure rfl

theorem field_follows (h : p.Pursued B q) : Follows B (field p) (field q) :=
  current.bind fun _ => (fieldType_follows h).bind fun (_, _) => stringLiteral?.bind fun _ => .pure rfl

theorem structType_follows (h : p.Pursued B q) : Follows B (structType p) (structType q) :=
  consume.bind fun _ => (bodyItems_follows h.paced.fields ((field_follows h).weaken fun _ _ => trivial)).bind fun _ => .pure (by simp)

theorem interfaceElem_follows (h : p.Pursued B q) :
    FollowsAt B (fun t => t.kind.isIdent = true) (interfaceElem p) (interfaceElem q) := by
  refine .currentAt fun here hident => ?_
  have hannounces : ∀ t, t = here → t.kind.announces = true := by
    rintro ⟨kind, loc⟩ rfl
    cases kind <;> first | rfl | nomatch hident
  exact (second hannounces).bind fun _ => .ite (name.bind fun _ => (signature_follows h).bind fun _ => .pure rfl)
    (typeName_follows.bind fun _ => .pure rfl)

theorem interfaceType_follows (h : p.Pursued B q) : Follows B (interfaceType p) (interfaceType q) :=
  consume.bind fun _ => (bodyItems_follows h.paced.methods (interfaceElem_follows h)).bind fun _ => .pure (by simp)

/-! ## All types -/

theorem functionType_follows (h : p.Pursued B q) : Follows B (functionType p) (functionType q) :=
  consume.bind fun _ => (signature_follows h).bind fun _ => .pure rfl

theorem parenType_follows (h : p.Pursued B q) : Follows B (parenType p) (parenType q) :=
  consume.bind fun _ => (type_follows h).bind fun _ => (expect _).bind fun _ => .pure rfl

theorem pointerType_follows (h : p.Pursued B q) : Follows B (pointerType p) (pointerType q) :=
  consume.bind fun _ => (type_follows h).bind fun _ => .pure rfl

theorem type?_follows (h : p.Pursued B q) (inferable : Bool) : Follows B (type? p inferable) (type? q inferable) := by
  refine current.bind fun here => ?_
  obtain ⟨kind, loc⟩ := here
  dsimp only [Token.kind_moved]
  split
  · exact typeName_follows.map fun _ => rfl
  · exact (arrayType_follows h inferable).map fun _ => rfl
  · exact (parenType_follows h).map fun _ => rfl
  · exact (pointerType_follows h).map fun _ => rfl
  · exact (channelType_follows h).map fun _ => rfl
  · exact (structType_follows h).map fun _ => rfl
  · exact (interfaceType_follows h).map fun _ => rfl
  · exact (mapType_follows h).map fun _ => rfl
  · exact (channelType_follows h).map fun _ => rfl
  · exact (functionType_follows h).map fun _ => rfl
  · exact .pure rfl

end Grammar

end GoSyntax
