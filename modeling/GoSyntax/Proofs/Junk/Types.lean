import GoSyntax.Proofs.Junk.Crossings
import GoSyntax.Proofs.Junk.Heads

/-!
# Types with junk in them

If the productions that a type is read with are repeated with edited lists, so is the type. Its lists are the fields of structs and the
elements of interfaces; parameters are separated by commas, so the junk does not stand in front of one.
-/

namespace GoSyntax

open Grafts Grammar Productions

/-- The productions of the whole grammar repeat these, which give clean runs of it. -/
structure Productions.Grafting (S : Site) (p : Productions) : Prop where
  type? : Grafted S p.type? (fun _ => full.type?)
  expr : ∀ level, Grafted S (p.expr level) (fun _ => full.expr level)
  unary : ∀ level, Grafted S (p.unary level) (fun _ => full.unary level)
  elementValue : ∀ level, Grafted S (p.elementValue level) (fun _ => full.elementValue level)
  stmt : Grafted S p.stmt (fun _ => full.stmt)
  clean : p.Pursued .untilReport full

namespace Grammar

variable {S : Site} {p : Productions}

/-- A clean pass over such productions that asks for another one has taken a token. -/
theorem strides_of_follows {σ : Type} [Movable σ] {pass pass' : σ → Parse (ForInStep σ)} (hends : Parse.Ends pass')
    (h : ∀ a, Follows .untilReport (pass a) (pass' (moved Pursuit.untilReport.shift a))) : FollowsAt.Strides .untilReport pass :=
  strides_of_ends_full (fun _ => id) hends h

theorem type_grafts (h : p.Grafting S) : Grafted S (type p) (fun _ => type full) := by
  refine h.type?.bind fun t => ?_
  cases t with
  | some t => exact .pure fun _ => rfl
  | none => exact current.bind fun _ => (reportHere _).bind fun _ => (skipTo _).bind fun _ => .pure fun _ => rfl

theorem qualified_grafts (base : Name) : Grafted S (qualified base) (fun _ => qualified base) :=
  (accept _).bind fun _ => .ite (name.bind fun _ => .pure fun _ => rfl) (.pure fun _ => rfl)

theorem typeName_grafts : Grafted S typeName (fun _ => typeName) := name.bind fun base => qualified_grafts base

theorem arrayLength_grafts (h : p.Grafting S) (inferable : Bool) :
    Grafted S (arrayLength p inferable) (fun _ => arrayLength full inferable) := by
  have hgiven : Grafted S (givenLength p inferable) (fun _ => givenLength full inferable) :=
    (andM (.pure fun _ => rfl) (accept _)).bind fun _ => .ite (.pure fun _ => rfl) ((h.expr 0).bind fun _ => .pure fun _ => rfl)
  exact (accept _).bind fun _ => .ite (.pure fun _ => rfl) (hgiven.bind fun _ => (expect _).bind fun _ => .pure fun _ => rfl)

theorem arrayType_grafts (h : p.Grafting S) (inferable : Bool) : Grafted S (arrayType p inferable) (fun _ => arrayType full inferable) :=
  consume.bind fun _ => (arrayLength_grafts h inferable).bind fun _ => (type_grafts h).bind fun _ => .pure fun _ => rfl

theorem mapType_grafts (h : p.Grafting S) : Grafted S (mapType p) (fun _ => mapType full) :=
  consume.bind fun _ => (expect _).bind fun _ => (type_grafts h).bind fun _ => (expect _).bind fun _ =>
    (type_grafts h).bind fun _ => .pure fun _ => rfl

theorem channelDirection_grafts : Grafted S channelDirection (fun _ => channelDirection) :=
  (accept _).bind fun _ => .ite
    ((accept _).bind fun _ => .ite (.pure fun _ => rfl) (.pure fun _ => rfl))
    ((expect _).bind fun _ => (expect _).bind fun _ => .pure fun _ => rfl)

theorem channelType_grafts (h : p.Grafting S) : Grafted S (channelType p) (fun _ => channelType full) :=
  current.bind fun _ => channelDirection_grafts.bind fun _ => (type_grafts h).bind fun _ => .pure fun _ => rfl

/-! ## Parameters and signatures -/

theorem parameterType?_grafts (h : p.Grafting S) (variadic : Bool) :
    Grafted S (parameterType? p variadic) (fun _ => parameterType? full variadic) := by
  have hvariadic : Grafted S (variadicType p variadic) (fun _ => variadicType full variadic) :=
    consume.bind fun _ => (reportUnless _ _ _).bind fun _ => (type_grafts h).bind fun _ => .pure fun _ => rfl
  exact (isAt _).bind fun _ => .ite (hvariadic.map fun _ _ => rfl) h.type?

theorem parameterType_grafts (h : p.Grafting S) (variadic : Bool) :
    Grafted S (parameterType p variadic) (fun _ => parameterType full variadic) := by
  refine (parameterType?_grafts h variadic).bind fun t => ?_
  cases t with
  | some t => exact .pure fun _ => rfl
  | none => exact type_grafts h

theorem nameOf_grafts (entry : Expr) : Grafted S (nameOf entry) (fun E => nameOf (edited E entry)) := by
  have hother : Grafted S (do Parse.report (.expectedIdentifier (describe entry)) entry.loc; return ⟨entry.loc, "_"⟩) fun E => (do
        Parse.report (.expectedIdentifier (describe (edited E entry))) (edited E entry).loc
        return (⟨(edited E entry).loc, "_"⟩ : Name)) :=
    (report _ _).bind fun _ => .pure fun E => by rw [Expr.loc_edited]; rfl
  cases entry with
  | ident loc text => exact .pure fun _ => rfl
  | _ => exact hother

theorem namesOf_grafts (entries : List Expr) : Grafted S (namesOf entries) (fun E => namesOf (edited E entries)) := by
  induction entries with
  | nil => exact .pure fun _ => rfl
  | cons entry entries ih => exact (nameOf_grafts entry).bind fun _ => ih.bind fun _ => .pure fun _ => rfl

theorem checkField_grafts (isLast : Bool) (field : Field) :
    Grafted S (checkField isLast field) (fun E => checkField isLast (edited E field)) := by
  obtain ⟨loc, list, t, tag⟩ := field
  cases t with
  | variadicType loc elem => exact reportUnless _ _ _
  | _ => exact .pure fun _ => rfl

theorem checkFields_grafts (variadic : Bool) (fields : List Field) :
    Grafted S (checkFields variadic fields) (fun E => checkFields variadic (edited E fields)) := by
  refine .ite ?_ (.pure fun _ => rfl)
  induction fields with
  | nil => exact .pure fun _ => rfl
  | cons field fields ih =>
    change Grafted S (checkVariadic (field :: fields)) fun E => (do
      checkField (edited E fields).isEmpty (edited E field)
      checkVariadic (edited E fields))
    simp only [isEmpty_edited]
    exact (checkField_grafts _ field).bind fun _ => ih

theorem entryPass_grafts (h : p.Grafting S) (variadic : Bool) (entries : Array Expr) :
    Grafted S (entryPass p variadic entries) (fun E => entryPass full variadic (edited E entries)) :=
  (parameterType_grafts h variadic).bind fun _ => (accept _).bind fun _ => .ite
    ((isAt _).bind fun _ => .ite (.pure fun _ => by simp) (.pure fun _ => by simp)) (.pure fun _ => by simp)

theorem parameterEntries_grafts (h : p.Grafting S) (variadic : Bool) :
    Grafted S (parameterEntries p variadic) (fun _ => parameterEntries full variadic) :=
  (loop (loopsEnd_full.entries variadic) (strides_of_follows (loopsEnd_full.entries variadic) (entryPass_follows h.clean variadic))
    (fun _ => by simp) (entryPass_grafts h variadic)).bind fun _ => .pure fun _ => by simp

theorem groupPass_grafts (h : p.Grafting S) (variadic : Bool) (groups : Array Field) :
    Grafted S (groupPass p variadic groups) (fun E => groupPass full variadic (edited E groups)) := by
  have hgroup : Grafted S (parameterGroup p variadic) (fun _ => parameterGroup full variadic) :=
    current.bind fun _ => names.bind fun _ => (parameterType_grafts h variadic).bind fun _ => .pure fun _ => by
      rw [edited_names]
      rfl
  exact (accept _).bind fun _ => .ite
    ((isAt _).bind fun _ => .ite (.pure fun _ => rfl) (hgroup.bind fun _ => .pure fun _ => by simp)) (.pure fun _ => rfl)

theorem moreGroups_grafts (h : p.Grafting S) (variadic : Bool) : Grafted S (moreGroups p variadic) (fun _ => moreGroups full variadic) :=
  (loop (loopsEnd_full.parameters variadic) (strides_of_follows (loopsEnd_full.parameters variadic) (groupPass_follows h.clean variadic))
    (fun _ => by simp) (groupPass_grafts h variadic)).bind fun _ => .pure fun _ => by simp

theorem unnamed_edited (E : Editing) (t : Expr) : unnamed (edited E t) = edited E (unnamed t) := by
  rw [unnamed, Expr.loc_edited]
  rfl

theorem namedParameters_grafts (h : p.Grafting S) (variadic : Bool) (entries : List Expr) (t : Expr) :
    Grafted S (namedParameters p variadic entries t) (fun E => namedParameters full variadic (edited E entries) (edited E t)) := by
  refine (namesOf_grafts entries).bind fun list => (moreGroups_grafts h variadic).bind fun groups => .pure fun E => ?_
  rw [edited_names, Expr.loc_edited]
  rfl

theorem parameters_grafts (h : p.Grafting S) (variadic : Bool) : Grafted S (parameters p variadic) (fun _ => parameters full variadic) := by
  have hlist : Grafted S (parameterList p variadic) (fun _ => parameterList full variadic) := by
    refine (parameterEntries_grafts h variadic).bind fun entries => (parameterType?_grafts h variadic).bind fun t => ?_
    cases t with
    | some t => exact namedParameters_grafts h variadic entries t
    | none => exact .pure fun E => edited_map E (unnamed_edited E) entries
  have hfields : Grafted S (parameterFields p variadic) (fun _ => parameterFields full variadic) :=
    (isAt _).bind fun _ => .ite (.pure fun _ => rfl)
      (hlist.bind fun fields => (checkFields_grafts variadic fields).bind fun _ => .pure fun _ => rfl)
  exact (expect _).bind fun _ => hfields.bind fun _ => (expect _).bind fun _ => .pure fun _ => rfl

theorem results_grafts (h : p.Grafting S) : Grafted S (results p) (fun _ => results full) := by
  refine (isAt _).bind fun _ => .ite (parameters_grafts h false) (h.type?.bind fun t => ?_)
  cases t with
  | some t => exact .pure fun E => congrArg (· :: []) (unnamed_edited E t)
  | none => exact .pure fun _ => rfl

theorem signature_grafts (h : p.Grafting S) : Grafted S (signature p) (fun _ => signature full) :=
  (parameters_grafts h true).bind fun _ => (results_grafts h).bind fun _ => .pure fun _ => by simp

/-! ## Bodies of structs and interfaces -/

section Bodies

variable {α : Type} [Movable α] {starts : TokenKind → Bool} {item item' : Parse α} {missing : String → Fault} {locOf : α → Location}

/-- How a body is read. -/
def itemForm (starts : TokenKind → Bool) (locOf : α → Location) : ListForm α (Array α) :=
  arrayForm endsBody starts (·.sameKind Punctuation.rBrace) locOf

theorem itemPass_reads (item : Parse α) : (itemForm starts locOf).Reads (fun _ => item) (itemPass starts item missing) :=
  .of_apply (atOrSemicolon_quiet _) fun items c => ⟨_, _, itemPass_apply starts item missing items c,
    fun _ _ _ => (resumeBody_quiet _).log_ne Array.push_ne_empty, fun _ => (resumeBody_quiet _).log_ne Array.push_ne_empty⟩

theorem eof_or_stops_of_endsBody {kind : TokenKind} (h : endsBody kind = true) : kind = .eof ∨ Recovery.body.contains kind = true := by
  rw [endsBody, Bool.or_eq_true, Bool.or_eq_true] at h
  rcases h with (h | h) | h
  · obtain rfl := (TokenKind.Bare.sameKind_iff _).1 h
    exact .inr rfl
  · exact .inl ((TokenKind.Bare.sameKind_iff _).1 h)
  · exact .inr (by rw [Recovery.body, TokenSet.contains_union, h, Bool.true_or])

omit [Movable α] in
/-- Junk in a body is skipped with the `;` behind it. -/
theorem itemPass_crosses (hstarts : S.listing.starts = starts) (hfault : S.listing.fault = missing)
    (hstops : S.listing.stops = Recovery.body) (hsep : S.listing.separator = [.punctuation .semicolon]) (items : Array α) {c : Cursor}
    (hc : c.feed.values = S.junk ++ S.next :: S.behind) (hreports : S.origin.Reports [] c) :
    ∃ d, itemPass starts item missing items c = (.yield items, d) ∧ d.feed.values = S.next :: S.behind
    ∧ S.origin.Reports [S.reported] d := by
  have hhere : c.here = S.first := Cursor.here_of_values hc
  have hstray : starts c.here.kind = false := by
    rw [hhere, ← hstarts]
    exact S.stray
  obtain ⟨hskipped, heof⟩ := S.skipped S.first List.mem_cons_self
  have hgoesOn : endsBody c.here.kind = false := by
    rw [hhere, Bool.eq_false_iff]
    intro hends
    rcases eof_or_stops_of_endsBody hends with hkind | hkind
    · exact heof hkind
    · rw [hstops, hkind] at hskipped
      exact Bool.false_ne_true hskipped.symm
  have hlooked : (Parse.current c).2.feed.values = S.junk ++ S.next :: S.behind := (Feed.values_look c.feed 1).trans hc
  obtain ⟨t, ht, hvalues, hskip⟩ := exists_separator hlooked (hreports.trans (Cursor.reports_current hreports.lexical)) hsep
    (by rw [hstops]; rfl)
  obtain ⟨haccept, hvalues', hreports'⟩ := accept_separator hvalues ht hskip
  rw [hfault, hstops] at haccept hvalues' hreports'
  refine ⟨_, ?_, hvalues', hreports'⟩
  rw [itemPass_apply, hgoesOn, hstray, if_neg Bool.false_ne_true, if_neg Bool.false_ne_true]
  change (if (Parse.accept Punctuation.semicolon (skipFrom missing Recovery.body (Parse.current c).2).2).1 = true then
    return ForInStep.yield items else return ForInStep.done items : Parse _) _ = _
  rw [haccept, if_pos rfl]
  rfl

variable [Editable α] {l : Listing} {new : α} {L : Editing → List α → List α}

/-- The items of a body, with junk in front of one of them or in one of them. -/
theorem bodyItems_grafts (hinserts : S.Inserts l locOf new L) (hloc : ∀ E m, locOf (edited E m) = locOf m) (hdrops : l.keepsJunk = false)
    (hstarts : l.starts = starts) (hfault : l.fault = missing) (hstops : l.stops = Recovery.body)
    (hsep : l.separator = [.punctuation .semicolon]) (hends : Parse.Ends (itemPass starts item' missing))
    (hstrides : FollowsAt.Strides .untilReport (itemPass starts item missing))
    (hitem : Grafts S (fun t => starts t.kind = true) edited item (fun _ => item'))
    (hitemLoc : ∀ c, starts c.here.kind = true → (item c).2.log = #[] → locOf (item c).1 = c.here.loc) :
    Grafts S (fun _ => True) (fun E items => L E (edited E items)) (bodyItems starts item missing)
    (fun _ => bodyItems starts item' missing) := by
  have hclosing : ∀ kind : TokenKind, kind.sameKind Punctuation.rBrace = true → endsBody kind = true := fun kind h => by
    rw [endsBody, h, Bool.true_or, Bool.true_or]
  have hcrosses : S.listing = l → ∀ (items : Array α) (c : Cursor), endsBody S.next.kind = false → starts S.next.kind = true →
      c.feed.values = S.junk ++ S.next :: S.behind → S.origin.Reports [] c → ∃ d, itemPass starts item' missing items c
        = (.yield (if l.keepsJunk then items.push new else items), d) ∧ d.feed.values = S.next :: S.behind
        ∧ S.origin.Reports [S.reported] d := by
    rintro rfl items c - - hc hreports
    rw [hdrops, if_neg Bool.false_ne_true]
    exact itemPass_crosses hstarts hfault hstops hsep items hc hreports
  have hlaws := hinserts.listLaws hloc hclosing hends hstrides (itemPass_reads item) (itemPass_reads item') hitem hitemLoc hcrosses
  have hloop : Enters S (inList L) (Parse.loop #[] (itemPass starts item missing))
    (fun _ => Parse.loop #[] (itemPass starts item' missing)) :=
    (hlaws.laws.enters #[]).congr fun E hE => by rw [hinserts.nil hE]
  exact expectOpening _ fun _ => hloop.bind fun items => (expect _).bind fun _ => .pure fun _ => rfl

end Bodies

theorem fieldType_grafts (h : p.Grafting S) : Grafted S (fieldType p) (fun _ => fieldType full) := by
  refine .currentAt fun here _ => ?_
  obtain ⟨kind, loc⟩ := here
  cases kind with
  | ident text =>
    exact (second (by rintro _ rfl; rfl)).bind fun _ => .ite (typeName_grafts.bind fun _ => .pure fun _ => rfl)
      (names.bind fun _ => (type_grafts h).bind fun _ => .pure fun _ => rfl)
  | _ => exact consume.bind fun _ => typeName_grafts.bind fun _ => .pure fun _ => rfl

theorem field_grafts (h : p.Grafting S) : Grafted S (field p) (fun _ => field full) :=
  current.bind fun _ => (fieldType_grafts h).bind fun (_, _) => stringLiteral?.bind fun _ => .pure fun _ => by
    simp only [edited_names, edited_literal?]
    rfl

theorem structType_grafts (h : p.Grafting S) : Grafted S (structType p) (fun _ => structType full) := by
  have hstrides := strides_of_follows loopsEnd_full.fields (itemPass_follows ((field_follows h.clean).weaken fun _ _ => trivial))
  have hfields := bodyItems_grafts S.inserts_fields (fun _ f => by cases f; rfl) rfl rfl rfl rfl rfl loopsEnd_full.fields hstrides
    ((field_grafts h).weaken fun _ _ => trivial) fun c _ _ => field_startsHere p c
  exact consume.bind fun _ => hfields.bind fun _ => .pure fun _ => by simp

theorem interfaceElem_grafts (h : p.Grafting S) :
    Grafts S (fun t => t.kind.isIdent = true) edited (interfaceElem p) (fun _ => interfaceElem full) := by
  refine .currentAt fun here hident => ?_
  have hannounces : ∀ t, t = here → t.kind.announces = true := by
    rintro ⟨kind, loc⟩ rfl
    cases kind <;> first | rfl | nomatch hident
  exact (second hannounces).bind fun _ => .ite (name.bind fun _ => (signature_grafts h).bind fun _ => .pure fun _ => rfl)
    (typeName_grafts.bind fun _ => .pure fun _ => rfl)

theorem interfaceType_grafts (h : p.Grafting S) : Grafted S (interfaceType p) (fun _ => interfaceType full) := by
  have hstrides := strides_of_follows loopsEnd_full.methods (itemPass_follows (interfaceElem_follows h.clean))
  have helems := bodyItems_grafts S.inserts_elems (fun _ e => by cases e <;> rfl) rfl rfl rfl rfl rfl loopsEnd_full.methods hstrides
    (interfaceElem_grafts h) fun c _ _ => interfaceElem_startsHere p c
  exact consume.bind fun _ => helems.bind fun _ => .pure fun _ => by simp

/-! ## All types -/

theorem functionType_grafts (h : p.Grafting S) : Grafted S (functionType p) (fun _ => functionType full) :=
  consume.bind fun _ => (signature_grafts h).bind fun _ => .pure fun _ => rfl

theorem parenType_grafts (h : p.Grafting S) : Grafted S (parenType p) (fun _ => parenType full) :=
  consume.bind fun _ => (type_grafts h).bind fun _ => (expect _).bind fun _ => .pure fun _ => rfl

theorem pointerType_grafts (h : p.Grafting S) : Grafted S (pointerType p) (fun _ => pointerType full) :=
  consume.bind fun _ => (type_grafts h).bind fun _ => .pure fun _ => rfl

theorem type?_grafts (h : p.Grafting S) (inferable : Bool) : Grafted S (type? p inferable) (fun _ => type? full inferable) := by
  refine current.bind fun here => ?_
  obtain ⟨kind, loc⟩ := here
  dsimp only [edited_token]
  split
  · exact typeName_grafts.map fun _ _ => rfl
  · exact (arrayType_grafts h inferable).map fun _ _ => rfl
  · exact (parenType_grafts h).map fun _ _ => rfl
  · exact (pointerType_grafts h).map fun _ _ => rfl
  · exact (channelType_grafts h).map fun _ _ => rfl
  · exact (structType_grafts h).map fun _ _ => rfl
  · exact (interfaceType_grafts h).map fun _ _ => rfl
  · exact (mapType_grafts h).map fun _ _ => rfl
  · exact (channelType_grafts h).map fun _ _ => rfl
  · exact (functionType_grafts h).map fun _ _ => rfl
  · exact .pure fun _ => rfl

end Grammar

end GoSyntax
