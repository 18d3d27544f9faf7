import GoSyntax.Proofs.Junk.Lists

/-!
# How junk is read

At a token that starts no member the list reports, skips what it can not read, and takes the `;` behind it if there is to be one. Then it
stands in front of the member. Where the list keeps what it could not read, a placeholder has been put in front of the member; where it does
not, nothing has changed.
-/

namespace GoSyntax

open Parse Cursor

/-! ## Placeholders in lists -/

section Inserts

variable {α : Type} {locOf : α → Location} {spot : Location} {new : α}

theorem insertAt_concat (l : List α) (a : α) :
    insertAt locOf spot new (l ++ [a]) = insertAt locOf spot new l ++ if locOf a = spot then [new, a] else [a] := by
  rw [insertAt, List.flatMap_append, List.flatMap_singleton]
  rfl

theorem insertFirst_cons_append (a : α) (l r : List α) :
    insertFirst locOf spot new (a :: (l ++ r)) = insertFirst locOf spot new (a :: l) ++ r := by
  rw [insertFirst, insertFirst]
  split <;> rfl

variable {S : Site} {l : Listing} {L : Editing → List α → List α} {E : Editing}

/-- The function of an editing for lists of this kind puts a placeholder in front of the member that the junk stands in front of. -/
structure Site.Inserts (S : Site) (l : Listing) (locOf : α → Location) (new : α) (L : Editing → List α → List α) : Prop where
  edits : ∀ E, S.Edits E → L E = id ∨ S.listing = l ∧ L E = insertAt locOf S.next.loc new
  kept : S.listing = l → l.keepsJunk = true → L S.change = insertAt locOf S.next.loc new
  dropped : l.keepsJunk = false → L S.change = id

theorem Site.Inserts.of_insert (hinsert : L S.marking = if S.listing = l then insertAt locOf S.next.loc new else id)
    (hnone : L .none = id) :
    S.Inserts l locOf new L := by
  refine ⟨?_, fun hlisting hkeeps => ?_, fun hdrops => ?_⟩
  · rintro E (rfl | rfl)
    · by_cases hlisting : S.listing = l
      · exact .inr ⟨hlisting, by rw [hinsert, if_pos hlisting]⟩
      · exact .inl (by rw [hinsert, if_neg hlisting])
    · unfold Site.change
      split
      · by_cases hlisting : S.listing = l
        · exact .inr ⟨hlisting, by rw [hinsert, if_pos hlisting]⟩
        · exact .inl (by rw [hinsert, if_neg hlisting])
      · exact .inl hnone
  · rw [Site.change, hlisting, if_pos hkeeps, hinsert, if_pos hlisting]
  · unfold Site.change
    split
    · next hkeeps =>
      rw [hinsert, if_neg]
      rintro rfl
      rw [hdrops] at hkeeps
      exact Bool.false_ne_true hkeeps
    · exact hnone

theorem Site.inserts_decls : S.Inserts .declarations Decl.loc (.bad S.reported.loc) Editing.decls := .of_insert rfl rfl

theorem Site.inserts_stmts : S.Inserts .statements Stmt.loc (.bad S.reported.loc) Editing.stmts := .of_insert rfl rfl

theorem Site.inserts_fields : S.Inserts .fields Field.loc ⟨S.reported.loc, [], .bad S.reported.loc, none⟩ Editing.fields :=
  .of_insert rfl rfl

theorem Site.inserts_elems : S.Inserts .elems InterfaceElem.loc (.embedded S.reported.loc (.bad S.reported.loc)) Editing.elems :=
  .of_insert rfl rfl

theorem Site.inserts_specs (keyword : Keyword) : S.Inserts (.specs keyword) Spec.loc
    (.import S.reported.loc ⟨none, ⟨S.reported.loc, .error⟩⟩) (fun E => E.specs keyword true) := by
  refine .of_insert ?_ rfl
  change (if S.listing = .specs keyword ∧ true = true then _ else _) = _
  simp only [and_true]

variable [Editable α]

/-- A list that is built up in an array, edited. -/
def inList (L : Editing → List α → List α) (E : Editing) (as : Array α) : Array α := (L E (edited E as.toList)).toArray

@[simp] theorem toList_inList (as : Array α) : (inList L E as).toList = L E (edited E as.toList) := rfl

theorem toList_inList_push (as : Array α) (m : α) :
    (inList L E (as.push m)).toList = L E (edited E as.toList ++ [edited E m]) := by
  rw [toList_inList, Array.toList_push, edited_append]
  rfl

theorem inList_push_of_id (h : L E = id) (as : Array α) (m : α) : inList L E (as.push m) = (inList L E as).push (edited E m) := by
  refine Array.toList_inj.1 ?_
  rw [toList_inList_push, Array.toList_push, toList_inList, h]
  rfl

theorem Site.Inserts.nil (h : S.Inserts l locOf new L) (hE : S.Edits E) : inList L E (#[] : Array α) = #[] := by
  refine Array.toList_inj.1 ?_
  rw [toList_inList]
  rcases h.edits E hE with hid | ⟨-, hinsert⟩
  · rw [hid]
    rfl
  · rw [hinsert]
    rfl

theorem Site.Inserts.isEmpty (h : S.Inserts l locOf new L) (hE : S.Edits E) (as : Array α) : (inList L E as).isEmpty = as.isEmpty := by
  obtain ⟨list⟩ := as
  cases list with
  | nil => rw [h.nil hE]
  | cons a list =>
    have hne : L E (edited E (a :: list)) ≠ [] := by
      rcases h.edits E hE with hid | ⟨-, hinsert⟩
      · rw [hid]
        exact List.cons_ne_nil _ _
      · rw [hinsert, edited_cons, insertAt, List.flatMap_cons]
        split <;> exact List.cons_ne_nil _ _
    obtain ⟨b, bs, heq⟩ := List.exists_cons_of_ne_nil hne
    rw [inList, heq]
    rfl

/-- A member that is not marked is put behind the others. -/
theorem Site.Inserts.push_of_ne (h : S.Inserts l locOf new L) (hE : S.Edits E) (as : Array α) (m : α)
    (hne : S.listing ≠ l ∨ locOf (edited E m) ≠ S.next.loc) : inList L E (as.push m) = (inList L E as).push (edited E m) := by
  rcases h.edits E hE with hid | ⟨hlisting, hinsert⟩
  · exact inList_push_of_id hid as m
  · refine Array.toList_inj.1 ?_
    rw [toList_inList_push, Array.toList_push, toList_inList, hinsert, insertAt_concat, if_neg (hne.resolve_left (not_not.2 hlisting))]

/-- In front of the member the placeholder is put behind the others. -/
theorem Site.Inserts.push_of_eq (h : S.Inserts l locOf new L) (hlisting : S.listing = l) (hkeeps : l.keepsJunk = true) (as : Array α)
    (m : α)
    (heq : locOf (edited S.change m) = S.next.loc) :
    inList L S.change (as.push m) = ((inList L S.change as).push new).push (edited S.change m) := by
  refine Array.toList_inj.1 ?_
  rw [toList_inList_push, Array.toList_push, Array.toList_push, toList_inList, h.kept hlisting hkeeps, insertAt_concat, if_pos heq,
    List.append_assoc]
  rfl

/-- Where junk is not kept, nothing is changed. -/
theorem Site.Inserts.push_of_dropped (h : S.Inserts l locOf new L) (hdrops : l.keepsJunk = false) (as : Array α) (m : α) :
    inList L S.change (as.push m) = (inList L S.change as).push (edited S.change m) := inList_push_of_id (h.dropped hdrops) as m

/-- The function of an editing for lists of clauses puts a placeholder in front of the first clause, if the junk stands in front of it. The
junk itself changes nothing, since it is not kept. -/
structure Site.InsertsFirst (S : Site) (locOf : α → Location) (new : α) (L : Editing → List α → List α) : Prop where
  edits : ∀ E, S.Edits E → L E = id ∨ S.listing = .clauses ∧ L E = insertFirst locOf S.next.loc new
  change : L S.change = id

omit [Editable α] in
theorem Site.InsertsFirst.of_insert (hinsert : L S.marking = if S.listing = .clauses then insertFirst locOf S.next.loc new else id)
    (hnone : L .none = id) : S.InsertsFirst locOf new L := by
  have hchange : L S.change = id := by
    unfold Site.change
    split
    · next hkeeps =>
      rw [hinsert, if_neg]
      intro hlisting
      rw [hlisting] at hkeeps
      exact Bool.false_ne_true hkeeps
    · exact hnone
  refine ⟨?_, hchange⟩
  rintro E (rfl | rfl)
  · rw [hinsert]
    by_cases hlisting : S.listing = .clauses
    · exact .inr ⟨hlisting, if_pos hlisting⟩
    · exact .inl (if_neg hlisting)
  · exact .inl hchange

theorem Site.insertsFirst_cases : S.InsertsFirst CaseClause.loc ⟨S.reported.loc, some [.bad S.reported.loc], []⟩ Editing.cases :=
  .of_insert rfl rfl

theorem Site.insertsFirst_comms : S.InsertsFirst CommClause.loc ⟨S.reported.loc, none, [.bad S.reported.loc]⟩ Editing.comms :=
  .of_insert rfl rfl

theorem Site.InsertsFirst.nil (h : S.InsertsFirst locOf new L) (hE : S.Edits E) : inList L E (#[] : Array α) = #[] := by
  refine Array.toList_inj.1 ?_
  rw [toList_inList]
  rcases h.edits E hE with hid | ⟨-, hinsert⟩
  · rw [hid]
    rfl
  · rw [hinsert]
    rfl

/-- A clause is put behind the others, unless it is the first one and marked. -/
theorem Site.InsertsFirst.push (h : S.InsertsFirst locOf new L) (hE : S.Edits E) (as : Array α) (m : α)
    (hplain : S.listing ≠ .clauses ∨ as ≠ #[] ∨ locOf (edited E m) ≠ S.next.loc) :
    inList L E (as.push m) = (inList L E as).push (edited E m) := by
  rcases h.edits E hE with hid | ⟨hlisting, hinsert⟩
  · exact inList_push_of_id hid as m
  · refine Array.toList_inj.1 ?_
    rw [toList_inList_push, Array.toList_push, toList_inList, hinsert]
    obtain ⟨l⟩ := as
    cases l with
    | nil => exact if_neg ((hplain.resolve_left (not_not.2 hlisting)).resolve_left (not_not.2 rfl))
    | cons a l => exact insertFirst_cons_append (edited E a) (edited E l) [edited E m]

end Inserts

/-! ## The junk is skipped -/

section Skipping

variable {S : Site} {c d : Cursor} {stop : TokenSet} {t : Token} {ts : List Token}

theorem skipTo_step (hkind : stop.contains c.here.kind = false) (heof : c.here.kind ≠ .eof) :
    Parse.skipTo stop c = Parse.skipTo stop (Parse.consume c).2 := by
  have hpass : skipPass stop () c = (.yield (), (Parse.consume c).2) := by
    change (if (stop.contains c.here.kind || c.here.kind.sameKind .eof) = true then return .done () else do
      let _ ← Parse.consume
      return .yield () : Parse (ForInStep Unit)) (Parse.current c).2 = _
    rw [hkind, Bool.false_or, if_neg fun h => heof ((TokenKind.Bare.sameKind_iff _).1 h), ← consume_current]
    rfl
  rw [Parse.skipTo, (Productions.loopsEnd_full.skips stop).loop_eq_of_yield (congrArg Prod.fst hpass), hpass]

/-- Skipping takes all tokens in front of the first one at which it stops. -/
theorem values_skipTo {X : List Token} (hX : ∀ x ∈ X, stop.contains x.kind = false ∧ x.kind ≠ .eof) (ht : stop.contains t.kind = true)
    (hc : c.feed.values = X ++ t :: ts) : (Parse.skipTo stop c).2.feed.values = t :: ts := by
  induction X generalizing c with
  | nil =>
    rw [skipTo_stop (by rw [here_of_values hc]; exact ht)]
    exact (Feed.values_look c.feed 1).trans hc
  | cons x X ih =>
    obtain ⟨hx, hX⟩ := List.forall_mem_cons.1 hX
    have hhere := here_of_values hc
    rw [skipTo_step (by rw [hhere]; exact hx.1) (by rw [hhere]; exact hx.2)]
    exact ih hX (values_consume hc (by simp))

/-- A fault is reported at the next token, and tokens are skipped. -/
def skipFrom (fault : String → Fault) (stop : TokenSet) : Parse Unit := do
  Parse.reportHere fault
  Parse.skipTo stop

/-- What starts no member is reported and skipped up to what separates it from the member. -/
theorem skipFrom_junk (hc : c.feed.values = S.junk ++ S.next :: S.behind) (hreports : S.origin.Reports [] c)
    (ht : S.separator ++ S.next :: S.behind = t :: ts) (hstop : S.listing.stops.contains t.kind = true) :
    (skipFrom S.listing.fault S.listing.stops c).2.feed.values = t :: ts
      ∧ S.origin.Reports [S.reported] (skipFrom S.listing.fault S.listing.stops c).2 := by
  have hhere : c.here = S.first := here_of_values hc
  have hfault : ∀ found, (S.listing.fault found).isLexical = false := by
    intro found
    cases S.listing <;> rfl
  have hreport := reports_reportHere hreports.lexical hfault
  rw [hhere] at hreport
  refine ⟨?_, (hreports.trans hreport).then_quiet (reports_skipTo hreport.lexical _)⟩
  have hjunk : S.junk ++ S.next :: S.behind = S.first :: S.more ++ t :: ts := by
    rw [← ht, Site.junk]
    simp
  have hvalues : (Parse.reportHere S.listing.fault c).2.feed.values = S.first :: S.more ++ t :: ts :=
    (Feed.values_look c.feed 1).trans (hc.trans hjunk)
  exact values_skipTo S.skipped hstop hvalues

/-- A `;` that separates the junk from the member is taken. -/
theorem accept_separator (hd : d.feed.values = t :: S.next :: S.behind) (ht : t.kind = .punctuation .semicolon) {ds : List Diagnostic}
    (hreports : S.origin.Reports ds d) : (Parse.accept Punctuation.semicolon d).1 = true
      ∧ (Parse.accept Punctuation.semicolon d).2.feed.values = S.next :: S.behind
      ∧ S.origin.Reports ds (Parse.accept Punctuation.semicolon d).2 := by
  have hhere : d.here.kind.sameKind Punctuation.semicolon = true := by
    rw [here_of_values hd, ht]
    rfl
  have haccept := reports_accept hreports.lexical Punctuation.semicolon
  rw [accept_of_sameKind hhere] at haccept ⊢
  exact ⟨rfl, values_consume hd (by simp), hreports.then_quiet haccept⟩

/-- Junk with a `;` behind it is reported and skipped, and the `;` comes next. -/
theorem exists_separator (hc : c.feed.values = S.junk ++ S.next :: S.behind) (hreports : S.origin.Reports [] c)
    (hsep : S.listing.separator = [.punctuation .semicolon]) (hstop : S.listing.stops.contains (.punctuation .semicolon) = true) :
    ∃ t, t.kind = .punctuation .semicolon ∧ (skipFrom S.listing.fault S.listing.stops c).2.feed.values = t :: S.next :: S.behind
      ∧ S.origin.Reports [S.reported] (skipFrom S.listing.fault S.listing.stops c).2 := by
  have hkinds := S.separates
  rw [hsep] at hkinds
  obtain ⟨t, heq, ht⟩ := List.map_eq_singleton_iff.1 hkinds
  have hvalues : S.separator ++ S.next :: S.behind = t :: S.next :: S.behind := by rw [heq]; rfl
  exact ⟨t, ht, skipFrom_junk hc hreports hvalues (by rw [ht]; exact hstop)⟩

end Skipping

/-! ## Lists in arrays -/

section Arrays

variable {α : Type} [Editable α] {S : Site} {l : Listing} {locOf : α → Location} {new : α} {L : Editing → List α → List α}
  {ends starts test : TokenKind → Bool} {item item' : Parse α} {pass pass' : Array α → Parse (ForInStep (Array α))}

/-- A list that is built up in an array. -/
def arrayForm (ends starts test : TokenKind → Bool) (locOf : α → Location) : ListForm α (Array α) :=
  ⟨ends, starts, id, Array.push, atOrSemicolon test, locOf⟩

/-- A member is read behind the `;` of the one before it. If the junk stands in such a list, a pass of the second run reads it. -/
theorem Site.Inserts.listLaws (hinserts : S.Inserts l locOf new L) (hloc : ∀ E m, locOf (edited E m) = locOf m)
    (htest : ∀ kind, test kind = true → ends kind = true) (hends : Ends pass') (hstrides : FollowsAt.Strides .untilReport pass)
    (hfirst : (arrayForm ends starts test locOf).Reads (fun _ => item) pass)
    (hsecond : (arrayForm ends starts test locOf).Reads (fun _ => item') pass')
    (hitem : Grafts S (fun t => starts t.kind = true) edited item (fun _ => item'))
    (hitemLoc : ∀ c, starts c.here.kind = true → (item c).2.log = #[] → locOf (item c).1 = c.here.loc)
    (hcrosses : S.listing = l → ∀ (as : Array α) (c : Cursor), ends S.next.kind = false → starts S.next.kind = true →
      c.feed.values = S.junk ++ S.next :: S.behind → S.origin.Reports [] c →
      ∃ d, pass' as c = (.yield (if l.keepsJunk then as.push new else as), d)
        ∧ d.feed.values = S.next :: S.behind ∧ S.origin.Reports [S.reported] d) :
    ListLaws S (arrayForm ends starts test locOf) (inList L) (fun _ => S.listing ≠ l) (fun _ => item) (fun _ => item') pass pass'
      (fun d => S.Behind true d ∨ test d.here.kind = true) := by
  refine ⟨hends, hstrides, hfirst, hsecond, fun _ => hitem, S.leadsTo_atOrSemicolon _, fun as m d hleads => ?_,
    fun _ => hitemLoc, fun _ _ _ => rfl, fun E hE as m hplain => ?_, fun as c hlisting hend hstart hc hreports => ?_⟩
  · exact hleads.imp_right fun h => .inl (htest _ h)
  · exact hinserts.push_of_ne hE as m (hplain.imp_right fun hne => by rwa [hloc])
  · obtain ⟨d, hpass, hvalues, hreports'⟩ := hcrosses (not_not.1 hlisting) (inList L S.change as) c hend hstart hc hreports
    refine ⟨_, congrArg Prod.fst hpass, ?_, ?_, rfl, fun m hm => ?_⟩
    · rw [hpass]
      exact hvalues
    · rw [hpass]
      exact hreports'
    · cases hkeeps : l.keepsJunk with
      | true => exact (hinserts.push_of_eq (not_not.1 hlisting) hkeeps as m ((hloc _ m).trans hm)).symm
      | false => exact (hinserts.push_of_dropped hkeeps as m).symm

end Arrays

end GoSyntax
