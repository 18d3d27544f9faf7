import GoSyntax.Tree.Move

/-!
# Feeds put together and feeds changed

A feed may get more items in front, and its values and diagnostics may be changed one by one. Looking ahead works on the parts: items
in front without notes only shorten the look, and what is changed alike is looked at alike.
-/

namespace GoSyntax

/-- A feed with more items in front. -/
def Feed.behind {α : Type} (ns : List (Noted α)) (f : Feed α) : Feed α := ⟨ns ++ f.items, f.last⟩

namespace Feed

variable {α β : Type} (f : Feed α)

/-! ## More items in front -/

theorem pending_behind (ns : List (Noted α)) : (f.behind ns).pending = ns.flatMap Noted.notes ++ f.pending := by
  rw [pending, pending, behind, List.flatMap_append, List.append_assoc]

/-- Who looks only at items in front leaves the others as they are. -/
theorem look_behind {k : Nat} {ns : List (Noted α)} (h : k ≤ ns.length) :
    ∃ ns', ((f.behind ns).look k).2 = f.behind ns' ∧ ns'.map Noted.value = ns.map Noted.value := by
  induction k generalizing ns with
  | zero => exact ⟨ns, rfl, rfl⟩
  | succ k ih =>
    cases ns with
    | nil => nomatch h
    | cons n ns =>
      obtain ⟨ns', hlook, hvalues⟩ := ih (Nat.le_of_succ_le_succ h)
      refine ⟨n.silent :: ns', congrArg (Feed.cons n.silent) hlook, ?_⟩
      rw [List.map_cons, List.map_cons, hvalues]
      rfl

/-- A note for the first item comes before that of the items in front, or else stays a note for the first item. -/
theorem exists_noteFirst_behind (d due : List Diagnostic) (ns : List (Noted α)) : ∃ ns' due',
    ((f.noteFirst due).behind ns).noteFirst d = (f.noteFirst due').behind ns' ∧ ns'.map Noted.value = ns.map Noted.value := by
  cases ns with
  | nil =>
    refine ⟨[], d ++ due, ?_, rfl⟩
    obtain ⟨items, last⟩ := f
    cases items <;> simp [noteFirst, behind]
  | cons n ns => exact ⟨⟨n.value, d ++ n.notes⟩ :: ns, due, rfl, rfl⟩

/-! ## Looking again -/

theorem lookItems_lookItems (j k : Nat) (ns : List (Noted α)) (last : Noted α) :
    ((lookItems j ns last).2.look k).2 = (lookItems (max j k) ns last).2 := by
  induction j generalizing k ns with
  | zero => rw [Nat.zero_max]; rfl
  | succ j ih =>
    cases ns with
    | nil =>
      cases k with
      | zero => rfl
      | succ k => rw [Nat.succ_max_succ]; rfl
    | cons n ns =>
      cases k with
      | zero => rfl
      | succ k =>
        rw [Nat.succ_max_succ]
        exact congrArg (Feed.cons n.silent) (ih k ns)

/-- Who looks twice sees as far as the longer look goes. -/
theorem look_look_eq_max (j k : Nat) : ((f.look j).2.look k).2 = (f.look (max j k)).2 := lookItems_lookItems j k f.items f.last

/-- Where nothing is to be reported, looking does nothing. -/
theorem look_of_pending (h : f.pending = []) (k : Nat) : f.look k = ([], f) := by
  obtain ⟨ns, last⟩ := f
  have hlook : lookItems k ns last = ([], ⟨ns, last⟩) := by
    induction k generalizing ns with
    | zero => rfl
    | succ k ih =>
      obtain ⟨hns, hlast⟩ := List.append_eq_nil_iff.1 h
      obtain ⟨value, notes⟩ := last
      obtain rfl : notes = [] := hlast
      cases ns with
      | nil => rfl
      | cons n ns =>
        obtain ⟨value', notes⟩ := n
        obtain ⟨hn, hns⟩ := List.append_eq_nil_iff.1 ((List.flatMap_cons).symm.trans hns)
        obtain rfl : notes = [] := hn
        rw [lookItems, ih ns (List.append_eq_nil_iff.2 ⟨hns, rfl⟩)]
        rfl
  exact hlook

/-- A look over items without notes shows what a shorter look shows. -/
theorem look_behind_silent {ns : List (Noted α)} (hns : ∀ n ∈ ns, n.notes = []) (k : Nat) :
    ((f.behind ns).look k).2 = (f.look (k - ns.length)).2.behind ns := by
  induction ns generalizing k with
  | nil => rfl
  | cons n ns ih =>
    cases k with
    | zero => rw [Nat.zero_sub]; rfl
    | succ k =>
      have hsilent : n.silent = n := by
        obtain ⟨value, notes⟩ := n
        obtain rfl : notes = [] := hns _ List.mem_cons_self
        rfl
      rw [List.length_cons, Nat.add_sub_add_right]
      change ((f.behind ns).look k).2.cons n.silent = _
      rw [hsilent, ih (fun n' hn' => hns n' (List.mem_cons_of_mem n hn'))]
      rfl

theorem drop_behind {k : Nat} {ns : List (Noted α)} (h : k ≤ ns.length) : (f.behind ns).drop k = f.behind (ns.drop k) := by
  rw [drop, behind, List.drop_append_of_le_length h]
  rfl

theorem noteFirst_nil : f.noteFirst [] = f := by
  obtain ⟨items, last⟩ := f
  cases items <;> rfl

/-- A note for the first item is gone once the item has been looked at. -/
theorem look_noteFirst (due : List Diagnostic) : ((f.noteFirst due).look 1).2 = (f.look 1).2 := by
  obtain ⟨items, last⟩ := f
  cases items <;> rfl

/-- Items that have been looked at have nothing more to report. -/
theorem flatMap_notes_lookItems (k : Nat) (ns : List (Noted α)) (last : Noted α) :
    ((lookItems k ns last).2.items.take k).flatMap Noted.notes = [] := by
  induction k generalizing ns with
  | zero => rfl
  | succ k ih =>
    cases ns with
    | nil => rfl
    | cons n ns => exact ih ns

/-- Nothing is lost with items that have been looked at. -/
theorem pending_drop_look {j k : Nat} (h : j ≤ k) : ((f.look k).2.drop j).pending = (f.look k).2.pending := by
  have hsilent := flatMap_notes_lookItems k f.items f.last
  have htake : ((f.look k).2.items.take j).flatMap Noted.notes = [] := by
    rw [List.flatMap_eq_nil_iff] at hsilent ⊢
    exact fun n hn => hsilent n (List.take_subset_take_left _ h hn)
  have hsplit : (f.look k).2.items.flatMap Noted.notes = ((f.look k).2.items.drop j).flatMap Noted.notes := by
    rw [← List.nil_append (((f.look k).2.items.drop j).flatMap _), ← htake, ← List.flatMap_append, List.take_append_drop]
  rw [pending, pending, hsplit]
  rfl

theorem pending_drop_of_pending (h : f.pending = []) (k : Nat) : (f.drop k).pending = [] := by
  have hdrop := f.pending_drop_look (Nat.le_refl k)
  rwa [f.look_of_pending h, h] at hdrop

/-! ## Changed feeds -/

section Relabel

variable (value : α → β) (note : Diagnostic → Diagnostic)

theorem cons_relabel (n : Noted α) : (f.relabel value note).cons (n.relabel value note) = (f.cons n).relabel value note := rfl

theorem lookItems_relabel (k : Nat) (ns : List (Noted α)) (last : Noted α) :
    lookItems k (ns.map (Noted.relabel value note)) (last.relabel value note)
      = ((lookItems k ns last).1.map note, (lookItems k ns last).2.relabel value note) := by
  induction k generalizing ns with
  | zero => rfl
  | succ k ih =>
    cases ns with
    | nil => rfl
    | cons n ns =>
      change ((n.notes.map note) ++ (lookItems k (ns.map (Noted.relabel value note)) (last.relabel value note)).1,
        (lookItems k (ns.map (Noted.relabel value note)) (last.relabel value note)).2.cons (n.relabel value note).silent) = _
      rw [ih, ← List.map_append]
      rfl

theorem look_relabel (k : Nat) : (f.relabel value note).look k = ((f.look k).1.map note, (f.look k).2.relabel value note) :=
  lookItems_relabel value note k f.items f.last

theorem peek_relabel (k : Nat) : (f.relabel value note).peek k = value (f.peek k) := by
  rw [peek, peek, relabel, List.getElem?_map]
  cases f.items[k]? <;> rfl

theorem tail_relabel : (f.relabel value note).tail = f.tail.relabel value note := by
  obtain ⟨items, last⟩ := f
  cases items <;> rfl

theorem drop_relabel (k : Nat) : (f.relabel value note).drop k = (f.drop k).relabel value note := by
  rw [drop, relabel, drop, relabel, List.map_drop]

theorem noteFirst_relabel (due : List Diagnostic) :
    (f.relabel value note).noteFirst (due.map note) = (f.noteFirst due).relabel value note := by
  obtain ⟨items, last⟩ := f
  cases items <;> simp [noteFirst, relabel, Noted.relabel]

theorem pending_relabel : (f.relabel value note).pending = f.pending.map note := by
  simp [pending, relabel, Noted.relabel, List.flatMap_map, List.map_flatMap]

end Relabel

end Feed

end GoSyntax
