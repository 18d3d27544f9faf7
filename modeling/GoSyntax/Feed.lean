import GoSyntax.Diagnostic

/-!
# Feeds: what one stage hands to the next

A stage turns its input into items, and while it makes an item it may meet faults. So its output is a feed: a list of items, each
with the diagnostics met while it was made (its notes), and a last item, which marks the end and may be taken again and again.
A reader of a feed takes items from the front and may look ahead. The notes of an item are due when the item is first looked
at, so `look` hands them over, in order, and leaves the item silent: nothing is reported twice and nothing is lost. What has been
handed over, followed by what is `pending`, is always the same list.
-/

namespace GoSyntax

/-- An item with the diagnostics met while it was made. -/
structure Noted (α : Type) where
  value : α
  notes : List Diagnostic
  deriving DecidableEq, Repr

/-- The same item, with nothing left to report. -/
def Noted.silent {α : Type} (n : Noted α) : Noted α := ⟨n.value, []⟩

/-- Items and the last item, which repeats. -/
structure Feed (α : Type) where
  items : List (Noted α)
  last : Noted α
  deriving DecidableEq, Repr

namespace Feed

variable {α : Type}

/-- A feed with one more item in front. -/
def cons (n : Noted α) (f : Feed α) : Feed α := ⟨n :: f.items, f.last⟩

/-- The first item, or the last one if no other is left. -/
def head (f : Feed α) : Noted α :=
  match f.items with
  | n :: _ => n
  | [] => f.last

/-- The feed behind the first item; behind the last item it is the same again. -/
def tail (f : Feed α) : Feed α :=
  match f.items with
  | _ :: ns => ⟨ns, f.last⟩
  | [] => f

/-- The item `k` places ahead; past the end, the last one. -/
def peek (f : Feed α) (k : Nat) : α :=
  match f.items[k]? with
  | some n => n.value
  | none => f.last.value

/-- The feed behind `k` items. -/
def drop (f : Feed α) (k : Nat) : Feed α := ⟨f.items.drop k, f.last⟩

/-- The notes due to a reader who looks at the next `k` items, and the feed with these items silent. -/
def lookItems : Nat → List (Noted α) → Noted α → List Diagnostic × Feed α
  | 0, ns, last => ([], ⟨ns, last⟩)
  | _ + 1, [], last => (last.notes, ⟨[], last.silent⟩)
  | k + 1, n :: ns, last =>
    let (due, f) := lookItems k ns last
    (n.notes ++ due, f.cons n.silent)

/-- The notes due to a reader who looks at the next `k` items, and the feed with these items silent. -/
def look (f : Feed α) (k : Nat) : List Diagnostic × Feed α := lookItems k f.items f.last

/-- All notes not yet handed over. -/
def pending (f : Feed α) : List Diagnostic := f.items.flatMap Noted.notes ++ f.last.notes

/-- The values of a feed, the last one once. -/
def values (f : Feed α) : List α := f.items.map Noted.value ++ [f.last.value]

/-- A feed whose first item reports something more, before its own notes. -/
def noteFirst (due : List Diagnostic) (f : Feed α) : Feed α :=
  match f.items with
  | n :: ns => ⟨⟨n.value, due ++ n.notes⟩ :: ns, f.last⟩
  | [] => ⟨[], ⟨f.last.value, due ++ f.last.notes⟩⟩

/-! ## Looking hands over and changes nothing else -/

theorem pending_lookItems (k : Nat) (ns : List (Noted α)) (last : Noted α) :
    (lookItems k ns last).1 ++ (lookItems k ns last).2.pending = (⟨ns, last⟩ : Feed α).pending := by
  induction k generalizing ns with
  | zero => simp [lookItems]
  | succ k ih =>
    cases ns with
    | nil => simp [lookItems, pending, Noted.silent]
    | cons n ns => simpa [lookItems, pending, cons, Noted.silent] using ih ns

/-- What a look hands over, followed by what is pending after it, was pending before it. -/
theorem look_append_pending (f : Feed α) (k : Nat) : (f.look k).1 ++ (f.look k).2.pending = f.pending :=
  pending_lookItems k f.items f.last

theorem values_lookItems (k : Nat) (ns : List (Noted α)) (last : Noted α) :
    (lookItems k ns last).2.values = (⟨ns, last⟩ : Feed α).values := by
  induction k generalizing ns with
  | zero => rfl
  | succ k ih =>
    cases ns with
    | nil => rfl
    | cons n ns => simpa [lookItems, values, cons, Noted.silent] using ih ns

/-- Looking leaves the values as they are. -/
theorem values_look (f : Feed α) (k : Nat) : (f.look k).2.values = f.values := values_lookItems k f.items f.last

theorem map_value_lookItems (k : Nat) (ns : List (Noted α)) (last : Noted α) :
    (lookItems k ns last).2.items.map Noted.value = ns.map Noted.value := by
  induction k generalizing ns with
  | zero => rfl
  | succ k ih =>
    cases ns with
    | nil => rfl
    | cons n ns => simpa [lookItems, cons, Noted.silent] using ih ns

/-- Looking leaves the values of the items as they are. -/
theorem map_value_look (f : Feed α) (k : Nat) : (f.look k).2.items.map Noted.value = f.items.map Noted.value :=
  map_value_lookItems k f.items f.last

/-- Looking leaves the value of the last item as it is. -/
theorem last_value_look (f : Feed α) (k : Nat) : (f.look k).2.last.value = f.last.value := by
  have h := values_look f k
  simp only [values, map_value_look] at h
  simpa using List.append_cancel_left h

/-- Who looks at the first item a second time meets nothing new. -/
theorem look_look (f : Feed α) : (f.look 1).2.look 1 = ([], (f.look 1).2) := by
  obtain ⟨items, last⟩ := f
  cases items <;> rfl

/-- A note for the first item is pending before all others. -/
theorem pending_noteFirst (due : List Diagnostic) (f : Feed α) : (f.noteFirst due).pending = due ++ f.pending := by
  cases f with
  | mk items last => cases items <;> simp [noteFirst, pending]

theorem map_value_noteFirst (due : List Diagnostic) (f : Feed α) :
    (f.noteFirst due).items.map Noted.value = f.items.map Noted.value := by
  cases f with
  | mk items last => cases items <;> rfl

theorem values_noteFirst (due : List Diagnostic) (f : Feed α) : (f.noteFirst due).values = f.values := by
  cases f with
  | mk items last => cases items <;> rfl

theorem pending_cons (n : Noted α) (f : Feed α) : (f.cons n).pending = n.notes ++ f.pending := by
  simp [cons, pending]

theorem values_cons (n : Noted α) (f : Feed α) : (f.cons n).values = n.value :: f.values := by
  simp [cons, values]

end Feed

end GoSyntax
