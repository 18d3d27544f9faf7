import Mathlib.Data.List.Basic
import GoSyntax.Lookahead

/-!
# Items by their places

The items that a stage makes are also a list, fixed before any of them is made. A reader that makes items on demand and keeps those made
early in a queue stands at two places of this list: up to the one it has taken the items, up to the other it has made them. Between them
are the items in its queue, and behind the second one those it has yet to make. This is so at the start, and it stays so whatever the
reader is asked for.
-/

namespace GoSyntax

/-! ## The items of a feed by their places -/

namespace Feed

variable {α : Type}

/-- The item at a place, with the diagnostics due to whoever reaches it first. Behind the end there is the last value, silent. -/
def item (f : Feed α) (i : Nat) : Noted α :=
  match f.items[i]? with
  | some n => n
  | none => if i = f.items.length then f.last else f.last.silent

/-- What is left of a feed when `n` items have been made. -/
def past (f : Feed α) (n : Nat) : Feed α := ⟨f.items.drop n, if n ≤ f.items.length then f.last else f.last.silent⟩

/-- The diagnostics of the items from one place to another. -/
def notesBetween (f : Feed α) (m n : Nat) : List Diagnostic := (List.range' m (n - m)).flatMap fun i => (f.item i).notes

@[simp]
theorem past_zero (f : Feed α) : f.past 0 = f := rfl

theorem peek_eq_item (f : Feed α) (i : Nat) : f.peek i = (f.item i).value := by
  unfold peek item
  generalize f.items[i]? = n
  cases n with
  | some n => rfl
  | none =>
    change f.last.value = (if i = f.items.length then f.last else f.last.silent).value
    split <;> rfl

theorem values_getElem? (f : Feed α) (i : Nat) : f.values[i]?.or f.values.getLast? = some (f.peek i) := by
  unfold peek
  rcases Nat.lt_or_ge i f.items.length with h | h
  · simp [values, List.getElem?_append_left, h]
  · rw [List.getElem?_eq_none h, values, List.getLast?_concat]
    rcases Nat.eq_or_lt_of_le h with rfl | h'
    · simp
    · rw [List.getElem?_eq_none (by simpa using Nat.succ_le_of_lt h')]
      rfl

theorem getElem?_values {f : Feed α} {i : Nat} (h : i < f.values.length) : f.values[i]? = some (f.peek i) := by
  have hvalue := f.values_getElem? i
  rwa [List.getElem?_eq_getElem h, Option.some_or, ← List.getElem?_eq_getElem h] at hvalue

theorem head_past (f : Feed α) (n : Nat) : (f.past n).head = f.item n := by
  unfold past item
  rcases Nat.lt_trichotomy n f.items.length with h | rfl | h
  · rw [List.drop_eq_getElem_cons h, List.getElem?_eq_getElem h]
    rfl
  · simp [head]
  · rw [List.drop_eq_nil_of_le (Nat.le_of_lt h), List.getElem?_eq_none (Nat.le_of_lt h), if_neg (Nat.not_le_of_gt h),
      if_neg (Nat.ne_of_gt h)]
    rfl

theorem past_succ (f : Feed α) (n : Nat) : ((f.past n).look 1).2.tail = f.past (n + 1) := by
  unfold past
  rcases Nat.lt_or_ge n f.items.length with h | h
  · rw [List.drop_eq_getElem_cons h, if_pos (Nat.le_of_lt h), if_pos (Nat.succ_le_of_lt h)]
    rfl
  · rw [List.drop_eq_nil_of_le h, List.drop_eq_nil_of_le (Nat.le_succ_of_le h), if_neg (Nat.not_le_of_gt (Nat.lt_succ_of_le h))]
    split <;> rfl

@[simp]
theorem notesBetween_self (f : Feed α) (n : Nat) : f.notesBetween n n = [] := by
  simp [notesBetween]

theorem notesBetween_succ (f : Feed α) {m n : Nat} (h : m ≤ n) :
    f.notesBetween m (n + 1) = f.notesBetween m n ++ (f.item n).notes := by
  obtain ⟨d, rfl⟩ := Nat.exists_eq_add_of_le h
  rw [notesBetween, show m + d + 1 - m = d + 1 by omega, List.range'_concat]
  simp [notesBetween]

theorem notesBetween_append (f : Feed α) {l m n : Nat} (hl : l ≤ m) (hm : m ≤ n) :
    f.notesBetween l m ++ f.notesBetween m n = f.notesBetween l n := by
  induction hm with
  | refl => simp
  | @step n hm ih => rw [notesBetween_succ f hm, ← List.append_assoc, ih, notesBetween_succ f (Nat.le_trans hl hm)]

/-- Behind the end there is nothing to report. -/
theorem notesBetween_of_length_lt (f : Feed α) {m n : Nat} (h : f.items.length < m) : f.notesBetween m n = [] := by
  rw [notesBetween, List.flatMap_eq_nil_iff]
  intro i hi
  have hi : m ≤ i := (List.mem_range'_1.1 hi).1
  rw [item, List.getElem?_eq_none (by omega), if_neg (by omega)]
  rfl

/-- Up to and with the last item, all that is pending is reported. -/
theorem notesBetween_length (f : Feed α) : f.notesBetween 0 (f.items.length + 1) = f.pending := by
  have hitem : (List.range' 0 f.items.length).map (fun i => (f.item i).notes) = f.items.map Noted.notes := by
    apply List.ext_getElem
    · simp
    · intro i h h'
      have hi : i < f.items.length := by simpa using h'
      simp [item, List.getElem?_eq_getElem hi]
  rw [notesBetween_succ f (Nat.zero_le _), notesBetween, Nat.sub_zero, List.flatMap_def, hitem, pending, List.flatMap_def, item]
  simp

theorem notesBetween_eq_pending (f : Feed α) {n : Nat} (h : f.items.length < n) : f.notesBetween 0 n = f.pending := by
  rw [← notesBetween_append f (Nat.zero_le _) (Nat.succ_le_of_lt h), notesBetween_length,
    notesBetween_of_length_lt f (Nat.lt_succ_self _), List.append_nil]

end Feed

/-! ## Two places -/

/-- A cursor over a list: the number of items taken, and the number of items that have been reached, taken or not. -/
structure Places where
  taken : Nat
  reached : Nat
  deriving DecidableEq, Repr

namespace Places

/-- No item has been taken or reached. -/
def start : Places := ⟨0, 0⟩

end Places

/-! ## A reader at its places -/

namespace Lookahead

variable {σ α : Type}

/-- A step makes the first of the items to come, and leaves the others. -/
def Unrolls (step : σ → Noted α × σ) (rest : σ → Feed α) : Prop :=
  ∀ s, (step s).1 = (rest s).head ∧ rest (step s).2 = ((rest s).look 1).2.tail

/-- The items made and not taken are in the queue, and the others are yet to be made. -/
structure Stands (rest : σ → Feed α) (f : Feed α) (p : Places) (l : Lookahead σ α) : Prop where
  ordered : p.taken ≤ p.reached
  queue : l.queue = (List.range' p.taken (p.reached - p.taken)).map f.peek
  unmade : rest l.state = f.past p.reached

variable {step : σ → Noted α × σ} {rest : σ → Feed α} {f : Feed α} {p : Places} {l : Lookahead σ α}

theorem Unrolls.past (h : Unrolls step rest) {s : σ} {n : Nat} (hs : rest s = f.past n) :
    (step s).1 = f.item n ∧ rest (step s).2 = f.past (n + 1) := by
  obtain ⟨hmade, hrest⟩ := h s
  rw [hmade, hrest, hs]
  exact ⟨f.head_past n, f.past_succ n⟩

theorem stands_start (rest : σ → Feed α) (s : σ) : Stands rest (rest s) .start (.start s) := ⟨Nat.le_refl _, rfl, rfl⟩

theorem Stands.length_queue (h : Stands rest f p l) : l.queue.length = p.reached - p.taken := by
  rw [h.queue, List.length_map, List.length_range']

theorem Stands.getElem?_queue (h : Stands rest f p l) {k : Nat} (hk : p.taken + k < p.reached) :
    l.queue[k]? = some (f.peek (p.taken + k)) := by
  rw [h.queue, List.getElem?_map, List.getElem?_range' (by omega)]
  simp

theorem Stands.advance (hstep : Unrolls step rest) (h : Stands rest f p l) : Stands rest f ⟨p.taken, p.reached + 1⟩ (l.advance step)
    ∧ (l.advance step).log.toList = l.log.toList ++ f.notesBetween p.reached (p.reached + 1) := by
  obtain ⟨hmade, hrest⟩ := hstep.past h.unmade
  have hp := h.ordered
  refine ⟨⟨Nat.le_succ_of_le hp, ?_, hrest⟩, ?_⟩
  · change l.queue ++ [(step l.state).1.value] = _
    rw [show p.reached + 1 - p.taken = p.reached - p.taken + 1 by omega, List.range'_concat, List.map_append, h.queue, hmade,
      List.map_singleton, Nat.one_mul, Nat.add_sub_cancel' hp, f.peek_eq_item]
  · change (l.log ++ (step l.state).1.notes).toList = _
    rw [f.notesBetween_succ (Nat.le_refl _), f.notesBetween_self, hmade]
    simp

theorem Stands.advanceBy (hstep : Unrolls step rest) (h : Stands rest f p l) (n : Nat) :
    Stands rest f ⟨p.taken, p.reached + n⟩ (l.advanceBy step n)
      ∧ (l.advanceBy step n).log.toList = l.log.toList ++ f.notesBetween p.reached (p.reached + n) := by
  induction n generalizing p l with
  | zero => exact ⟨h, by simp [Lookahead.advanceBy]⟩
  | succ n ih =>
    obtain ⟨hnext, hlog⟩ := h.advance hstep
    obtain ⟨hafter, hlogs⟩ := ih hnext
    rw [show p.reached + (n + 1) = p.reached + 1 + n by omega]
    refine ⟨hafter, hlogs.trans ?_⟩
    rw [hlog, List.append_assoc, f.notesBetween_append (Nat.le_succ _) (Nat.le_add_right _ n)]

/-- Whoever looks ahead is given the item there, and all items up to it have then been made. -/
theorem Stands.peek [Inhabited α] (hstep : Unrolls step rest) (h : Stands rest f p l) (k : Nat) : (l.peek step k).1 = f.peek (p.taken + k)
    ∧ Stands rest f ⟨p.taken, max p.reached (p.taken + k + 1)⟩ (l.peek step k).2
    ∧ (l.peek step k).2.log.toList = l.log.toList ++ f.notesBetween p.reached (max p.reached (p.taken + k + 1)) := by
  have hp := h.ordered
  obtain ⟨hreach, hlog⟩ := h.advanceBy hstep (k + 1 - l.queue.length)
  rw [show p.reached + (k + 1 - l.queue.length) = max p.reached (p.taken + k + 1) by rw [h.length_queue]; omega] at hreach hlog
  refine ⟨?_, hreach, hlog⟩
  have hat := hreach.getElem?_queue (k := k) (by grind)
  change (l.reach step k).queue.getD k default = _
  rw [List.getD_eq_getElem?_getD]
  exact congrArg (Option.getD · default) hat

/-- Whoever takes an item is given the next one. -/
theorem Stands.consume (hstep : Unrolls step rest) (h : Stands rest f p l) : (l.consume step).1 = f.peek p.taken
    ∧ Stands rest f ⟨p.taken + 1, max p.reached (p.taken + 1)⟩ (l.consume step).2
    ∧ (l.consume step).2.log.toList = l.log.toList ++ f.notesBetween p.reached (max p.reached (p.taken + 1)) := by
  have hp := h.ordered
  have hlength := h.length_queue
  cases hqueue : l.queue with
  | cons a queue =>
    rw [hqueue, List.length_cons] at hlength
    have hlt : p.taken < p.reached := by omega
    have hhead := h.getElem?_queue (k := 0) hlt
    have hrest := h.queue
    have hconsume : l.consume step = (a, { l with queue := queue }) := by simp only [Lookahead.consume, hqueue]
    rw [hqueue] at hhead
    rw [hqueue, show p.reached - p.taken = p.reached - (p.taken + 1) + 1 by omega, List.range'_succ, List.map_cons] at hrest
    rw [hconsume, Nat.max_eq_left hlt, f.notesBetween_self]
    exact ⟨Option.some.inj hhead, ⟨hlt, (List.cons.inj hrest).2, h.unmade⟩, (List.append_nil _).symm⟩
  | nil =>
    rw [hqueue, List.length_nil] at hlength
    have heq : p.reached = p.taken := by omega
    obtain ⟨hmade, hrest⟩ := hstep.past h.unmade
    have hconsume : l.consume step = ((step l.state).1.value, ⟨(step l.state).2, [], l.log ++ (step l.state).1.notes⟩) := by
      simp only [Lookahead.consume, hqueue]
    rw [hconsume, heq, Nat.max_eq_right (Nat.le_succ _), f.notesBetween_succ (Nat.le_refl _), f.notesBetween_self, hmade, ← heq]
    exact ⟨(f.peek_eq_item _).symm, ⟨Nat.le_refl _, by simp, hrest⟩, by simp⟩

end Lookahead

end GoSyntax
