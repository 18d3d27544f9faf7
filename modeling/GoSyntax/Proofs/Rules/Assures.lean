import GoSyntax.Proofs.Reached
import GoSyntax.Proofs.Same

/-!
# What a parser assures when it reports nothing

A report is never taken back, so a parser that ends without reports has made none on the way, and each of its steps has found what it
was looking for. What a parser assures is a property of its result in that case. The property of a step may rest on what the parser was
given, which is then its premise; a step that is sure to report assures anything.
-/

namespace GoSyntax

open Parse

/-- If the parser ends without reports, there were none before, and its result has this property. -/
def Assures {α : Type} (P : α → Prop) (f : Parse α) : Prop := ∀ c, (f c).2.log = #[] → c.log = #[] ∧ P (f c).1

/-- A pass of a loop collects items with this property if all items behind it have it, should those before it do. -/
def Collecting {α : Type} (P : α → Prop) (items : Array α) (s : ForInStep (Array α)) : Prop :=
  (∀ a ∈ items, P a) → ∀ a ∈ s.value, P a

namespace Assures

variable {α β : Type} {P P' : α → Prop} {Q : β → Prop} {f g : Parse α}

theorem pure {a : α} (h : P a) : Assures P (Pure.pure a) := fun _ hlog => ⟨hlog, h⟩

/-- What is assured at first is a premise of what is done next. -/
theorem bind {k : α → Parse β} (hf : Assures P f) (hk : ∀ a, Assures (fun b => P a → Q b) (k a)) : Assures Q (f >>= k) := by
  intro c hlog
  obtain ⟨hnext, hQ⟩ := hk (f c).1 (f c).2 hlog
  obtain ⟨hstart, hP⟩ := hf c hnext
  exact ⟨hstart, hQ hP⟩

/-- What a step on the way assures may be forgotten. -/
theorem step {k : α → Parse β} (hf : Assures P f) (hk : ∀ a, Assures Q (k a)) : Assures Q (f >>= k) := by
  refine hf.bind fun a c hlog => ?_
  obtain ⟨hnext, hQ⟩ := hk a c hlog
  exact ⟨hnext, fun _ => hQ⟩

theorem weaken (h : Assures P f) (hP : ∀ a, P a → P' a) : Assures P' f := by
  intro c hlog
  obtain ⟨hstart, hf⟩ := h c hlog
  exact ⟨hstart, hP _ hf⟩

theorem map {r : α → β} (hf : Assures P f) (hr : ∀ a, P a → Q (r a)) : Assures Q (r <$> f) := hf.bind fun a => pure (hr a)

theorem ite {φ : Prop} [Decidable φ] (hf : Assures P f) (hg : Assures P g) : Assures P (if φ then f else g) := by
  split
  · exact hf
  · exact hg

theorem orM {f g : Parse Bool} (hf : Assures (fun _ => True) f) (hg : Assures (fun _ => True) g) :
    Assures (fun _ => True) (f <||> g) := by
  refine hf.step fun b => ?_
  cases b with
  | true => exact pure trivial
  | false => exact hg

theorem andM {f g : Parse Bool} (hf : Assures (fun _ => True) f) (hg : Assures (fun _ => True) g) :
    Assures (fun _ => True) (f <&&> g) := by
  refine hf.step fun b => ?_
  cases b with
  | true => exact hg
  | false => exact pure trivial

/-! ## Steps -/

theorem peek (k : Nat) : Assures (fun _ => True) (Parse.peek k) := by
  intro c hlog
  exact ⟨Cursor.log_eq_empty_of_log (Cursor.log_peek k c) hlog, trivial⟩

theorem current : Assures (fun _ => True) Parse.current := peek 0

theorem consume : Assures (fun _ => True) Parse.consume := by
  intro c hlog
  exact ⟨Cursor.log_eq_empty_of_log (Cursor.log_consume c) hlog, trivial⟩

theorem reports : Assures (fun _ => True) Parse.reports := fun _ hlog => ⟨hlog, trivial⟩

/-- A report is never the end of a parser that reports nothing. -/
theorem report (fault : Fault) (loc : Location) : Assures (fun _ => False) (Parse.report fault loc) := fun _ hlog =>
  absurd hlog Array.push_ne_empty

/-! ## Loops -/

/-- What holds before a pass holds again behind it, and more may hold behind it than at the start. -/
theorem passes {I J : α → Prop} {pass : α → Parse (ForInStep α)} (hJ : ∀ a, J a → I a)
    (hpass : ∀ a, Assures (fun s => I a → J s.value) (pass a)) (ns : List (Noted Token)) (a : α) :
    Assures (fun b => I a → J b) (Parse.passes pass ns a) := by
  induction ns generalizing a with
  | nil =>
    refine (hpass a).bind fun s => pure ?_
    exact id
  | cons n ns ih =>
    refine (hpass a).bind fun s => ?_
    cases s with
    | yield a' => exact (ih a').weaken fun b hb hstep ha => hb (hJ _ (hstep ha))
    | done a' => exact pure id

/-- A loop keeps its invariant; with a stronger one behind each pass it assures that one, as there is at least one pass. -/
theorem loop {I J : α → Prop} {pass : α → Parse (ForInStep α)} (hJ : ∀ a, J a → I a)
    (hpass : ∀ a, Assures (fun s => I a → J s.value) (pass a)) (start : α) :
    Assures (fun b => I start → J b) (Parse.loop start pass) := fun c => passes hJ hpass c.feed.items start c

/-- A loop collects what its passes collect. -/
theorem collect {pass : Array α → Parse (ForInStep (Array α))} (hpass : ∀ items, Assures (Collecting P items) (pass items)) :
    Assures (fun items => ∀ a ∈ items.toList, P a) (Parse.loop #[] pass) := by
  refine (loop (I := fun items => ∀ a ∈ items, P a) (fun _ => id) hpass #[]).weaken ?_
  intro items hitems
  simpa using hitems

/-- What has been collected and one more item. -/
theorem collecting_push {items : Array α} {a : α} {s : ForInStep (Array α)} (hs : s.value = items.push a) (ha : P a) :
    Collecting P items s := by
  intro hitems
  rw [hs]
  exact Array.forall_mem_push.2 ⟨ha, hitems⟩

/-! ## Tokens -/

theorem isAt (kind : TokenKind) : Assures (fun _ => True) (Parse.isAt kind) := current.step fun _ => pure trivial

/-- Behind a look at the next token, the one branch may rely on its kind. -/
theorem ifAt {kind : TokenKind} (hg : Assures P g)
    (hf : ∀ c : Cursor, c.here.kind.sameKind kind = true → (f c).2.log = #[] → c.log = #[] ∧ P (f c).1) :
    Assures P (do if ← Parse.isAt kind then f else g) := by
  intro c hlog
  have hhere : (Parse.isAt kind c).2.here = c.here := Cursor.here_peek 0 c
  rw [bind_apply] at hlog ⊢
  cases hkind : (Parse.isAt kind c).1 with
  | false =>
    rw [hkind, if_neg Bool.false_ne_true] at hlog
    obtain ⟨hnext, hP⟩ := hg _ hlog
    exact ⟨(isAt kind c hnext).1, hP⟩
  | true =>
    rw [hkind, if_pos rfl] at hlog
    obtain ⟨hnext, hP⟩ := hf _ (by rw [hhere]; exact hkind) hlog
    exact ⟨(isAt kind c hnext).1, hP⟩

theorem accept (kind : TokenKind) : Assures (fun _ => True) (Parse.accept kind) :=
  (isAt kind).step fun _ => .ite (consume.step fun _ => pure trivial) (pure trivial)

/-- What must be well or be reported is well. -/
theorem reportUnless (ok : Bool) (fault : Fault) (loc : Location) :
    Assures (fun _ => ok = true) (Parse.reportUnless ok fault loc) := by
  cases ok with
  | true => exact pure rfl
  | false => exact (report fault loc).weaken fun _ h => h.elim

theorem reportHere (fault : String → Fault) : Assures (fun _ => False) (Parse.reportHere fault) := current.step fun _ => report _ _

theorem reportExpected (expected : String) : Assures (fun _ => False) (Parse.reportExpected expected) := reportHere _

theorem expect (kind : TokenKind) : Assures (fun _ => True) (Parse.expect kind) :=
  current.step fun _ => (accept kind).step fun _ => .ite (pure trivial) ((reportExpected _).step fun _ => pure trivial)

theorem skipTo (stop : TokenSet) : Assures (fun _ => True) (Parse.skipTo stop) := by
  refine (loop (I := fun _ => True) (J := fun _ => True) (fun _ => id) (fun _ => ?_) ()).weaken fun _ _ => trivial
  exact current.step fun _ => .ite (pure fun _ => trivial) (consume.step fun _ => pure fun _ => trivial)

/-! ## Lists -/

theorem separated {item : Parse α} (h : Assures P item) :
    Assures (fun items => P items.1 ∧ ∀ a ∈ items.2, P a) (Parse.separated item) := by
  have hpass : ∀ items : Array α, Assures (Collecting P items) (separatedPass item items) := by
    intro items
    exact (accept _).step fun _ => .ite (h.bind fun a => pure (collecting_push rfl)) (pure id)
  refine h.bind fun first => (collect hpass).bind fun others => pure ?_
  intro hothers hfirst
  exact ⟨hfirst, hothers⟩

theorem members {member : Parse α} (close : TokenKind) (h : Assures P member) :
    Assures (fun members => ∀ a ∈ members, P a) (Parse.members close member) := by
  have hpass : ∀ list : Array α, Assures (Collecting P list) (memberPass close member list) := by
    intro list
    refine current.step fun _ => .ite (pure id) (h.bind fun a => ?_)
    exact (accept _).step fun _ => .ite (pure (collecting_push rfl)) (pure (collecting_push rfl))
  exact (collect hpass).bind fun list => pure id

/-! ## Names and literals -/

theorem name : Assures (fun _ => True) Parse.name := by
  refine current.step fun here => ?_
  split
  · exact consume.step fun _ => pure trivial
  · exact (reportHere _).step fun _ => pure trivial

theorem names : Assures (· ≠ []) Parse.names := (separated name).step fun (_, _) => pure (List.cons_ne_nil _ _)

theorem literal? : Assures (fun _ => True) Parse.literal? := by
  refine current.step fun here => ?_
  split
  · exact consume.step fun _ => pure trivial
  · exact pure trivial

theorem stringLiteral? : Assures (fun _ => True) Parse.stringLiteral? := current.step fun _ => .ite literal? (pure trivial)

end Assures

end GoSyntax
