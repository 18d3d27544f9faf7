import GoSyntax.Proofs.Leaves.Parts
import GoSyntax.Proofs.Reached

/-!
# Gathering leaves

A parser gathers leaves if those of what it gives are, in this order, among the leaves it was given and those of the tokens it takes.
So it may drop leaves, as it does after an error, but it makes none and never turns two around. A parser that is put together of such
parsers is one, with a rule for each way to do that; what matters is that each part gets what has been gathered before it, and that
the result is put together in the order of reading.
-/

namespace GoSyntax

open Parse

/-- The leaves of what the parser gives are among those gathered before and those of the tokens it takes, in order. -/
def Gathers {α : Type} [HasLeaves α] (before : List TokenKind) (f : Parse α) : Prop :=
  ∀ c, ∃ taken, c.kinds = taken ++ (f c).2.kinds ∧ (leaves (f c).1).Sublist (before ++ taken.filterMap TokenKind.leaf?)

/-- The same where this token comes next. -/
def GathersAt {α : Type} [HasLeaves α] (here : Token) (before : List TokenKind) (f : Parse α) : Prop :=
  ∀ c, c.here = here → ∃ taken, c.kinds = taken ++ (f c).2.kinds
    ∧ (leaves (f c).1).Sublist (before ++ taken.filterMap TokenKind.leaf?)

namespace Gathers

variable {α β : Type} [HasLeaves α] [HasLeaves β] {before before' : List TokenKind} {f g : Parse α}

theorem pure {a : α} (h : (leaves a).Sublist before) : Gathers before (Pure.pure a) := fun _ =>
  ⟨[], rfl, (List.append_nil before).symm ▸ h⟩

/-- What has been gathered before a parser is kept, and what it gives comes behind it. -/
theorem bind {k : α → Parse β} (hf : Gathers [] f) (hk : ∀ a, Gathers (before ++ leaves a) (k a)) : Gathers before (f >>= k) := by
  intro c
  obtain ⟨taken, heq, hsub⟩ := hf c
  obtain ⟨taken', heq', hsub'⟩ := hk (f c).1 (f c).2
  refine ⟨taken ++ taken', by rw [heq, heq', List.append_assoc]; rfl, hsub'.trans ?_⟩
  rw [List.filterMap_append, ← List.append_assoc]
  exact (hsub.append_left before).append_right _

/-- A parser may be given something to put its result together with. -/
theorem bindGiven {k : α → Parse β} (hf : Gathers before f) (hk : ∀ a, Gathers (leaves a) (k a)) : Gathers before (f >>= k) := by
  intro c
  obtain ⟨taken, heq, hsub⟩ := hf c
  obtain ⟨taken', heq', hsub'⟩ := hk (f c).1 (f c).2
  refine ⟨taken ++ taken', by rw [heq, heq', List.append_assoc]; rfl, hsub'.trans ?_⟩
  rw [List.filterMap_append, ← List.append_assoc]
  exact hsub.append_right _

/-- A parser that gives nothing with leaves is only a step on the way. -/
theorem step {γ : Type} [Leafless γ] {f : Parse γ} {k : γ → Parse β} (hf : Gathers [] f) (hk : ∀ a, Gathers before (k a)) :
    Gathers before (f >>= k) :=
  hf.bind fun a => by simpa using hk a

/-- A parser that takes no token may turn something that has been gathered before into something with no more leaves. -/
theorem still {given : List TokenKind} {k : α → Parse β}
    (hf : ∀ c, (f c).2.kinds = c.kinds ∧ (leaves (f c).1).Sublist given)
    (hk : ∀ a, (leaves a).Sublist given → Gathers before (k a)) : Gathers before (f >>= k) := by
  intro c
  obtain ⟨heq, hleaves⟩ := hf c
  obtain ⟨taken, htaken, hsub⟩ := hk (f c).1 hleaves (f c).2
  exact ⟨taken, heq ▸ htaken, hsub⟩

theorem map {r : α → β} (hf : Gathers before f) (hr : ∀ a, (leaves (r a)).Sublist (leaves a)) : Gathers before (r <$> f) :=
  hf.bindGiven fun a => pure (hr a)

theorem weaken (h : Gathers before f) (hsub : before.Sublist before') : Gathers before' f := by
  intro c
  obtain ⟨taken, heq, hleaves⟩ := h c
  exact ⟨taken, heq, hleaves.trans (hsub.append_right _)⟩

theorem ite {φ : Prop} [Decidable φ] (hf : Gathers before f) (hg : Gathers before g) : Gathers before (if φ then f else g) := by
  split
  · exact hf
  · exact hg

theorem orM {f g : Parse Bool} (hf : Gathers [] f) (hg : Gathers [] g) : Gathers [] (f <||> g) :=
  hf.step fun b => by
    cases b with
    | true => exact pure (List.nil_sublist _)
    | false => exact hg

theorem andM {f g : Parse Bool} (hf : Gathers [] f) (hg : Gathers [] g) : Gathers [] (f <&&> g) :=
  hf.step fun b => by
    cases b with
    | true => exact hg
    | false => exact pure (List.nil_sublist _)

/-! ## Steps -/

theorem peek (k : Nat) : Gathers [] (Parse.peek k) := fun c => ⟨[], (Cursor.kinds_peek k c).symm, List.nil_sublist _⟩

theorem current : Gathers [] Parse.current := peek 0

/-- Taking a token gathers its leaf. -/
theorem taken_consume (c : Cursor) : ∃ taken, c.kinds = taken ++ (Parse.consume c).2.kinds
    ∧ taken.filterMap TokenKind.leaf? = c.here.kind.leaf?.toList := by
  rw [Cursor.kinds_consume]
  rcases c.kinds_cases with ⟨hhere, hkinds⟩ | ⟨ks, -, hkinds⟩
  · exact ⟨[], by rw [hkinds]; rfl, by rw [hhere]; rfl⟩
  · refine ⟨[c.here.kind], by rw [hkinds]; rfl, ?_⟩
    rw [List.filterMap_cons, List.filterMap_nil]
    cases c.here.kind.leaf? <;> rfl

theorem consume : Gathers [] Parse.consume := by
  intro c
  obtain ⟨taken, heq, -⟩ := taken_consume c
  exact ⟨taken, heq, List.nil_sublist _⟩

theorem report (fault : Fault) (loc : Location) : Gathers [] (Parse.report fault loc) := fun _ => ⟨[], rfl, List.nil_sublist _⟩

theorem reports : Gathers [] Parse.reports := fun _ => ⟨[], rfl, List.nil_sublist _⟩

/-- What is read next may depend on the token that comes next, and a name that is there is no dot. -/
theorem currentAt {k : Token → Parse β} (h : ∀ here, here.kind = .eof ∨ here.kind.IsScanned → GathersAt here before (k here)) :
    Gathers before (Parse.current >>= k) := by
  intro c
  have hhere : c.here.kind = .eof ∨ c.here.kind.IsScanned := c.kinds_cases.imp And.left fun ⟨_, hscanned, _⟩ => hscanned
  obtain ⟨taken, heq, hsub⟩ := h c.here hhere (Parse.current c).2 (Cursor.here_peek 0 c)
  exact ⟨taken, (Cursor.kinds_peek 0 c).symm.trans heq, hsub⟩

theorem at_ (h : Gathers before f) (here : Token) : GathersAt here before f := fun c _ => h c

theorem consumeAt {here : Token} {k : Token → Parse β} (h : ∀ t, Gathers (before ++ here.kind.leaf?.toList) (k t)) :
    GathersAt here before (Parse.consume >>= k) := by
  rintro c rfl
  obtain ⟨taken, heq, hleaf⟩ := taken_consume c
  obtain ⟨taken', heq', hsub⟩ := h (Parse.consume c).1 (Parse.consume c).2
  refine ⟨taken ++ taken', by rw [heq, heq', List.append_assoc]; rfl, ?_⟩
  rw [List.filterMap_append, hleaf, ← List.append_assoc]
  exact hsub

/-! ## Loops -/

theorem passes {pass : α → Parse (ForInStep α)} (h : ∀ a, Gathers (leaves a) (pass a)) (ns : List (Noted Token)) (a : α) :
    Gathers (leaves a) (Parse.passes pass ns a) := by
  induction ns generalizing a with
  | nil => exact (h a).bindGiven fun _ => pure (List.Sublist.refl _)
  | cons n ns ih =>
    refine (h a).bindGiven fun next => ?_
    cases next with
    | yield a => exact ih a
    | done a => exact pure (List.Sublist.refl _)

/-- A loop gathers what its passes gather. -/
theorem loop {pass : α → Parse (ForInStep α)} (h : ∀ a, Gathers (leaves a) (pass a)) (start : α) :
    Gathers (leaves start) (Parse.loop start pass) := fun c => passes h c.feed.items start c

/-! ## Tokens -/

theorem isAt (kind : TokenKind) : Gathers [] (Parse.isAt kind) := current.step fun _ => pure (List.nil_sublist _)

theorem isAtEnd : Gathers [] Parse.isAtEnd := isAt _

theorem accept (kind : TokenKind) : Gathers [] (Parse.accept kind) :=
  (isAt kind).step fun _ => .ite (consume.step fun _ => pure (List.nil_sublist _)) (pure (List.nil_sublist _))

theorem reportUnless (ok : Bool) (fault : Fault) (loc : Location) : Gathers [] (Parse.reportUnless ok fault loc) :=
  .ite (pure (List.nil_sublist _)) (report fault loc)

theorem reportHere (fault : String → Fault) : Gathers [] (Parse.reportHere fault) := current.step fun _ => report _ _

theorem reportExpected (expected : String) : Gathers [] (Parse.reportExpected expected) := reportHere _

theorem expect (kind : TokenKind) : Gathers [] (Parse.expect kind) :=
  current.step fun _ => (accept kind).step fun _ =>
    .ite (pure (List.nil_sublist _)) ((reportExpected _).step fun _ => pure (List.nil_sublist _))

theorem skipTo (stop : TokenSet) : Gathers [] (Parse.skipTo stop) :=
  loop (fun _ => current.step fun _ => .ite (pure (List.nil_sublist _)) (consume.step fun _ => pure (List.nil_sublist _))) ()

/-! ## Lists -/

theorem separated {item : Parse α} (h : Gathers [] item) : Gathers [] (Parse.separated item) := by
  refine h.bind fun first => bind (loop (fun items => ?_) #[]) fun others => pure (by simp)
  exact (accept _).step fun _ => .ite (h.bind fun item => pure (by simp)) (pure (List.Sublist.refl _))

theorem members {member : Parse α} (close : TokenKind) (h : Gathers [] member) : Gathers [] (Parse.members close member) := by
  refine bind (loop (fun items => ?_) #[]) fun items => pure (by simp)
  exact current.step fun _ => .ite (pure (List.Sublist.refl _)) (h.bind fun member => (accept _).step fun _ =>
    .ite (pure (by simp)) (pure (by simp)))

/-! ## Names and literals -/

/-- A name that is read from the source stands for its own token. -/
theorem leafOfName_eq {text : String} (h : TokenKind.ident text = .eof ∨ (TokenKind.ident text).IsScanned) :
    leafOfName text = (TokenKind.ident text).leaf? := by
  rw [leafOfName, TokenKind.leaf?]
  split
  · rfl
  · rcases h with h | h
    · nomatch h
    · rw [if_neg (TokenKind.ne_dot_of_isScanned h)]

theorem leafOfLiteral_sublist (value : Constant) : (leafOfLiteral value).toList.Sublist (TokenKind.literal value).leaf?.toList := by
  rw [leafOfLiteral]
  split
  · exact List.nil_sublist _
  · exact List.Sublist.refl _

theorem name : Gathers [] Parse.name := by
  refine currentAt fun here hhere => ?_
  split
  · next text hkind =>
    rw [hkind] at hhere
    refine consumeAt fun _ => pure ?_
    rw [Name.leaves_eq, leafOfName_eq hhere, hkind]
    exact List.Sublist.refl _
  · exact ((reportHere _).step fun _ => pure (List.nil_sublist _)).at_ here

theorem names : Gathers [] Parse.names := (separated name).bind fun (_, _) => pure (List.Sublist.refl _)

theorem literal? : Gathers [] Parse.literal? := by
  refine currentAt fun here hhere => ?_
  split
  · next value hkind =>
    refine consumeAt fun _ => pure ?_
    rw [leaves_some, Literal.leaves_eq, hkind]
    exact leafOfLiteral_sublist value
  · exact (pure (List.nil_sublist _)).at_ here

theorem stringLiteral? : Gathers [] Parse.stringLiteral? :=
  current.step fun _ => .ite literal? (pure (List.nil_sublist _))

end Gathers

end GoSyntax
