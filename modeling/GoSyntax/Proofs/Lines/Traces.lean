import GoSyntax.Proofs.Lines.Parts
import GoSyntax.Proofs.Reached

/-!
# Tracing a source

A parser traces its source if the places of what it gives go along those it was given and those of the tokens it takes, and if each report
that it adds stands at one of these places too. Places may be dropped, as after an error, and a place may be that of several nodes, as
where a node starts with its first part; but none is made up, and none is left behind one that comes later in the source. What holds of
the parts of a parser holds of the whole, with a rule for each way to put parsers together.
-/

namespace GoSyntax

open Parse

namespace Cursor

/-- Where the tokens left stand, the end of the input last. -/
def places (c : Cursor) : List Location := c.feed.values.map Token.loc

/-- All that has been reported, and what is to be reported when the tokens left are looked at. -/
def met (c : Cursor) : List Diagnostic := c.log.toList ++ c.feed.pending

end Cursor

/-- What a parser that was given these places has done, if it has found those: no token stands behind one that was taken, the places go
along, and each report has been met before or stands at a place. -/
structure Traced (given : List Location) (before after : Cursor) (found : List Location) : Prop where
  rest : after.places <:+ before.places
  order : Along (found ++ after.places) (given ++ before.places)
  reports : ∀ d ∈ after.met, d ∈ before.met ∨ d.loc ∈ given ++ before.places

/-- The parser traces its source when it is given these places. -/
def Traces {α : Type} [HasPlaces α] (given : List Location) (f : Parse α) : Prop := ∀ c, Traced given c (f c).2 (places (f c).1)

/-! ## What is done in turn -/

namespace Traced

variable {given given' found found' : List Location} {c c' c'' : Cursor}

/-- Nothing has been done. -/
theorem still (h : Along found given) : Traced given c c found :=
  ⟨List.suffix_refl _, h.appendRight _, fun _ hd => .inl hd⟩

/-- What is found at first is given to what is done next. -/
theorem trans (h : Traced given c c' found) (h' : Traced found c' c'' found') : Traced given c c'' found' := by
  refine ⟨h'.rest.trans h.rest, h'.order.trans h.order, fun d hd => ?_⟩
  rcases h'.reports d hd with hd | hd
  · exact h.reports d hd
  · exact .inr (h.order.subset hd)

/-- What was given may be kept in front of what is found. -/
theorem keep (h : Traced [] c c' found) (given : List Location) : Traced given c c' (given ++ found) := by
  refine ⟨h.rest, ?_, fun d hd => (h.reports d hd).imp_right fun hd => List.mem_append_right _ hd⟩
  rw [List.append_assoc]
  exact h.order.appendLeft given

/-- What is found may be dropped, and what was given is kept. -/
theorem drop (h : Traced given c c' found) : Traced given c c' given := by
  obtain ⟨taken, htaken⟩ := h.rest
  refine ⟨h.rest, ?_, h.reports⟩
  rw [← htaken]
  exact ((Along.refl _).behind taken).appendLeft given

theorem weaken (h : Traced given c c' found) (hgiven : Along given given') : Traced given' c c' found := by
  have hplaces : Along (given ++ c.places) (given' ++ c.places) := hgiven.appendRight _
  exact ⟨h.rest, h.order.trans hplaces, fun d hd => (h.reports d hd).imp_right fun hd => hplaces.subset hd⟩

end Traced

namespace Traces

variable {α β : Type} [HasPlaces α] [HasPlaces β] {given given' : List Location} {f g : Parse α}

theorem pure {a : α} (h : Along (places a) given) : Traces given (Pure.pure a) := fun _ => .still h

/-- What was given before a parser is kept, and what it gives comes behind it. -/
theorem bind {k : α → Parse β} (hf : Traces [] f) (hk : ∀ a, Traces (given ++ places a) (k a)) : Traces given (f >>= k) := by
  intro c
  exact ((hf c).keep given).trans (hk (f c).1 (f c).2)

/-- A parser may be given something to put its result together with. -/
theorem bindGiven {k : α → Parse β} (hf : Traces given f) (hk : ∀ a, Traces (places a) (k a)) : Traces given (f >>= k) := by
  intro c
  exact (hf c).trans (hk (f c).1 (f c).2)

/-- A parser may be no more than a step on the way, whatever it gives. -/
theorem step {k : α → Parse β} (hf : Traces given f) (hk : ∀ a, Traces given (k a)) : Traces given (f >>= k) := by
  intro c
  exact (hf c).drop.trans (hk (f c).1 (f c).2)

theorem weaken (h : Traces given f) (hgiven : Along given given') : Traces given' f := fun c => (h c).weaken hgiven

/-- A parser that needs nothing may be given anything. -/
theorem among (h : Traces [] f) : Traces given f := h.weaken (.nil _)

/-- A parser that takes no token and reports only at places it was given is a step whose result is known. -/
theorem knowing {γ : Type} {P : γ → Prop} {f : Parse γ} {k : γ → Parse β}
    (hf : ∀ c, (f c).2.feed = c.feed ∧ (∀ d ∈ (f c).2.log.toList, d ∈ c.log.toList ∨ d.loc ∈ given) ∧ P (f c).1)
    (hk : ∀ a, P a → Traces given (k a)) : Traces given (f >>= k) := by
  intro c
  obtain ⟨hfeed, hlog, hP⟩ := hf c
  have hstill : Traced given c (f c).2 given := by
    refine ⟨?_, ?_, fun d hd => ?_⟩
    · rw [Cursor.places, hfeed]
      exact List.suffix_refl _
    · rw [Cursor.places, hfeed]
      exact .refl _
    · rw [Cursor.met, hfeed] at hd
      rcases List.mem_append.1 hd with hd | hd
      · exact (hlog d hd).imp (fun hd => List.mem_append_left _ hd) fun hd => List.mem_append_left _ hd
      · exact .inl (List.mem_append_right _ hd)
  exact hstill.trans (hk (f c).1 hP (f c).2)

theorem map {r : α → β} (hf : Traces given f) (hr : ∀ a, Along (places (r a)) (places a)) : Traces given (r <$> f) :=
  hf.bindGiven fun a => pure (hr a)

theorem ite {φ : Prop} [Decidable φ] (hf : Traces given f) (hg : Traces given g) : Traces given (if φ then f else g) := by
  split
  · exact hf
  · exact hg

theorem orM {f g : Parse Bool} (hf : Traces given f) (hg : Traces given g) : Traces given (f <||> g) := by
  refine hf.step fun b => ?_
  cases b with
  | true => exact pure (.nil _)
  | false => exact hg

theorem andM {f g : Parse Bool} (hf : Traces given f) (hg : Traces given g) : Traces given (f <&&> g) := by
  refine hf.step fun b => ?_
  cases b with
  | true => exact hg
  | false => exact pure (.nil _)

/-! ## Steps -/

theorem traced_peek (k : Nat) (c : Cursor) : Traced [] c (Parse.peek k c).2 [] := by
  have hplaces : (Parse.peek k c).2.places = c.places := congrArg (List.map Token.loc) (Feed.values_look c.feed (k + 1))
  have hmet : (Parse.peek k c).2.met = c.met := by
    rw [Cursor.met, Cursor.log_peek, List.append_assoc]
    exact congrArg (c.log.toList ++ ·) (Feed.look_append_pending c.feed (k + 1))
  refine ⟨?_, ?_, fun d hd => .inl (hmet ▸ hd)⟩
  · rw [hplaces]
  · rw [hplaces]
    exact .refl _

/-- The token that comes next stands at the first of the places left. -/
theorem exists_places (c : Cursor) : ∃ rest, c.places = c.here.loc :: rest := by
  obtain ⟨⟨items, last⟩, log, hscanned⟩ := c
  cases items with
  | nil => exact ⟨[], rfl⟩
  | cons n ns => exact ⟨_, rfl⟩

/-- Looking at the token that comes next finds its place. -/
theorem current : Traces [] Parse.current := by
  intro c
  obtain ⟨hrest, horder, hreports⟩ : Traced [] c (Parse.current c).2 [] := traced_peek 0 c
  obtain ⟨rest, hplaces⟩ := exists_places (Parse.current c).2
  have hhere : (Parse.current c).2.here = c.here := Cursor.here_peek 0 c
  refine ⟨hrest, Along.trans ?_ horder, hreports⟩
  rw [hplaces, hhere]
  exact .stop (.refl _)

/-- Whoever looks further ahead is told no more than what kind of token is there. -/
theorem ahead {k : Token → Parse β} (n : Nat) (hk : ∀ t, Traces given (k t)) : Traces given (Parse.peek n >>= k) := by
  intro c
  have hpeek : Traced given c (Parse.peek n c).2 given := by simpa using (traced_peek n c).keep given
  exact hpeek.trans (hk _ (Parse.peek n c).2)

/-- Taking a token finds its place; the end of the input stays where it is. -/
theorem consume : Traces [] Parse.consume := by
  intro c
  obtain ⟨⟨items, last⟩, log, hscanned⟩ := c
  cases items with
  | nil =>
    refine ⟨List.suffix_refl _, ?_, fun d hd => .inl ?_⟩
    · exact .stop (.refl _)
    · simpa [Cursor.met, Parse.consume, Feed.look, Feed.lookItems, Feed.tail, Feed.pending, Noted.silent] using hd
  | cons n ns =>
    refine ⟨List.suffix_cons _ _, ?_, fun d hd => .inl ?_⟩
    · exact .refl _
    · simpa [Cursor.met, Parse.consume, Feed.look, Feed.lookItems, Feed.tail, Feed.pending, Feed.cons] using hd

theorem report (fault : Fault) {loc : Location} (h : loc ∈ given) : Traces given (Parse.report fault loc) := by
  intro c
  refine ⟨List.suffix_refl _, (Along.refl _).behind given, fun d hd => ?_⟩
  have hmet : d ∈ c.log.toList ++ [⟨fault, loc⟩] ++ c.feed.pending := by
    rw [← Array.toList_push]
    exact hd
  simp only [List.mem_append, List.mem_singleton] at hmet
  rcases hmet with (hd | rfl) | hd
  · exact .inl (List.mem_append_left _ hd)
  · exact .inr (List.mem_append_left _ h)
  · exact .inl (List.mem_append_right _ hd)

theorem reports : Traces given Parse.reports := fun _ => .still (.nil _)

/-! ## Loops -/

theorem passes {pass : α → Parse (ForInStep α)} (h : ∀ a, Traces (places a) (pass a)) (ns : List (Noted Token)) (a : α) :
    Traces (places a) (Parse.passes pass ns a) := by
  induction ns generalizing a with
  | nil => exact (h a).bindGiven fun _ => pure (.refl _)
  | cons n ns ih =>
    refine (h a).bindGiven fun next => ?_
    cases next with
    | yield a => exact ih a
    | done a => exact pure (.refl _)

/-- A loop traces what its passes trace. -/
theorem loop {pass : α → Parse (ForInStep α)} (h : ∀ a, Traces (places a) (pass a)) (start : α) :
    Traces (places start) (Parse.loop start pass) := fun c => passes h c.feed.items start c

/-! ## Tokens -/

theorem isAt (kind : TokenKind) : Traces given (Parse.isAt kind) := current.among.step fun _ => pure (.nil _)

theorem isAtEnd : Traces given Parse.isAtEnd := isAt _

theorem accept (kind : TokenKind) : Traces given (Parse.accept kind) :=
  (isAt kind).step fun _ => .ite (consume.among.step fun _ => pure (.nil _)) (pure (.nil _))

theorem reportUnless (ok : Bool) (fault : Fault) {loc : Location} (h : loc ∈ given) : Traces given (Parse.reportUnless ok fault loc) :=
  .ite (pure (.nil _)) (report fault h)

theorem reportHere (fault : String → Fault) : Traces given (Parse.reportHere fault) :=
  current.bind fun _ => report _ (by simp)

theorem reportExpected (expected : String) : Traces given (Parse.reportExpected expected) := reportHere _

theorem expect (kind : TokenKind) : Traces [] (Parse.expect kind) := by
  refine current.bind fun here => (accept kind).step fun _ => .ite (pure ?_) ((reportExpected _).step fun _ => pure ?_)
  · exact .refl _
  · exact .refl _

theorem skipTo (stop : TokenSet) : Traces given (Parse.skipTo stop) := by
  refine (loop (fun _ => ?_) ()).among
  exact current.step fun _ => .ite (pure (.nil _)) (consume.step fun _ => pure (.nil _))

/-! ## Lists -/

theorem separated {item : Parse α} (h : Traces [] item) : Traces [] (Parse.separated item) := by
  refine h.bind fun first => bind (loop (fun items => ?_) #[]) fun others => pure (by simp)
  exact (accept _).step fun _ => .ite (h.bind fun item => pure (by simp)) (pure (by simp))

theorem members {member : Parse α} (close : TokenKind) (h : Traces [] member) : Traces [] (Parse.members close member) := by
  refine bind (loop (fun items => ?_) #[]) fun items => pure (by simp)
  refine current.among.step fun _ => .ite (pure (by simp)) (h.bind fun member => (accept _).step fun _ => ?_)
  exact .ite (pure (by simp)) (pure (by simp))

/-! ## Names and literals -/

theorem name : Traces [] Parse.name := by
  refine current.bind fun here => ?_
  split
  · exact consume.among.step fun _ => pure (by simp)
  · exact (reportHere _).step fun _ => pure (by simp)

theorem names : Traces [] Parse.names := (separated name).bind fun (_, _) => pure (by simp)

theorem literal? : Traces [] Parse.literal? := by
  refine current.bind fun here => ?_
  split
  · exact consume.among.step fun _ => pure (by simp)
  · exact pure (.nil _)

theorem stringLiteral? : Traces [] Parse.stringLiteral? := current.step fun _ => .ite literal? (pure (.nil _))

end Traces

end GoSyntax
