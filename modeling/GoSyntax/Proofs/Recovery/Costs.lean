import GoSyntax.Proofs.TwoRuns.Reports

/-!
# What the members of a list cost

The members of a list are read one in each pass of a loop. What a pass reports about the order of the tokens is its cost, and it has two
parts: what the member reports by itself, and what the list adds because the member does not end as it should, or because none starts
where one should. The costs of all passes, one after another, are what the list reports.

In a list of statements and in a group of declarations the list adds nothing to a member that has reported something. The body of a
struct or an interface adds a report to each member that neither `;` nor `}` follows, whatever that member has reported.
-/

namespace GoSyntax

open Parse

/-! ## What is reported between two cursors -/

namespace Cursor

/-- What is reported about the order of the tokens on the way from one cursor to another. -/
def since (c d : Cursor) : List Diagnostic := syntactic (d.log.toList.drop c.log.size)

/-- A run has come from one cursor to another, has reported this about the order of the tokens, and has nothing else to report than what
the text reports by itself. -/
structure Reports (c : Cursor) (ds : List Diagnostic) (d : Cursor) : Prop where
  made : ∃ made, c.Makes made d ∧ syntactic made = ds
  lexical : Lexical d.feed.pending

namespace Reports

variable {c d e : Cursor} {ds ds' : List Diagnostic}

theorem refl (h : Lexical c.feed.pending) : c.Reports [] c := ⟨⟨[], .refl c, rfl⟩, h⟩

theorem trans (h : c.Reports ds d) (h' : d.Reports ds' e) : c.Reports (ds ++ ds') e := by
  obtain ⟨made, hmade, rfl⟩ := h.made
  obtain ⟨more, hmore, rfl⟩ := h'.made
  exact ⟨⟨made ++ more, hmade.trans hmore, syntactic_append _ _⟩, h'.lexical⟩

/-- Behind a run that reports nothing the reports are those of what follows. -/
theorem then_quiet (h : c.Reports ds d) (h' : d.Reports [] e) : c.Reports ds e := by
  have htrans := h.trans h'
  rwa [List.append_nil] at htrans

theorem since_eq (h : c.Reports ds d) : c.since d = ds := by
  obtain ⟨made, hmade, rfl⟩ := h.made
  rw [since, hmade.log, ← Array.length_toList, List.drop_left]

/-- A run that has reported something about the order of the tokens has more reports than before. -/
theorem size_ne (h : c.Reports ds d) (hne : ds ≠ []) : d.log.size ≠ c.log.size := by
  obtain ⟨made, hmade, rfl⟩ := h.made
  rintro hsize
  rw [hmade.size_eq_iff.1 hsize] at hne
  exact hne rfl

theorem of_bonded {α : Type} {f : Parse α} [hf : Bonded .abreast 0 f f] (h : Lexical c.feed.pending) :
    ∃ ds, c.Reports ds (f c).2 := by
  have habreast := (hf.together (c, c) trivial c c (.refl ⟨.refl _, h, h⟩)).2
  obtain ⟨made, -, hmade, -⟩ := habreast.made
  exact ⟨_, ⟨made, hmade, rfl⟩, habreast.quieter.lexical⟩

end Reports

variable {c : Cursor}

/-- The reports between the start and the end of any parser that is bonded to itself. -/
theorem reports_since {α : Type} (f : Parse α) [Bonded .abreast 0 f f] (h : Lexical c.feed.pending) :
    c.Reports (c.since (f c).2) (f c).2 := by
  obtain ⟨ds, hds⟩ := Reports.of_bonded (f := f) h
  rwa [hds.since_eq]

theorem reports_current (h : Lexical c.feed.pending) : c.Reports [] (Parse.current c).2 :=
  ⟨⟨_, makes_peek h 0, (Feed.lexical_look h 1).1.syntactic_eq_nil⟩, (Feed.lexical_look h 1).2⟩

theorem reports_consume (h : Lexical c.feed.pending) : c.Reports [] (Parse.consume c).2 := by
  refine ⟨⟨_, makes_consume h, (Feed.lexical_look h 1).1.syntactic_eq_nil⟩, ?_⟩
  change Lexical (c.feed.look 1).2.tail.pending
  rw [pending_tail_look]
  exact (Feed.lexical_look h 1).2

theorem reports_isAt (h : Lexical c.feed.pending) (kind : TokenKind) : c.Reports [] (Parse.isAt kind c).2 := reports_current h

theorem reports_accept (h : Lexical c.feed.pending) (kind : TokenKind) : c.Reports [] (Parse.accept kind c).2 := by
  have hlooked := reports_current h
  rw [Parse.accept, bind_apply]
  split
  · exact hlooked.trans (reports_consume hlooked.lexical)
  · exact hlooked

theorem reports_reportHere (h : Lexical c.feed.pending) {fault : String → Fault} (hfault : ∀ found, (fault found).isLexical = false) :
    c.Reports [⟨fault c.here.kind.display, c.here.loc⟩] (Parse.reportHere fault c).2 := by
  have hlooked := reports_current h
  refine hlooked.trans ⟨⟨_, makes_report _ (hfault _) _, ?_⟩, hlooked.lexical⟩
  exact List.filter_cons_of_pos (by rw [Diagnostic.isLexical, hfault]; rfl)

theorem reports_skipPass (h : Lexical c.feed.pending) (stop : TokenSet) : c.Reports [] (skipPass stop () c).2 := by
  have hlooked := reports_current h
  rw [skipPass, bind_apply]
  split
  · exact hlooked
  · exact hlooked.trans (reports_consume hlooked.lexical)

/-- Skipping reports nothing about the order of the tokens. -/
theorem reports_skipTo (h : Lexical c.feed.pending) (stop : TokenSet) : c.Reports [] (skipTo stop c).2 := by
  obtain ⟨n, hn⟩ : ∃ n, n = c.kinds.length := ⟨_, rfl⟩
  induction n using Nat.strong_induction_on generalizing c with
  | _ n ih =>
    have hends := Productions.loopsEnd_full.skips stop
    have hpass := reports_skipPass h stop
    rw [skipTo, hends.unrolls, bind_apply]
    cases hr : (skipPass stop () c).1 with
    | done _ => exact hpass
    | yield _ => exact hpass.trans (ih _ (hn ▸ hends.advances _ _ _ hr) hpass.lexical rfl)

end Cursor

/-! ## Costs -/

/-- What a pass over a list reports about the order of the tokens: what the member that it reads reports by itself, if it reads one, and
what the list adds at the token behind that member. -/
structure Cost where
  own? : Option (List Diagnostic)
  behind : Token
  added : List Diagnostic
  deriving DecidableEq

namespace Cost

/-- All reports of a pass, in order. -/
def total (k : Cost) : List Diagnostic := k.own?.getD [] ++ k.added

/-- The cost of a pass from `c` to `d`, told the cursor behind the member that it reads. -/
def ofPass (c : Cursor) : Option Cursor → Cursor → Cost
  | some m, d => ⟨some (c.since m), m.here, m.since d⟩
  | none, d => ⟨none, c.here, c.since d⟩

/-- The list adds nothing to a member that has reported something, and at most one report to any other. -/
def OncePerMember (k : Cost) : Prop := k.added.length ≤ 1 ∧ ∀ own, k.own? = some own → own ≠ [] → k.added = []

end Cost

variable {α : Type} {pass : α → Parse (ForInStep α)} {member? : α → Cursor → Option Cursor}

/-- The passes of a loop and the cost of each. `member?` gives the cursor behind the member that a pass reads. -/
inductive Itemised (pass : α → Parse (ForInStep α)) (member? : α → Cursor → Option Cursor) : α → Cursor → List Cost → α × Cursor → Prop
  | done {a a' c} : (pass a c).1 = .done a' → Itemised pass member? a c [.ofPass c (member? a c) (pass a c).2] (a', (pass a c).2)
  | yield {a a' c costs r} : (pass a c).1 = .yield a' → Itemised pass member? a' (pass a c).2 costs r →
    Itemised pass member? a c (.ofPass c (member? a c) (pass a c).2 :: costs) r

/-- Every pass reports what its cost says, and its cost is as `Φ` says. -/
def Charges (pass : α → Parse (ForInStep α)) (member? : α → Cursor → Option Cursor) (Φ : Cost → Prop) : Prop :=
  ∀ a c, Lexical c.feed.pending → c.Reports (Cost.ofPass c (member? a c) (pass a c).2).total (pass a c).2
    ∧ Φ (.ofPass c (member? a c) (pass a c).2)

/-- The loop from a cursor is the run of its passes: their costs together are what the loop reports, and each is as `Φ` says. -/
def Bills (pass : α → Parse (ForInStep α)) (member? : α → Cursor → Option Cursor) (a : α) (c : Cursor) (Φ : Cost → Prop) : Prop :=
  ∃ costs, Itemised pass member? a c costs (loop a pass c) ∧ c.since (loop a pass c).2 = costs.flatMap Cost.total ∧ ∀ k ∈ costs, Φ k

/-- The passes of a loop are itemised: their costs together are what the loop reports, and what holds of the cost of every pass holds of
each of them. -/
theorem Parse.Ends.exists_itemised (h : Ends pass) {Φ : Cost → Prop} (hpass : Charges pass member? Φ) (a : α) (c : Cursor)
    (hc : Lexical c.feed.pending) : ∃ costs, Itemised pass member? a c costs (loop a pass c)
      ∧ c.Reports (costs.flatMap Cost.total) (loop a pass c).2 ∧ ∀ k ∈ costs, Φ k := by
  obtain ⟨n, hn⟩ : ∃ n, n = c.kinds.length := ⟨_, rfl⟩
  induction n using Nat.strong_induction_on generalizing a c with
  | _ n ih =>
    obtain ⟨hreports, hcost⟩ := hpass a c hc
    rw [h.unrolls, bind_apply]
    cases hr : (pass a c).1 with
    | done a' =>
      refine ⟨_, .done hr, ?_, ?_⟩
      · rw [List.flatMap_singleton]
        exact hreports
      · rintro k hk
        rwa [List.mem_singleton.1 hk]
    | yield a' =>
      obtain ⟨costs, hitemised, hrest, hcosts⟩ := ih _ (hn ▸ h.advances _ _ _ hr) a' (pass a c).2 hreports.lexical rfl
      exact ⟨_, .yield hr hitemised, hreports.trans hrest, List.forall_mem_cons.2 ⟨hcost, hcosts⟩⟩

/-- What every pass charges is what the loop is billed. -/
theorem Parse.Ends.bills (h : Ends pass) {Φ : Cost → Prop} (hpass : Charges pass member? Φ) (a : α) (c : Cursor)
    (hc : Lexical c.feed.pending) : Bills pass member? a c Φ := by
  obtain ⟨costs, hitemised, hreports, hcosts⟩ := h.exists_itemised hpass a c hc
  exact ⟨costs, hitemised, hreports.since_eq, hcosts⟩

end GoSyntax
