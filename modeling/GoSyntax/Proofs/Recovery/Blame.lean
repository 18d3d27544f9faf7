import GoSyntax.Proofs.Canonical.Declarations
import GoSyntax.Proofs.Recovery.Costs

/-!
# Who is blamed for a malformed member

Three loops read members with separators between them: statements, the specifications of a group, and the items of a struct or an
interface. The first two ask whether the member has reported anything before they report that its end is missing, so a malformed member
is blamed once. The loop over a body does not ask: it blames an item a second time, with the token that the item has left.
-/

namespace GoSyntax

open Parse Cursor Grammar

/-! ## What ends a member -/

namespace Cursor

variable {c d : Cursor} {f g : Parse Bool}

theorem orM_apply (f g : Parse Bool) (c : Cursor) : (f <||> g) c = if (f c).1 = true then (true, (f c).2) else g (f c).2 := by
  rw [orM, bind_apply]
  cases (f c).1 <;> rfl

theorem reports_orM (hf : c.Reports [] (f c).2) (hg : ∀ {d : Cursor}, Lexical d.feed.pending → d.Reports [] (g d).2) :
    c.Reports [] ((f <||> g) c).2 := by
  rw [orM_apply]
  split
  · exact hf
  · exact hf.trans (hg hf.lexical)

/-- A separator is taken; where a closing token or none of the two comes next, nothing is. -/
theorem closed_or_accepted (close separator : TokenKind) (c : Cursor) :
    ((isAt close <||> accept separator) c).1 = (c.here.kind.sameKind close || c.here.kind.sameKind separator)
      ∧ (((isAt close <||> accept separator) c).1 = false → ((isAt close <||> accept separator) c).2.here = c.here) := by
  have hhere : (Parse.current c).2.here = c.here := here_peek 0 c
  have hor : (isAt close <||> accept separator) c
      = if c.here.kind.sameKind close = true then (true, (Parse.current c).2) else accept separator (Parse.current c).2 :=
    orM_apply _ _ _
  have haccept : accept separator (Parse.current c).2
      = (if c.here.kind.sameKind separator = true then (do
          let _ ← consume
          return true) else return false : Parse Bool) (Parse.current (Parse.current c).2).2 := by
    rw [← hhere]
    rfl
  rw [hor]
  by_cases hclose : c.here.kind.sameKind close = true
  · rw [if_pos hclose, hclose]
    exact ⟨rfl, fun h => nomatch h⟩
  · rw [if_neg hclose, haccept, eq_false_of_ne_true hclose, Bool.false_or]
    by_cases hsep : c.here.kind.sameKind separator = true
    · rw [if_pos hsep, hsep]
      exact ⟨rfl, fun h => nomatch h⟩
    · rw [if_neg hsep, eq_false_of_ne_true hsep, current_current]
      exact ⟨rfl, fun _ => hhere⟩

/-- That a token is missing is reported only if there is no report since the start of the member. -/
theorem reports_reportMissing (h : Lexical c.feed.pending) (before : Nat) (kind : TokenKind) :
    ∃ ds, c.Reports ds (reportMissing before kind c).2 ∧ ds.length ≤ 1 ∧ (c.log.size ≠ before → ds = []) := by
  have hmissing : reportMissing before kind c
      = (if c.log.size == before then reportExpected kind.display else return () : Parse Unit) c := rfl
  rw [hmissing]
  split
  · next heq =>
    exact ⟨_, reports_reportHere h fun _ => rfl, le_rfl, fun hne => absurd (eq_of_beq heq) hne⟩
  · exact ⟨[], .refl h, Nat.zero_le _, fun _ => rfl⟩

end Cursor

/-! ## Members -/

variable {α β : Type}

/-- The cursor behind the member that a pass reads, if the next token starts one. -/
def memberBehind? (starts : TokenKind → Bool) (member : α → Parse β) (a : α) (c : Cursor) : Option Cursor :=
  if starts c.here.kind then some (member a (Parse.current c).2).2 else none

section Charges

variable {starts : TokenKind → Bool} {member : α → Parse β} {pass : α → Parse (ForInStep α)} {Φ : Cost → Prop}

/-- The cost of a pass, from what the member reports and what the list adds to it, or from what the list reports where no member
starts. -/
theorem charges_of [∀ a, Bonded .abreast 0 (member a) (member a)]
    (hmember : ∀ a (c : Cursor) own, Lexical c.feed.pending → starts c.here.kind = true →
      (Parse.current c).2.Reports own (member a (Parse.current c).2).2 →
      ∃ added, (member a (Parse.current c).2).2.Reports added (pass a c).2 ∧ Φ ⟨some own, (member a (Parse.current c).2).2.here, added⟩)
    (hnone : ∀ a (c : Cursor), Lexical c.feed.pending → starts c.here.kind = false →
      ∃ added, c.Reports added (pass a c).2 ∧ Φ ⟨none, c.here, added⟩) : Charges pass (memberBehind? starts member) Φ := by
  intro a c hc
  cases hstarts : starts c.here.kind with
  | true =>
    have hlooked := reports_current hc
    have hown := reports_since (member a) hlooked.lexical
    obtain ⟨added, hadded, hΦ⟩ := hmember a c _ hc hstarts hown
    have hcost : Cost.ofPass c (memberBehind? starts member a c) (pass a c).2
        = ⟨some ((Parse.current c).2.since (member a (Parse.current c).2).2), (member a (Parse.current c).2).2.here, added⟩ := by
      rw [memberBehind?, hstarts, if_pos rfl, Cost.ofPass, hadded.since_eq, (hlooked.trans hown).since_eq]
      rfl
    rw [hcost]
    exact ⟨(hlooked.trans hown).trans hadded, hΦ⟩
  | false =>
    obtain ⟨added, hadded, hΦ⟩ := hnone a c hc hstarts
    have hcost : Cost.ofPass c (memberBehind? starts member a c) (pass a c).2 = ⟨none, c.here, added⟩ := by
      rw [memberBehind?, hstarts, if_neg Bool.false_ne_true, Cost.ofPass, hadded.since_eq]
    rw [hcost]
    exact ⟨hadded, hΦ⟩

end Charges

/-! ## Statements and specifications -/

namespace Cost

theorem oncePerMember_none (behind : Token) {added : List Diagnostic} (h : added.length ≤ 1) : OncePerMember ⟨none, behind, added⟩ :=
  ⟨h, fun _ hown => nomatch hown⟩

theorem oncePerMember_quiet (own? : Option (List Diagnostic)) (behind : Token) : OncePerMember ⟨own?, behind, []⟩ :=
  ⟨Nat.zero_le _, fun _ _ _ => rfl⟩

theorem oncePerMember_some (behind : Token) {own added : List Diagnostic} (h : added.length ≤ 1) (hown : own ≠ [] → added = []) :
    OncePerMember ⟨some own, behind, added⟩ := ⟨h, fun _ heq hne => hown (Option.some.inj heq ▸ hne)⟩

end Cost

/-- Statements go on behind one that nothing ends with at most one report, and with none if there has been one since its start. -/
theorem Grammar.reports_resumeStatements {c : Cursor} (h : Lexical c.feed.pending) (before : Nat) :
    ∃ ds, c.Reports ds (resumeStatements before c).2 ∧ ds.length ≤ 1 ∧ (c.log.size ≠ before → ds = []) := by
  obtain ⟨ds, hds, hlength, hquiet⟩ := reports_reportMissing h before Punctuation.semicolon
  have hskip := hds.then_quiet (reports_skipTo hds.lexical Recovery.statement)
  exact ⟨ds, hskip.then_quiet (reports_accept hskip.lexical Punctuation.semicolon), hlength, hquiet⟩

/-- A list of statements adds nothing to a statement that has reported something. -/
theorem Grammar.charges_statementPass : Charges (statementPass .full)
    (memberBehind? (fun kind => !endsStatements kind) fun _ => Productions.full.stmt) Cost.OncePerMember := by
  have hstep : ∀ stmts c, statementPass .full stmts c = (if endsStatements c.here.kind = true then return .done stmts
      else do
        let before ← Parse.reports
        let stmts := stmts.push (← Productions.full.stmt)
        if ← isAtStatementsEnd <||> accept Punctuation.semicolon then return .yield stmts
        else
          resumeStatements before
          return .yield stmts : Parse (ForInStep (Array Stmt))) (Parse.current c).2 := fun _ _ => rfl
  refine charges_of (fun stmts c own hc hstarts hown => ?_) fun stmts c hc hstarts => ?_
  · rw [Bool.not_eq_true'] at hstarts
    have hended := reports_orM (f := isAtStatementsEnd) (reports_current hown.lexical)
      fun {d} hd => reports_accept hd Punctuation.semicolon
    have hbefore : Parse.reports (Parse.current c).2 = ((Parse.current c).2.log.size, (Parse.current c).2) := rfl
    rw [hstep, if_neg (by rw [hstarts]; exact Bool.false_ne_true)]
    simp only [bind_apply, hbefore]
    split
    · exact ⟨[], hended, Cost.oncePerMember_quiet _ _⟩
    · obtain ⟨ds, hds, hlength, hquiet⟩ := reports_resumeStatements hended.lexical (Parse.current c).2.log.size
      simp only [bind_apply, pure_apply]
      refine ⟨ds, hended.trans hds, Cost.oncePerMember_some _ hlength fun hne => hquiet ?_⟩
      exact (hown.then_quiet hended).size_ne hne
  · rw [Bool.not_eq_false'] at hstarts
    rw [hstep, if_pos hstarts]
    exact ⟨[], reports_current hc, Cost.oncePerMember_quiet _ _⟩

/-- A group goes on behind a member with at most one report, and with none if there has been one since the start of the member. -/
theorem Grammar.reports_resumeGroup {c : Cursor} (h : Lexical c.feed.pending) (before : Nat) (specs : Array Spec) :
    ∃ ds, c.Reports ds (resumeGroup before specs c).2 ∧ ds.length ≤ 1 ∧ (c.log.size ≠ before → ds = []) := by
  obtain ⟨ds, hds, hlength, hquiet⟩ := reports_reportMissing h before Punctuation.rParen
  have hskip := hds.then_quiet (reports_skipTo hds.lexical Recovery.group)
  have hnext := hskip.then_quiet (reports_orM (reports_accept hskip.lexical Punctuation.semicolon)
    fun {d} hd => reports_isAt hd Punctuation.rParen)
  refine ⟨ds, ?_, hlength, hquiet⟩
  simp only [resumeGroup, nextMember, bind_apply]
  split <;> exact hnext

/-- A group adds nothing to a specification that has reported something. -/
theorem Grammar.charges_specPass (keyword : Keyword) : Charges (specPass .full keyword)
    (memberBehind? (startsSpec keyword) fun group => spec .full keyword group.1.isEmpty) Cost.OncePerMember := by
  have hstep : ∀ group c, specPass .full keyword group c
      = (if (c.here.kind.sameKind Punctuation.rParen || c.here.kind.sameKind .eof) = true then return .done (group.1, true)
        else do
          let before ← Parse.reports
          if startsSpec keyword c.here.kind then
            let specs := group.1.push (← spec .full keyword group.1.isEmpty)
            if ← isAt Punctuation.rParen <||> accept Punctuation.semicolon then return .yield (specs, true)
            else resumeGroup before specs
          else resumeGroup before group.1 : Parse (ForInStep (Array Spec × Bool))) (Parse.current c).2 := fun _ _ => rfl
  obtain ⟨-, hparen, heof⟩ := startsSpec_eq_false keyword
  refine charges_of (fun group c own hc hstarts hown => ?_) fun group c hc hstarts => ?_
  · have hended := reports_orM (reports_isAt hown.lexical Punctuation.rParen) fun {d} hd => reports_accept hd Punctuation.semicolon
    rw [hstep, if_neg (by
      rw [sameKind_of_startsSpec hstarts hparen, sameKind_of_startsSpec hstarts heof]
      exact Bool.false_ne_true), bind_apply, if_pos hstarts]
    simp only [bind_apply]
    split
    · exact ⟨[], hended, Cost.oncePerMember_quiet _ _⟩
    · obtain ⟨ds, hds, hlength, hquiet⟩ := reports_resumeGroup hended.lexical (Parse.current c).2.log.size
        (group.1.push (spec .full keyword group.1.isEmpty (Parse.current c).2).1)
      refine ⟨ds, hended.trans hds, Cost.oncePerMember_some _ hlength fun hne => hquiet ?_⟩
      exact (hown.then_quiet hended).size_ne hne
  · rw [hstep, hstarts]
    have hlooked := reports_current hc
    split
    · exact ⟨[], hlooked, Cost.oncePerMember_quiet _ _⟩
    · obtain ⟨ds, hds, hlength, -⟩ := reports_resumeGroup hlooked.lexical (Parse.current c).2.log.size group.1
      exact ⟨ds, hlooked.trans hds, Cost.oncePerMember_none _ hlength⟩

/-! ## Bodies -/

/-- The token ends an item of a body. -/
def Grammar.endsItem (kind : TokenKind) : Bool := kind.sameKind Punctuation.rBrace || kind.sameKind Punctuation.semicolon

/-- A body adds a report to an item exactly if the item is not ended, and at most one where no item starts. -/
def Cost.PerItem (k : Cost) : Prop :=
  match k.own? with
  | some _ => k.added = if endsItem k.behind.kind then [] else
      [⟨.expectedToken "`;` or `\x7d`" k.behind.kind.display, k.behind.loc⟩]
  | none => k.added.length ≤ 1

theorem Grammar.reports_resumeBody {c : Cursor} (h : Lexical c.feed.pending) (items : Array β) :
    c.Reports [] (resumeBody items c).2 := by
  have hskip := reports_skipTo h Recovery.body
  have hnext := hskip.trans (reports_accept hskip.lexical Punctuation.semicolon)
  simp only [resumeBody, bind_apply]
  split <;> exact hnext

/-- A body blames each item that nothing ends, whatever the item has reported. -/
theorem Grammar.charges_itemPass {starts : TokenKind → Bool} {item : Parse β} {missing : String → Fault}
    [Bonded .abreast 0 item item] (hmissing : ∀ found, (missing found).isLexical = false)
    (hbody : ∀ kind, starts kind = true → endsBody kind = false) :
    Charges (itemPass starts item missing) (memberBehind? starts fun _ => item) Cost.PerItem := by
  have hstep : ∀ items c, itemPass starts item missing items c = (if endsBody c.here.kind = true then return .done items
      else if starts c.here.kind = true then do
        let items := items.push (← item)
        if ← isAt Punctuation.rBrace <||> accept Punctuation.semicolon then return .yield items
        else
          reportExpected "`;` or `\x7d`"
          resumeBody items
      else do
        reportHere missing
        resumeBody items : Parse (ForInStep (Array β))) (Parse.current c).2 := fun _ _ => rfl
  refine charges_of (fun items c own hc hstarts hown => ?_) fun items c hc hstarts => ?_
  · have hended := reports_orM (reports_isAt hown.lexical Punctuation.rBrace) fun {d} hd => reports_accept hd Punctuation.semicolon
    obtain ⟨hfound, hstill⟩ := closed_or_accepted Punctuation.rBrace Punctuation.semicolon (item (Parse.current c).2).2
    rw [hstep, if_neg (by rw [hbody _ hstarts]; exact Bool.false_ne_true), if_pos hstarts]
    simp only [bind_apply]
    split
    · next hends =>
      refine ⟨[], hended, ?_⟩
      rw [hfound] at hends
      exact (if_pos hends).symm
    · next hends =>
      have hfault : ∀ found, (Fault.expectedToken "`;` or `\x7d`" found).isLexical = false := fun _ => rfl
      have hreport := reports_reportHere hended.lexical hfault
      refine ⟨_, hended.trans (hreport.then_quiet (reports_resumeBody hreport.lexical _)), ?_⟩
      rw [hstill (eq_false_of_ne_true hends)]
      rw [hfound] at hends
      exact (if_neg hends).symm
  · rw [hstep, hstarts]
    have hlooked := reports_current hc
    split
    · exact ⟨[], hlooked, Nat.zero_le _⟩
    · have hreport := reports_reportHere hlooked.lexical hmissing
      exact ⟨_, hlooked.trans (hreport.then_quiet (reports_resumeBody hreport.lexical _)), le_rfl⟩

/-! ## All lists -/

/-- In a list of statements and in a group of any keyword, wherever it starts, a member that has reported something costs nothing more,
and any other at most one report. In the body of a struct or an interface an item costs one report more than its own exactly if neither
`;` nor `}` follows it, whatever it has reported. In each of these lists the reports of all members, each with what the list adds to
it, are all reports about the order of the tokens. -/
theorem members_blamed (c : Cursor) (hc : Lexical c.feed.pending) :
    Bills (statementPass .full) (memberBehind? (fun kind => !endsStatements kind) fun _ => Productions.full.stmt) #[] c
        Cost.OncePerMember
      ∧ (∀ keyword, Bills (specPass .full keyword)
        (memberBehind? (startsSpec keyword) fun group => spec .full keyword group.1.isEmpty) (#[], true) c Cost.OncePerMember)
      ∧ Bills (itemPass startsField (field .full) .expectedField) (memberBehind? startsField fun _ => field .full) #[] c Cost.PerItem
      ∧ Bills (itemPass TokenKind.isIdent (interfaceElem .full) .expectedMethodSpec)
        (memberBehind? TokenKind.isIdent fun _ => interfaceElem .full) #[] c Cost.PerItem := by
  have hends := Productions.loopsEnd_full
  have helement : ∀ kind : TokenKind, kind.isIdent = true → endsBody kind = false := fun kind h =>
    TokenKind.endsBody_of_startsField (Bool.or_eq_true_iff.2 (.inl h))
  refine ⟨hends.statements.bills charges_statementPass _ _ hc, fun keyword => ?_, ?_, ?_⟩
  · exact (hends.specs keyword).bills (charges_specPass keyword) _ _ hc
  · exact hends.fields.bills (charges_itemPass (fun _ => rfl) fun _ => TokenKind.endsBody_of_startsField) _ _ hc
  · exact hends.methods.bills (charges_itemPass (fun _ => rfl) helement) _ _ hc

/-- In the fields `a ) ; b int`, the first of which reports that its type is missing. -/
theorem members_blamed_fields :
    Lexical (Cursor.start ⟨0, "p.go"⟩ (Utf8.encode "a ) ; b int \x7d".toList)).feed.pending
      ∧ Bills (itemPass startsField (field .full) .expectedField) (memberBehind? startsField fun _ => field .full) #[]
        (.start ⟨0, "p.go"⟩ (Utf8.encode "a ) ; b int \x7d".toList)) Cost.PerItem :=
  have h : Lexical (Cursor.start ⟨0, "p.go"⟩ (Utf8.encode "a ) ; b int \x7d".toList)).feed.pending := Feed.lexical_tokens _ _
  ⟨h, (members_blamed _ h).2.2.1⟩

/-- A field is blamed twice: its type is missing in front of `)`, and the body reports the same token once more. -/
theorem exists_blamed_twice : ∃ (path : SourcePath) (fields file : List UInt8),
    Cost.ofPass (.start path fields) (memberBehind? startsField (fun _ : Array Field => field .full) #[] (.start path fields))
        (itemPass startsField (field .full) .expectedField #[] (.start path fields)).2
        = ⟨some [⟨.expectedType "`)`", ⟨path, 1⟩⟩], ⟨Punctuation.rParen, ⟨path, 1⟩⟩,
          [⟨.expectedToken "`;` or `\x7d`" "`)`", ⟨path, 1⟩⟩]⟩
      ∧ (parseFile path file).diagnostics
        = [⟨.expectedType "`)`", ⟨path, 2⟩⟩, ⟨.expectedToken "`;` or `\x7d`" "`)`", ⟨path, 2⟩⟩] :=
  ⟨⟨0, "p.go"⟩, Utf8.encode "a ) ; b int \x7d".toList, Utf8.encode "package p\ntype T struct \x7b a ) ; b int \x7d\n".toList,
    by decide +kernel, by decide +kernel⟩

end GoSyntax
