import GoSyntax.Grammar.Block
import GoSyntax.Proofs.Context.Parts
import GoSyntax.Proofs.Unbounded

/-!
# One run of the grammar pursues another

The same tokens may be read in two places: on other lines, with other tokens behind them, or by productions that go deeper. The run that
goes ahead is pursued by the other one: step by step both look at the same tokens, and what they give is the same but for its locations.
The run ahead may escape: it comes to a point from where it is not pursued any more, and that is for good. What a run that has not
escaped gives, the pursuing run gives too.

What is known of the two cursors between the steps is a pursuit: a relation that looking ahead, taking a token and reporting a fault keep,
unless they make the run escape. How far a parser looks ahead is part of this: it looks at the next token, and behind a name or an arrow
that it has not taken it looks at one more.
-/

namespace GoSyntax

open Parse

/-- What follows a token of this kind may be looked at before the token is taken. -/
def TokenKind.announces : TokenKind → Bool
  | .ident _ | .operator .arrow => true
  | _ => false

/-- A parser may look `k` tokens ahead. -/
def Cursor.MayLook (c : Cursor) (k : Nat) : Prop := k = 0 ∨ k = 1 ∧ c.here.kind.announces = true

/-- A relation between the cursors of two runs that the steps of a parser keep, unless the first run escapes. The locations of the
second run are those of the first one shifted; `counts` relates the numbers of reports that the runs have made when they are asked. The
first run may have some spare tokens more than the second one, if it has escaped where no others are left. -/
structure Pursuit where
  shift : Location → Location
  spare : Nat
  escaped : Cursor → Prop
  holds : Cursor → Cursor → Prop
  counts : Nat → Nat → Prop
  peek : ∀ {c c' k}, holds c c' → c.MayLook k → escaped (Parse.peek k c).2
    ∨ c'.feed.peek k = (c.feed.peek k).move shift ∧ holds (Parse.peek k c).2 (Parse.peek k c').2
  consume : ∀ {c c'}, holds c c' → escaped (Parse.consume c).2
    ∨ c'.here = c.here.move shift ∧ holds (Parse.consume c).2 (Parse.consume c').2
  report : ∀ {c c'}, holds c c' → ∀ fault loc, escaped (Parse.report fault loc c).2
    ∨ holds (Parse.report fault loc c).2 (Parse.report fault (shift loc) c').2
  reports : ∀ {c c'}, holds c c' → counts c.log.size c'.log.size
  countable : ∀ {c}, escaped c → ∀ n, ∃ n', counts n n'
  missing : ∀ {c c' n n'}, holds c c' → counts n n' → ∀ kind, escaped (Grammar.reportMissing n kind c).2
    ∨ holds (Grammar.reportMissing n kind c).2 (Grammar.reportMissing n' kind c').2
  room : ∀ {c c'}, holds c c' → c.feed.items.length ≤ c'.feed.items.length + spare
  spared : spare = 0 ∨ ∀ {c : Cursor}, c.kinds.length ≤ spare → escaped c
  peek_escaped : ∀ {c}, escaped c → ∀ k, escaped (Parse.peek k c).2
  consume_escaped : ∀ {c}, escaped c → escaped (Parse.consume c).2
  report_escaped : ∀ {c}, escaped c → ∀ fault loc, escaped (Parse.report fault loc c).2

/-- Where a token with `φ` comes next, the second parser follows the first one: what the first one gives the second one gives too, moved,
and the cursors stay related; but a run that has escaped or escapes need not be followed. -/
structure FollowsAt (B : Pursuit) (φ : Token → Prop) {α : Type} [Movable α] (f g : Parse α) : Prop where
  lost : ∀ c, φ c.here → B.escaped c → B.escaped (f c).2
  found : ∀ c c', φ c.here → B.holds c c' → B.escaped (f c).2 ∨ (g c').1 = moved B.shift (f c).1 ∧ B.holds (f c).2 (g c').2

/-- The second parser follows the first one wherever they start. -/
abbrev Follows (B : Pursuit) {α : Type} [Movable α] (f g : Parse α) : Prop := FollowsAt B (fun _ => True) f g

namespace FollowsAt

variable {B : Pursuit} {φ ψ : Token → Prop} {α β : Type} [Movable α] [Movable β] {f g : Parse α}

/-! ## Ways to put parsers together -/

theorem weaken (h : FollowsAt B ψ f g) (hφ : ∀ t, φ t → ψ t) : FollowsAt B φ f g :=
  ⟨fun c hc => h.lost c (hφ _ hc), fun c c' hc => h.found c c' (hφ _ hc)⟩

theorem pure {a a' : α} (h : a' = moved B.shift a) : FollowsAt B φ (Pure.pure a) (Pure.pure a') :=
  ⟨fun _ _ hc => hc, fun _ _ _ hc => .inr ⟨h, hc⟩⟩

theorem bind {k k' : α → Parse β} (h : FollowsAt B φ f g) (hk : ∀ a, Follows B (k a) (k' (moved B.shift a))) :
    FollowsAt B φ (f >>= k) (g >>= k') := by
  refine ⟨fun c hφ hc => (hk _).lost _ trivial (h.lost c hφ hc), fun c c' hφ hc => ?_⟩
  rcases h.found c c' hφ hc with hescaped | ⟨heq, hholds⟩
  · exact .inl ((hk _).lost _ trivial hescaped)
  · have hr : (g >>= k') c' = k' (g c').1 (g c').2 := rfl
    rw [hr, heq]
    exact (hk _).found _ _ trivial hholds

theorem map {r r' : α → β} (h : FollowsAt B φ f g) (hr : ∀ a, r' (moved B.shift a) = moved B.shift (r a)) :
    FollowsAt B φ (r <$> f) (r' <$> g) := by
  have hbind : FollowsAt B φ (f >>= fun a => Pure.pure (r a)) (g >>= fun a => Pure.pure (r' a)) := h.bind fun a => pure (hr a)
  exact hbind

theorem ite {χ : Prop} [Decidable χ] {f' g' : Parse α} (h : FollowsAt B φ f g) (h' : FollowsAt B φ f' g') :
    FollowsAt B φ (if χ then f else f') (if χ then g else g') := by
  split
  · exact h
  · exact h'

/-- What a parser starts with may be known when a branch is taken. -/
theorem dite {χ : Prop} [Decidable χ] {f' g' : Parse α} (h : χ → FollowsAt B φ f g) (h' : ¬χ → FollowsAt B φ f' g') :
    FollowsAt B φ (if χ then f else f') (if χ then g else g') := by
  split
  · next hχ => exact h hχ
  · next hχ => exact h' hχ

theorem orM {f g f' g' : Parse Bool} (h : FollowsAt B φ f g) (h' : Follows B f' g') : FollowsAt B φ (f <||> f') (g <||> g') :=
  h.bind fun b => by
    cases b with
    | true => exact pure rfl
    | false => exact h'

theorem andM {f g f' g' : Parse Bool} (h : FollowsAt B φ f g) (h' : Follows B f' g') : FollowsAt B φ (f <&&> f') (g <&&> g') :=
  h.bind fun b => by
    cases b with
    | true => exact h'
    | false => exact pure rfl

/-! ## Steps -/

theorem current : FollowsAt B φ Parse.current Parse.current :=
  ⟨fun _ _ hc => B.peek_escaped hc 0, fun _ _ _ hc => B.peek hc (.inl rfl)⟩

theorem consume : FollowsAt B φ Parse.consume Parse.consume :=
  ⟨fun _ _ hc => B.consume_escaped hc, fun _ _ _ hc => B.consume hc⟩

theorem report (fault : Fault) (loc : Location) : FollowsAt B φ (Parse.report fault loc) (Parse.report fault (moved B.shift loc)) :=
  ⟨fun _ _ hc => B.report_escaped hc fault loc, fun _ _ _ hc => (B.report hc fault loc).imp_right fun h => ⟨rfl, h⟩⟩

/-- What is done next may depend on the next token, which is still there. -/
theorem currentAt {k k' : Token → Parse β} (h : ∀ here, φ here → FollowsAt B (· = here) (k here) (k' (moved B.shift here))) :
    FollowsAt B φ (Parse.current >>= k) (Parse.current >>= k') := by
  refine ⟨fun c hφ hc => (h _ hφ).lost _ (Cursor.here_peek 0 c) (B.peek_escaped hc 0), fun c c' hφ hc => ?_⟩
  rcases B.peek hc (.inl rfl : c.MayLook 0) with hescaped | ⟨heq, hholds⟩
  · exact .inl ((h _ hφ).lost _ (Cursor.here_peek 0 c) hescaped)
  · have hr : (Parse.current >>= k') c' = k' (c'.feed.peek 0) (Parse.peek 0 c').2 := rfl
    rw [hr, heq]
    exact (h _ hφ).found _ _ (Cursor.here_peek 0 c) hholds

/-- Behind a name or an arrow one more token may be looked at. -/
theorem second (h : ∀ t, φ t → t.kind.announces = true) : FollowsAt B φ (Parse.peek 1) (Parse.peek 1) :=
  ⟨fun _ _ hc => B.peek_escaped hc 1, fun _ _ hφ hc => B.peek hc (.inr ⟨rfl, h _ hφ⟩)⟩

/-- What is done next may depend on the number of reports. -/
theorem reports {k k' : Nat → Parse β} (h : ∀ n n', B.counts n n' → Follows B (k n) (k' n')) :
    FollowsAt B φ (Parse.reports >>= k) (Parse.reports >>= k') := by
  refine ⟨fun c _ hc => ?_, fun c c' _ hc => ?_⟩
  · obtain ⟨n', hn⟩ := B.countable hc c.log.size
    exact (h _ n' hn).lost c trivial hc
  · exact (h _ _ (B.reports hc)).found c c' trivial hc

/-! ## Loops -/

/-- A pass that goes on without an escape has taken a token. -/
def Strides (B : Pursuit) (pass : α → Parse (ForInStep α)) : Prop :=
  ∀ a c a', (pass a c).1 = .yield a' → ¬B.escaped (pass a c).2 → (pass a c).2.kinds.length < c.kinds.length

/-- As many tokens are left in both runs, or else the passes stride, so that neither loop is cut short before the other. -/
def Paced (B : Pursuit) (pass : α → Parse (ForInStep α)) : Prop :=
  (∀ c c', B.holds c c' → c.feed.items.length = c'.feed.items.length) ∨ Strides B pass

section Loops

variable {pass pass' : α → Parse (ForInStep α)}

/-- What comes behind a pass that escapes cannot undo the escape. -/
theorem passes_escaped (h : ∀ a, Follows B (pass a) (pass' (moved B.shift a))) (ns : List (Noted Token)) (a : α) (c : Cursor)
    (hescaped : B.escaped (pass a c).2) : B.escaped (Parse.passes pass ns a c).2 := by
  induction ns generalizing a c with
  | nil => exact hescaped
  | cons n ns ih =>
    cases hr : (pass a c).1 with
    | yield a' =>
      rw [passes_yield hr]
      exact ih a' _ ((h a').lost _ trivial hescaped)
    | done a' =>
      rw [passes_done hr]
      exact hescaped

theorem passes_lost (h : ∀ a, Follows B (pass a) (pass' (moved B.shift a))) (ns : List (Noted Token)) (a : α) (c : Cursor)
    (hc : B.escaped c) : B.escaped (Parse.passes pass ns a c).2 :=
  passes_escaped h ns a c ((h a).lost c trivial hc)

/-- The loops agree if they agree where a pass goes on in both runs. -/
theorem passes_found_of_yield (h : ∀ a, Follows B (pass a) (pass' (moved B.shift a))) {ns ns' : List (Noted Token)} {a : α} {c c' : Cursor}
    (hc : B.holds c c')
    (hyield : ∀ a', (pass a c).1 = .yield a' → (pass' (moved B.shift a) c').1 = .yield (moved B.shift a') → ¬B.escaped (pass a c).2 →
      B.holds (pass a c).2 (pass' (moved B.shift a) c').2 → B.escaped (Parse.passes pass ns a c).2
        ∨ (Parse.passes pass' ns' (moved B.shift a) c').1 = moved B.shift (Parse.passes pass ns a c).1
          ∧ B.holds (Parse.passes pass ns a c).2 (Parse.passes pass' ns' (moved B.shift a) c').2) :
    B.escaped (Parse.passes pass ns a c).2
      ∨ (Parse.passes pass' ns' (moved B.shift a) c').1 = moved B.shift (Parse.passes pass ns a c).1
        ∧ B.holds (Parse.passes pass ns a c).2 (Parse.passes pass' ns' (moved B.shift a) c').2 := by
  by_cases hescaped : B.escaped (pass a c).2
  · exact .inl (passes_escaped h ns a c hescaped)
  obtain ⟨heq, hholds⟩ := ((h a).found c c' trivial hc).resolve_left hescaped
  cases hr : (pass a c).1 with
  | done a' =>
    rw [hr] at heq
    rw [passes_done hr, passes_done heq]
    exact .inr ⟨rfl, hholds⟩
  | yield a' => exact hyield a' hr (heq.trans (congrArg (moved B.shift) hr)) hescaped hholds

/-- The second run makes as many passes as the first one: the lists that bound them are equally long, or the first run is never cut
short because each pass takes one of its tokens. -/
theorem passes_found (h : ∀ a, Follows B (pass a) (pass' (moved B.shift a))) (ns ns' : List (Noted Token)) (a : α) (c c' : Cursor)
    (hc : B.holds c c')
    (hns : ns.length = ns'.length ∨ Strides B pass ∧ c.kinds.length ≤ ns.length ∧ ns.length ≤ ns'.length + B.spare) :
    B.escaped (Parse.passes pass ns a c).2
      ∨ (Parse.passes pass' ns' (moved B.shift a) c').1 = moved B.shift (Parse.passes pass ns a c).1
        ∧ B.holds (Parse.passes pass ns a c).2 (Parse.passes pass' ns' (moved B.shift a) c').2 := by
  induction ns generalizing ns' a c c' with
  | nil =>
    refine passes_found_of_yield h hc fun a' hr heq hescaped hholds => ?_
    rcases hns with hns | ⟨hstrides, hzero, -⟩
    · obtain rfl := List.length_eq_zero_iff.1 hns.symm
      have hlast : Parse.passes pass [] a c = ((pass a c).1.value, (pass a c).2) := rfl
      have hlast' : Parse.passes pass' [] (moved B.shift a) c'
          = ((pass' (moved B.shift a) c').1.value, (pass' (moved B.shift a) c').2) := rfl
      rw [hlast, hlast', hr, heq]
      exact .inr ⟨rfl, hholds⟩
    · exact absurd ((hstrides a c a' hr hescaped).trans_le hzero) (Nat.not_lt_zero _)
  | cons n ns ih =>
    by_cases hspare : B.spare ≠ 0 ∧ c.kinds.length ≤ B.spare
    · exact .inl (passes_lost h _ a c ((B.spared.resolve_left hspare.1) hspare.2))
    obtain ⟨n', ns', rfl⟩ : ∃ n' ns'', ns' = n' :: ns'' := by
      refine List.exists_cons_of_length_pos ?_
      rw [List.length_cons] at hns
      omega
    refine passes_found_of_yield h hc fun a' hr heq hescaped hholds => ?_
    rw [passes_yield hr, passes_yield heq]
    refine ih ns' a' _ _ hholds (hns.imp Nat.succ.inj fun ⟨hstrides, hroom, hle⟩ => ?_)
    refine ⟨hstrides, Nat.le_of_lt_succ ((hstrides a c a' hr hescaped).trans_le hroom), Nat.le_of_succ_le_succ ?_⟩
    rwa [List.length_cons, List.length_cons, Nat.add_right_comm] at hle

theorem loop (hpaced : Paced B pass) {start start' : α} (hstart : start' = moved B.shift start)
    (h : ∀ a, Follows B (pass a) (pass' (moved B.shift a))) : FollowsAt B φ (Parse.loop start pass) (Parse.loop start' pass') := by
  subst hstart
  refine ⟨fun c _ hc => passes_lost h _ start c hc, fun c c' _ hc => passes_found h _ _ start c c' hc ?_⟩
  have hlen : c.kinds.length = c.feed.items.length := by simp [Cursor.kinds, Cursor.tokens]
  exact hpaced.imp (fun heven => heven c c' hc) fun hstrides => ⟨hstrides, hlen.le, B.room hc⟩

end Loops

/-! ## Tokens -/

theorem isAt (kind : TokenKind) : FollowsAt B φ (Parse.isAt kind) (Parse.isAt kind) := current.bind fun _ => pure rfl

theorem isAtEnd : FollowsAt B φ Parse.isAtEnd Parse.isAtEnd := isAt _

theorem accept (kind : TokenKind) : FollowsAt B φ (Parse.accept kind) (Parse.accept kind) :=
  (isAt kind).bind fun _ => .ite (consume.bind fun _ => pure rfl) (pure rfl)

theorem reportUnless (ok : Bool) (fault : Fault) (loc : Location) :
    FollowsAt B φ (Parse.reportUnless ok fault loc) (Parse.reportUnless ok fault (moved B.shift loc)) :=
  .ite (pure rfl) (report fault loc)

theorem reportHere (fault : String → Fault) : FollowsAt B φ (Parse.reportHere fault) (Parse.reportHere fault) :=
  current.bind fun _ => report _ _

theorem reportExpected (expected : String) : FollowsAt B φ (Parse.reportExpected expected) (Parse.reportExpected expected) :=
  reportHere _

theorem expect (kind : TokenKind) : FollowsAt B φ (Parse.expect kind) (Parse.expect kind) :=
  current.bind fun _ => (accept kind).bind fun _ => .ite (pure rfl) ((reportExpected _).bind fun _ => pure rfl)

omit [Movable α] in
theorem strides_of_ends {pass : α → Parse (ForInStep α)} (h : Ends pass) : Strides B pass := fun a c a' hr _ => h.advances a c a' hr

theorem skipTo (stop : TokenSet) : FollowsAt B φ (Parse.skipTo stop) (Parse.skipTo stop) :=
  loop (.inr (strides_of_ends (Productions.loopsEnd_full.skips stop))) rfl fun _ =>
    current.bind fun _ => .ite (pure rfl) (consume.bind fun _ => pure rfl)

/-! ## Lists -/

theorem separatedPass {item item' : Parse α} (h : Follows B item item') (items : Array α) :
    FollowsAt B φ (Parse.separatedPass item items) (Parse.separatedPass item' (moved B.shift items)) :=
  (accept _).bind fun _ => .ite (h.bind fun item => pure (by simp)) (pure rfl)

theorem separated {item item' : Parse α} (hpaced : Paced B (Parse.separatedPass item)) (h : Follows B item item') :
    FollowsAt B φ (Parse.separated item) (Parse.separated item') :=
  bind (h.weaken fun _ _ => trivial) fun _ => (loop hpaced (by simp) (separatedPass h)).bind fun _ => pure (by simp)

theorem memberPass {member member' : Parse α} (close : TokenKind) (h : Follows B member member') (members : Array α) :
    FollowsAt B φ (Parse.memberPass close member members) (Parse.memberPass close member' (moved B.shift members)) :=
  current.bind fun _ => .ite (pure rfl) (h.bind fun member => (accept _).bind fun _ => .ite (pure (by simp)) (pure (by simp)))

theorem members {member member' : Parse α} (close : TokenKind) (hpaced : Paced B (Parse.memberPass close member))
    (h : Follows B member member') : FollowsAt B φ (Parse.members close member) (Parse.members close member') :=
  (loop hpaced (by simp) (memberPass close h)).bind fun _ => pure (by simp)

/-! ## Names and literals -/

theorem name : FollowsAt B φ Parse.name Parse.name := by
  refine current.bind fun here => ?_
  obtain ⟨kind, loc⟩ := here
  cases kind with
  | ident text => exact consume.bind fun _ => pure rfl
  | _ => exact (reportHere _).bind fun _ => pure rfl

theorem names : FollowsAt B φ Parse.names Parse.names :=
  (separated (.inr (strides_of_ends Productions.loopsEnd_full.names)) name).bind fun (_, _) => pure rfl

theorem literal? : FollowsAt B φ Parse.literal? Parse.literal? := by
  refine current.bind fun here => ?_
  obtain ⟨kind, loc⟩ := here
  cases kind with
  | literal value => exact consume.bind fun _ => pure rfl
  | _ => exact pure rfl

theorem stringLiteral? : FollowsAt B φ Parse.stringLiteral? Parse.stringLiteral? :=
  current.bind fun _ => .ite literal? (pure rfl)

/-- A report that something is missing, unless there has been one before. -/
theorem reportMissing {n n' : Nat} (h : B.counts n n') (kind : TokenKind) :
    FollowsAt B φ (Grammar.reportMissing n kind) (Grammar.reportMissing n' kind) := by
  refine ⟨fun c _ hc => ?_, fun c c' _ hc => (B.missing hc h kind).imp_right fun h => ⟨rfl, h⟩⟩
  change B.escaped ((if c.log.size == n then Parse.reportExpected kind.display else Pure.pure ()) c).2
  split
  · have hreport : Follows B (Parse.reportExpected kind.display) (Parse.reportExpected kind.display) := reportExpected _
    exact hreport.lost c trivial hc
  · exact hc

end FollowsAt

end GoSyntax
