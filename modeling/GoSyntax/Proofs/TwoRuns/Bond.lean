import GoSyntax.Grammar.Block
import GoSyntax.Proofs.Reached

/-!
# Two runs at once

Two runs of the grammar are compared step by step: of the same parser over different cursors, or of the same production over
different sets of productions. What is known of the two cursors between the steps is a bond: a family of relations that looking
ahead, taking a token and reporting a fault keep. Two parsers are bonded if they give the same result and keep every relation of the
bond, and as `Bonded` is a class, this is found by instance search: what is made of bonded parsers is bonded, so an instance for each
way to put parsers together and for each step of a cursor is enough for most of the grammar.

A bond may know the nesting level of the expression that is read: behind an opening bracket the relations may be others, as long as
they still say what they said before. And it may know how many reports there were at some point, for the parsers that ask whether
anything has been reported since. Of two such parsers the first may make a report that the other holds back.
-/

namespace GoSyntax

open Parse

/-- From all cursors that are related by `P`, the two parsers give the same result and leave cursors related by `Q`. -/
def Together {α : Type} (P : Cursor → Cursor → Prop) (f g : Parse α) (Q : Cursor → Cursor → Prop) : Prop :=
  ∀ c c', P c c' → (f c).1 = (g c').1 ∧ Q (f c).2 (g c').2

namespace Together

variable {α β : Type} {P P' Q Q' R : Cursor → Cursor → Prop} {f g : Parse α}

theorem pure (a : α) (h : ∀ c c', P c c' → Q c c') : Together P (Pure.pure a) (Pure.pure a) Q := fun c c' hc => ⟨rfl, h c c' hc⟩

theorem bind {k k' : α → Parse β} (h : Together P f g Q) (hk : ∀ a, Together Q (k a) (k' a) R) :
    Together P (f >>= k) (g >>= k') R := by
  intro c c' hc
  obtain ⟨heq, hQ⟩ := h c c' hc
  have hl : (f >>= k) c = k (f c).1 (f c).2 := rfl
  have hr : (g >>= k') c' = k' (g c').1 (g c').2 := rfl
  rw [hl, hr, ← heq]
  exact hk _ _ _ hQ

theorem map {r : α → β} (h : Together P f g Q) : Together P (r <$> f) (r <$> g) Q :=
  h.bind fun a => pure (r a) fun _ _ hc => hc

theorem conseq (h : Together P' f g Q') (hP : ∀ c c', P c c' → P' c c') (hQ : ∀ c c', Q' c c' → Q c c') : Together P f g Q :=
  fun c c' hc => ⟨(h c c' (hP c c' hc)).1, hQ _ _ (h c c' (hP c c' hc)).2⟩

end Together

/-- The token opens a bracket. -/
def TokenKind.opens : TokenKind → Bool
  | .punctuation .lParen | .punctuation .lBracket | .punctuation .lBrace => true
  | _ => false

/-- Relations between the cursors of two runs that the steps of a parser keep. At a nesting level only those in its scope are of
interest; `base` says how many reports there were at the point that a relation starts from. -/
structure Bond (ι : Type) where
  holds : ι → Cursor → Cursor → Prop
  scope : Int → ι → Prop
  base : ι → Nat → Nat → Prop
  peek : ∀ {i c c'}, holds i c c' → ∀ k, c.feed.peek k = c'.feed.peek k ∧ holds i (Parse.peek k c).2 (Parse.peek k c').2
  consume : ∀ {i c c'}, holds i c c' → holds i (Parse.consume c).2 (Parse.consume c').2
  report : ∀ {i c c' fault}, holds i c c' → fault.isLexical = false → ∀ loc,
    holds i (Parse.report fault loc c).2 (Parse.report fault loc c').2
  length : ∀ {i c c'}, holds i c c' → c.feed.items.length = c'.feed.items.length
  ground : ∀ {level i}, scope level i → scope 0 i
  header : ∀ {i}, scope 0 i → scope (-1) i
  nested : ∀ {level i c c'}, scope level i → holds i c c' → c.here.kind.opens = true →
    ∃ j, scope (level + 1) j ∧ holds j (Parse.consume c).2 (Parse.consume c').2 ∧ ∀ {d d'}, holds j d d' → holds i d d'
  since : ∀ {level i c c'}, scope level i → holds i c c' →
    ∃ j, scope level j ∧ base j c.log.size c'.log.size ∧ holds j c c' ∧ ∀ {d d'}, holds j d d' → holds i d d'
  counts : ∀ {i n n' c c'}, base i n n' → holds i c c' → n ≤ c.log.size ∧ n' ≤ c'.log.size
  follows : ∀ {i n n' c c'}, base i n n' → holds i c c' → n < c.log.size → n' < c'.log.size
  alone : ∀ {i n n' c c' d d' fault}, base i n n' → holds i c c' → ¬n < c.log.size → n' < c'.log.size → holds i d d' →
    c'.log.size ≤ d'.log.size → fault.isLexical = false → ∀ loc, holds i (Parse.report fault loc (Parse.current d).2).2 d'

/-- The two parsers give the same result and keep the relations in scope at a level. -/
class Bonded {ι : Type} (B : Bond ι) (level : Int) {α : Type} (f g : Parse α) : Prop where
  together : ∀ i, B.scope level i → Together (B.holds i) f g (B.holds i)

namespace Bonded

variable {ι : Type} {B : Bond ι} {level : Int} {α β : Type}

/-! ## Ways to put parsers together -/

instance pure (a : α) : Bonded B level (Pure.pure a) (Pure.pure a) := ⟨fun _ _ => .pure a fun _ _ h => h⟩

instance bind {f g : Parse α} {k k' : α → Parse β} [Bonded B level f g] [∀ a, Bonded B level (k a) (k' a)] :
    Bonded B level (f >>= k) (g >>= k') :=
  ⟨fun i hi => (together i hi).bind fun _ => together i hi⟩

theorem bind_of {f g : Parse α} {k k' : α → Parse β} (_ : Bonded B level f g) (_ : ∀ a, Bonded B level (k a) (k' a)) :
    Bonded B level (f >>= k) (g >>= k') := inferInstance

instance map {f g : Parse α} {r : α → β} [hf : Bonded B level f g] : Bonded B level (r <$> f) (r <$> g) :=
  hf.bind_of fun a => Bonded.pure (r a)

instance ite {φ : Prop} [Decidable φ] {f g f' g' : Parse α} [Bonded B level f g] [Bonded B level f' g'] :
    Bonded B level (if φ then f else f') (if φ then g else g') := by
  split
  · infer_instance
  · infer_instance

instance orM {f g f' g' : Parse Bool} [hf : Bonded B level f g] [Bonded B level f' g'] :
    Bonded B level (f <||> f') (g <||> g') := by
  refine hf.bind_of fun b => ?_
  cases b with
  | true => exact Bonded.pure true
  | false => infer_instance

instance andM {f g f' g' : Parse Bool} [hf : Bonded B level f g] [Bonded B level f' g'] :
    Bonded B level (f <&&> f') (g <&&> g') := by
  refine hf.bind_of fun b => ?_
  cases b with
  | true => infer_instance
  | false => exact Bonded.pure false

/-! ## Levels -/

theorem of_ground {f g : Parse α} (h : Bonded B 0 f g) : Bonded B level f g := ⟨fun i hi => h.together i (B.ground hi)⟩

theorem of_header {f g : Parse α} (h : Bonded B (-1) f g) : Bonded B 0 f g := ⟨fun i hi => h.together i (B.header hi)⟩

/-! ## Steps -/

instance peek (k : Nat) : Bonded B level (Parse.peek k) (Parse.peek k) := ⟨fun _ _ _ _ h => B.peek h k⟩

instance current : Bonded B level Parse.current Parse.current := Bonded.peek 0

instance consume : Bonded B level Parse.consume Parse.consume := ⟨fun _ _ _ _ h => ⟨(B.peek h 0).1, B.consume h⟩⟩

end Bonded

/-- A fault in the order of the tokens. -/
class Fault.Syntactic (fault : Fault) : Prop where
  not_lexical : fault.isLexical = false

instance (expected found : String) : (Fault.expectedToken expected found).Syntactic := ⟨rfl⟩
instance (found : String) : (Fault.expectedDeclaration found).Syntactic := ⟨rfl⟩
instance (found : String) : (Fault.expectedField found).Syntactic := ⟨rfl⟩
instance (found : String) : (Fault.expectedMethodSpec found).Syntactic := ⟨rfl⟩
instance (found : String) : (Fault.expectedType found).Syntactic := ⟨rfl⟩
instance (found : String) : (Fault.expectedOperand found).Syntactic := ⟨rfl⟩
instance (found : String) : (Fault.expectedIdentifier found).Syntactic := ⟨rfl⟩
instance : Fault.illegalVariadic.Syntactic := ⟨rfl⟩
instance (context : String) (expected found : Nat) : (Fault.arityMismatch context expected found).Syntactic := ⟨rfl⟩
instance (reason : String) : (Fault.malformedSlice reason).Syntactic := ⟨rfl⟩

namespace Bonded

variable {ι : Type} {B : Bond ι} {level : Int} {α β : Type}

instance report (fault : Fault) [hfault : fault.Syntactic] (loc : Location) :
    Bonded B level (Parse.report fault loc) (Parse.report fault loc) :=
  ⟨fun _ _ _ _ h => ⟨rfl, B.report h hfault.not_lexical loc⟩⟩

/-! ## Loops -/

/-- Over lists of one length the passes of both runs are the same in number. -/
theorem passes_together {pass pass' : α → Parse (ForInStep α)} [∀ a, Bonded B level (pass a) (pass' a)]
    {ns ns' : List (Noted Token)} (h : ns.length = ns'.length) (a : α) {i : ι} (hi : B.scope level i) :
    Together (B.holds i) (passes pass ns a) (passes pass' ns' a) (B.holds i) := by
  induction ns generalizing ns' a with
  | nil =>
    obtain rfl := List.length_eq_zero_iff.1 h.symm
    exact (together i hi).bind fun r => .pure r.value fun _ _ h => h
  | cons n ns ih =>
    obtain ⟨n', ns', rfl⟩ := List.exists_cons_of_length_eq_add_one h.symm
    refine (together i hi).bind fun r => ?_
    cases r with
    | yield a => exact ih (Nat.succ.inj h) a
    | done a => exact .pure a fun _ _ h => h

instance loop {start : α} {pass pass' : α → Parse (ForInStep α)} [∀ a, Bonded B level (pass a) (pass' a)] :
    Bonded B level (Parse.loop start pass) (Parse.loop start pass') :=
  ⟨fun _ hi c c' h => passes_together (B.length h) start hi c c' h⟩

/-! ## Tokens, lists, names and literals -/

instance isAt (kind : TokenKind) : Bonded B level (Parse.isAt kind) (Parse.isAt kind) := by unfold Parse.isAt; infer_instance

instance isAtEnd : Bonded B level Parse.isAtEnd Parse.isAtEnd := Bonded.isAt _

instance accept (kind : TokenKind) : Bonded B level (Parse.accept kind) (Parse.accept kind) := by
  unfold Parse.accept
  infer_instance

instance reportUnless (ok : Bool) (fault : Fault) [fault.Syntactic] (loc : Location) :
    Bonded B level (Parse.reportUnless ok fault loc) (Parse.reportUnless ok fault loc) := by
  unfold Parse.reportUnless
  infer_instance

instance reportHere (fault : String → Fault) [∀ found, (fault found).Syntactic] :
    Bonded B level (Parse.reportHere fault) (Parse.reportHere fault) := by
  unfold Parse.reportHere
  infer_instance

instance reportExpected (expected : String) : Bonded B level (Parse.reportExpected expected) (Parse.reportExpected expected) := by
  unfold Parse.reportExpected
  infer_instance

instance expect (kind : TokenKind) : Bonded B level (Parse.expect kind) (Parse.expect kind) := by
  unfold Parse.expect
  infer_instance

instance skipPass (stop : TokenSet) (u : Unit) : Bonded B level (Parse.skipPass stop u) (Parse.skipPass stop u) := by
  unfold Parse.skipPass
  infer_instance

instance skipTo (stop : TokenSet) : Bonded B level (Parse.skipTo stop) (Parse.skipTo stop) := by
  unfold Parse.skipTo
  infer_instance

instance separatedPass {item item' : Parse α} [Bonded B level item item'] (items : Array α) :
    Bonded B level (Parse.separatedPass item items) (Parse.separatedPass item' items) := by
  unfold Parse.separatedPass
  infer_instance

instance separated {item item' : Parse α} [Bonded B level item item'] :
    Bonded B level (Parse.separated item) (Parse.separated item') := by
  unfold Parse.separated
  infer_instance

instance memberPass (close : TokenKind) {member member' : Parse α} [Bonded B level member member'] (members : Array α) :
    Bonded B level (Parse.memberPass close member members) (Parse.memberPass close member' members) := by
  unfold Parse.memberPass
  infer_instance

instance members (close : TokenKind) {member member' : Parse α} [Bonded B level member member'] :
    Bonded B level (Parse.members close member) (Parse.members close member') := by
  unfold Parse.members
  infer_instance

instance name : Bonded B level Parse.name Parse.name := by
  refine bind_of inferInstance fun here => ?_
  split <;> infer_instance

instance names : Bonded B level Parse.names Parse.names := by unfold Parse.names; infer_instance

instance literal? : Bonded B level Parse.literal? Parse.literal? := by
  refine bind_of inferInstance fun here => ?_
  split <;> infer_instance

instance stringLiteral? : Bonded B level Parse.stringLiteral? Parse.stringLiteral? := by
  unfold Parse.stringLiteral?
  infer_instance

/-! ## Brackets -/

/-- What is done next may depend on the token that comes next. -/
theorem current_bind {k k' : Token → Parse α} {i : ι} {Q : Cursor → Cursor → Prop}
    (h : ∀ here, Together (fun c c' => B.holds i c c' ∧ c.here = here) (k here) (k' here) Q) :
    Together (B.holds i) (Parse.current >>= k) (Parse.current >>= k') Q := by
  intro c c' hc
  obtain ⟨heq, hnew⟩ := B.peek hc 0
  have hhere : c.here = c'.here := heq
  have hl : (Parse.current >>= k) c = k c.here (Parse.current c).2 := rfl
  have hr : (Parse.current >>= k') c' = k' c'.here (Parse.current c').2 := rfl
  rw [hl, hr, ← hhere]
  exact h _ _ _ ⟨hnew, Cursor.here_peek 0 c⟩

/-- Behind an opening bracket the level is one higher. -/
theorem within {k k' : Token → Parse α} (h : ∀ here, Bonded B (level + 1) (k here) (k' here)) {i : ι} (hi : B.scope level i) :
    Together (fun c c' => B.holds i c c' ∧ c.here.kind.opens = true) (Parse.consume >>= k) (Parse.consume >>= k') (B.holds i) := by
  rintro c c' ⟨hc, hopens⟩
  obtain ⟨j, hj, hnew, hback⟩ := B.nested hi hc hopens
  have hhere : c.here = c'.here := (B.peek hc 0).1
  have hl : (Parse.consume >>= k) c = k c.here (Parse.consume c).2 := rfl
  have hr : (Parse.consume >>= k') c' = k' c'.here (Parse.consume c').2 := rfl
  rw [hl, hr, ← hhere]
  obtain ⟨heq, hQ⟩ := (h c.here).together j hj _ _ hnew
  exact ⟨heq, hback hQ⟩

theorem expect_eq {kind : TokenKind} {c : Cursor} (h : c.here.kind.sameKind kind = true) :
    Parse.expect kind c = (c.here.loc, (Parse.consume (Parse.current (Parse.current c).2).2).2) := by
  have hhere : (Parse.current c).2.here = c.here := Cursor.here_peek 0 c
  have haccept : Parse.accept kind (Parse.current c).2
      = (true, (Parse.consume (Parse.current (Parse.current c).2).2).2) := by
    change (if (Parse.current c).2.here.kind.sameKind kind then (do
      let _ ← Parse.consume
      return true) else return false : Parse Bool) (Parse.current (Parse.current c).2).2 = _
    rw [if_pos (hhere.symm ▸ h)]
    rfl
  change (if (Parse.accept kind (Parse.current c).2).1 then return c.here.loc else do
      Parse.reportExpected kind.display
      return c.here.loc : Parse Location) (Parse.accept kind (Parse.current c).2).2 = _
  rw [haccept]
  rfl

/-- So it is behind an opening bracket that is asked for and comes next. -/
theorem expect_within {kind : TokenKind} (hkind : kind.opens = true) {k k' : Location → Parse α}
    (h : ∀ loc, Bonded B (level + 1) (k loc) (k' loc)) {i : ι} (hi : B.scope level i) :
    Together (fun c c' => B.holds i c c' ∧ c.here.kind = kind) (Parse.expect kind >>= k) (Parse.expect kind >>= k') (B.holds i) := by
  rintro c c' ⟨hc, hhere⟩
  have hsame : kind.sameKind kind = true := by
    cases kind with
    | punctuation mark => simp [TokenKind.sameKind]
    | _ => cases hkind
  have hhere' : c.here = c'.here := (B.peek hc 0).1
  have hl : (Parse.expect kind >>= k) c = k c.here.loc (Parse.consume (Parse.current (Parse.current c).2).2).2 := by
    change k (Parse.expect kind c).1 (Parse.expect kind c).2 = _
    rw [expect_eq (hhere ▸ hsame)]
  have hr : (Parse.expect kind >>= k') c' = k' c'.here.loc (Parse.consume (Parse.current (Parse.current c').2).2).2 := by
    change k' (Parse.expect kind c').1 (Parse.expect kind c').2 = _
    rw [expect_eq (hhere' ▸ hhere ▸ hsame)]
  have hopens : (Parse.current (Parse.current c).2).2.here.kind.opens = true := by
    rw [Parse.current, Cursor.here_peek, Cursor.here_peek, hhere, hkind]
  obtain ⟨j, hj, hnew, hback⟩ := B.nested hi (B.peek (B.peek hc 0).2 0).2 hopens
  rw [hl, hr, ← hhere']
  obtain ⟨heq, hQ⟩ := (h c.here.loc).together j hj _ _ hnew
  exact ⟨heq, hback hQ⟩

end Bonded

/-! ## Reports that are made only if there are no others -/

/-- Two runs that a relation holds of, and for each a flag that says whether something has been reported. If only the second flag is
set, the first run may from now on report what the second one holds back. -/
structure Heard {ι : Type} (B : Bond ι) (i : ι) (quiet quiet' : Bool) (c c' : Cursor) : Prop where
  holds : B.holds i c c'
  follows : quiet = true → quiet' = true
  alone : quiet = false → quiet' = true → ∀ {fault : Fault} {d d'}, B.holds i d d' → c'.log.size ≤ d'.log.size →
    fault.isLexical = false → ∀ loc, B.holds i (Parse.report fault loc (Parse.current d).2).2 d'

namespace Bonded

variable {ι : Type} {B : Bond ι} {level : Int} {α β : Type} {i : ι} {n n' : Nat} {quiet quiet' : Bool} {c c' : Cursor}

/-- The flags of runs that have just been asked for the number of reports since the base. -/
theorem heard_of_base (hbase : B.base i n n') (h : B.holds i c c') : Heard B i (n < c.log.size) (n' < c'.log.size) c c' := by
  refine ⟨h, fun hquiet => ?_, fun hquiet hquiet' fault d d' hd hle hfault loc => ?_⟩
  · exact decide_eq_true (B.follows hbase h (of_decide_eq_true hquiet))
  · exact B.alone hbase h (of_decide_eq_false hquiet) (of_decide_eq_true hquiet') hd hle hfault loc

/-- Reports are never taken back. -/
theorem size_le {f g : Parse α} (hf : Bonded B level f g) (hi : B.scope level i) (h : B.holds i c c') :
    c'.log.size ≤ (g c').2.log.size := by
  obtain ⟨j, hj, hbase, hc, -⟩ := B.since hi h
  exact (B.counts hbase (hf.together j hj c c' hc).2).2

/-- What is bonded leaves the flags right. -/
theorem heard {f g : Parse α} (hf : Bonded B level f g) (hi : B.scope level i) :
    Together (Heard B i quiet quiet') f g (Heard B i quiet quiet') := by
  intro c c' h
  obtain ⟨heq, hnew⟩ := hf.together i hi c c' h.holds
  refine ⟨heq, hnew, h.follows, fun hquiet hquiet' fault d d' hd hle hfault loc => ?_⟩
  exact h.alone hquiet hquiet' hd ((hf.size_le hi h.holds).trans hle) hfault loc

/-- A report that a flag suppresses: the first run may make it alone. -/
theorem missing_together (hi : B.scope level i) (expected : String) : Together (Heard B i quiet quiet')
    (if quiet then return () else Parse.reportExpected expected) (if quiet' then return () else Parse.reportExpected expected)
    (B.holds i) := by
  intro c c' h
  cases quiet with
  | true =>
    rw [if_pos rfl, if_pos (h.follows rfl)]
    exact ⟨rfl, h.holds⟩
  | false =>
    cases quiet' with
    | false =>
      have hreport : Bonded B level (Parse.reportExpected expected) (Parse.reportExpected expected) := inferInstance
      exact hreport.together i hi c c' h.holds
    | true => exact ⟨rfl, h.alone rfl rfl h.holds le_rfl rfl _⟩

/-- Parsers that remember the number of reports need only be bonded from there on. -/
theorem since {k k' : Nat → Parse α}
    (h : ∀ i n n', B.scope level i → B.base i n n' → Together (B.holds i) (k n) (k' n') (B.holds i)) :
    Bonded B level (Parse.reports >>= k) (Parse.reports >>= k') := by
  refine ⟨fun i hi c c' hc => ?_⟩
  obtain ⟨j, hj, hbase, hc', hback⟩ := B.since hi hc
  obtain ⟨heq, hnew⟩ := h j _ _ hj hbase c c' hc'
  exact ⟨heq, hback hnew⟩

/-- What is reported as missing if nothing else has been reported since the base. -/
theorem reportMissing_together (hi : B.scope level i) (hbase : B.base i n n') (kind : TokenKind) : Together (B.holds i)
    (Grammar.reportMissing n kind) (Grammar.reportMissing n' kind) (B.holds i) := by
  have hflag : ∀ {n : Nat} {d : Cursor}, n ≤ d.log.size → Grammar.reportMissing n kind d
      = (if decide (n < d.log.size) then return () else Parse.reportExpected kind.display : Parse Unit) d := by
    intro n d hle
    change (if d.log.size == n then Parse.reportExpected kind.display else return () : Parse Unit) d = _
    by_cases heq : d.log.size = n
    · rw [if_pos (beq_iff_eq.2 heq), if_neg (by rw [decide_eq_true_eq]; omega)]
    · rw [if_neg (by rw [beq_iff_eq]; exact heq), if_pos (decide_eq_true (by omega))]
  intro c c' h
  obtain ⟨hle, hle'⟩ := B.counts hbase h
  rw [hflag hle, hflag hle']
  exact missing_together hi kind.display c c' (heard_of_base hbase h)

end Bonded

end GoSyntax
