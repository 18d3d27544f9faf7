import GoSyntax.Proofs.Context.Statements

/-!
# The whole grammar is pursued

What holds of the productions of each depth holds of the productions without a depth. Where a run ends with its first report it is enough
to start from productions that only report; and a clean run of a bounded depth is a run of the whole grammar, so that each of its passes
takes a token.
-/

namespace GoSyntax

open Parse Grammar FollowsAt

variable {B : Pursuit} {p q : Productions}

namespace Productions

/-- Productions over pursued ones are pursued. -/
theorem Pursued.deepen (h : p.Pursued B q) (hpaced : p.deepen.LoopsPaced B) : p.deepen.Pursued B q.deepen where
  type? := type?_follows h false
  expr := expr_follows h
  unary := unary_follows h
  elementValue := elementValue_follows h
  stmt := stmt_follows h
  paced := hpaced

theorem LoopsPaced.of_even (heven : ∀ c c', B.holds c c' → c.feed.items.length = c'.feed.items.length) (p : Productions) :
    p.LoopsPaced B where
  types := .inl heven
  exprs _ := .inl heven
  operands _ _ _ := .inl heven
  suffixes _ := .inl heven
  arguments _ := .inl heven
  elements _ := .inl heven
  entries _ := .inl heven
  parameters _ := .inl heven
  fields := .inl heven
  methods := .inl heven
  statements := .inl heven
  cases _ := .inl heven
  comms := .inl heven
  specs _ := .inl heven

/-- Every pass over the productions that is not the last one strides, if the passes over others that pursue them do. -/
theorem LoopsPaced.of_strides {C : Pursuit} (h : p.Pursued C full)
    (hstrides : ∀ {α : Type} [Movable α] {pass pass' : α → Parse (ForInStep α)}, Ends pass' →
      (∀ a, Follows C (pass a) (pass' (moved C.shift a))) → Strides B pass) : p.LoopsPaced B where
  types := .inr (hstrides loopsEnd_full.types (separatedPass (type_follows h)))
  exprs level := .inr (hstrides (loopsEnd_full.exprs level) (separatedPass (expr_follows h level)))
  operands level families family := .inr (hstrides (loopsEnd_full.operands level families family)
    (binaryPass_follows family (binaryLevels_follows h level families)))
  suffixes level := .inr (hstrides (loopsEnd_full.suffixes level) (suffix_follows h level))
  arguments level := .inr (hstrides (loopsEnd_full.arguments level) (memberPass _ (argument_follows h level)))
  elements level := .inr (hstrides (loopsEnd_full.elements level) (memberPass _ (element_follows h level)))
  entries variadic := .inr (hstrides (loopsEnd_full.entries variadic) (entryPass_follows h variadic))
  parameters variadic := .inr (hstrides (loopsEnd_full.parameters variadic) (groupPass_follows h variadic))
  fields := .inr (hstrides loopsEnd_full.fields (itemPass_follows ((field_follows h).weaken fun _ _ => trivial)))
  methods := .inr (hstrides loopsEnd_full.methods (itemPass_follows (interfaceElem_follows h)))
  statements := .inr (hstrides loopsEnd_full.statements (statementPass_follows h))
  cases ofTypes := .inr (hstrides (loopsEnd_full.cases ofTypes) (clausePass_follows (caseClause_follows h ofTypes)))
  comms := .inr (hstrides loopsEnd_full.comms (clausePass_follows (commClause_follows h)))
  specs keyword := .inr (hstrides (loopsEnd_full.specs keyword) (specPass_follows h keyword))

theorem loopsPaced_full : full.LoopsPaced B where
  types := .inr (strides_of_ends loopsEnd_full.types)
  exprs level := .inr (strides_of_ends (loopsEnd_full.exprs level))
  operands level families family := .inr (strides_of_ends (loopsEnd_full.operands level families family))
  suffixes level := .inr (strides_of_ends (loopsEnd_full.suffixes level))
  arguments level := .inr (strides_of_ends (loopsEnd_full.arguments level))
  elements level := .inr (strides_of_ends (loopsEnd_full.elements level))
  entries variadic := .inr (strides_of_ends (loopsEnd_full.entries variadic))
  parameters variadic := .inr (strides_of_ends (loopsEnd_full.parameters variadic))
  fields := .inr (strides_of_ends loopsEnd_full.fields)
  methods := .inr (strides_of_ends loopsEnd_full.methods)
  statements := .inr (strides_of_ends loopsEnd_full.statements)
  cases ofTypes := .inr (strides_of_ends (loopsEnd_full.cases ofTypes))
  comms := .inr (strides_of_ends loopsEnd_full.comms)
  specs keyword := .inr (strides_of_ends (loopsEnd_full.specs keyword))

/-! ## From each cursor at some depth -/

/-- Where the second parser follows the first one depends only on what they do at the cursors where they start. -/
theorem follows_of_same {α : Type} [Movable α] {f g : Parse α}
    (h : ∀ c, ∃ f' g' : Parse α, Follows B f' g' ∧ f' c = f c ∧ ∀ c', B.holds c c' → g' c' = g c') : Follows B f g := by
  refine ⟨fun c _ hc => ?_, fun c c' _ hc => ?_⟩
  · obtain ⟨f', g', hfollows, hf, -⟩ := h c
    rw [← hf]
    exact hfollows.lost c trivial hc
  · obtain ⟨f', g', hfollows, hf, hg⟩ := h c
    rw [← hf, ← hg c' hc]
    exact hfollows.found c c' trivial hc

/-- If for each start there are pursued productions that do there what the whole grammar does, the whole grammar is pursued. -/
theorem pursued_full (h : ∀ c, ∃ p q, p.Pursued B q ∧ SameAt c p full ∧ ∀ c', B.holds c c' → SameAt c' q full) : full.Pursued B full where
  type? := follows_of_same fun c =>
    let ⟨p, q, hfollows, hc, hc'⟩ := h c
    ⟨p.type?, q.type?, hfollows.type?, hc.type?, fun c' h => (hc' c' h).type?⟩
  expr level := follows_of_same fun c =>
    let ⟨p, q, hfollows, hc, hc'⟩ := h c
    ⟨p.expr level, q.expr level, hfollows.expr level, hc.expr level, fun c' h => (hc' c' h).expr level⟩
  unary level := follows_of_same fun c =>
    let ⟨p, q, hfollows, hc, hc'⟩ := h c
    ⟨p.unary level, q.unary level, hfollows.unary level, hc.unary level, fun c' h => (hc' c' h).unary level⟩
  elementValue level := follows_of_same fun c =>
    let ⟨p, q, hfollows, hc, hc'⟩ := h c
    ⟨p.elementValue level, q.elementValue level, hfollows.elementValue level, hc.elementValue level,
      fun c' h => (hc' c' h).elementValue level⟩
  stmt := follows_of_same fun c =>
    let ⟨p, q, hfollows, hc, hc'⟩ := h c
    ⟨p.stmt, q.stmt, hfollows.stmt, hc.stmt, fun c' h => (hc' c' h).stmt⟩
  paced := loopsPaced_full

/-! ## Runs that end with their first report -/

/-- Productions that read nothing and report this. -/
def refusing : Productions :=
  { exhausted with type? := do
      reportHere .expectedType
      return none }

theorem follows_of_escaped {α : Type} [Movable α] {f g : Parse α} (h : ∀ c, B.escaped (f c).2) : Follows B f g :=
  ⟨fun c _ _ => h c, fun c _ _ _ => .inl (h c)⟩

theorem pursued_refusing (hlog : ∀ c, c.log ≠ #[] → B.escaped c) (hpaced : refusing.LoopsPaced B) (q : Productions) :
    refusing.Pursued B q where
  type? := follows_of_escaped fun _ => hlog _ Array.push_ne_empty
  expr _ := follows_of_escaped fun _ => hlog _ Array.push_ne_empty
  unary _ := follows_of_escaped fun _ => hlog _ Array.push_ne_empty
  elementValue _ := follows_of_escaped fun _ => hlog _ Array.push_ne_empty
  stmt := follows_of_escaped fun _ => hlog _ Array.push_ne_empty
  paced := hpaced

theorem pursued_deepenBy (hlog : ∀ c, c.log ≠ #[] → B.escaped c) (hpaced : ∀ n, (refusing.deepenBy n).LoopsPaced B) (n : Nat) :
    (refusing.deepenBy n).Pursued B full := by
  induction n with
  | zero => exact pursued_refusing hlog (hpaced 0) full
  | succ n ih =>
    have h := ih.deepen (hpaced (n + 1))
    rwa [deepen_full] at h

end Productions

open Productions

/-- The same source read twice, up to the first report. -/
def Pursuit.untilReport : Pursuit where
  shift := id
  spare := 0
  escaped c := c.log ≠ #[]
  holds c c' := c = c' ∧ c.log = #[]
  counts n n' := n = n'
  peek := by
    rintro c _ k ⟨rfl, -⟩ -
    by_cases hlog : (Parse.peek k c).2.log = #[]
    · exact .inr ⟨rfl, rfl, hlog⟩
    · exact .inl hlog
  consume := by
    rintro c _ ⟨rfl, -⟩
    by_cases hlog : (Parse.consume c).2.log = #[]
    · exact .inr ⟨rfl, rfl, hlog⟩
    · exact .inl hlog
  report _ _ _ := .inl Array.push_ne_empty
  reports := by
    rintro c _ ⟨rfl, -⟩
    rfl
  countable _ n := ⟨n, rfl⟩
  missing := by
    rintro c _ n _ ⟨rfl, -⟩ rfl kind
    by_cases hlog : (Grammar.reportMissing n kind c).2.log = #[]
    · exact .inr ⟨rfl, hlog⟩
    · exact .inl hlog
  spared := .inl rfl
  room := by
    rintro c _ ⟨rfl, -⟩
    exact le_rfl
  peek_escaped hc k hlog := hc (Cursor.log_eq_empty_of_log (Cursor.log_peek k _) hlog)
  consume_escaped hc hlog := hc (Cursor.log_eq_empty_of_log (Cursor.log_consume _) hlog)
  report_escaped _ _ _ := Array.push_ne_empty

/-- A clean run of a bounded depth is a run of the whole grammar. -/
theorem pursued_untilReport (n : Nat) : (refusing.deepenBy n).Pursued .untilReport full :=
  pursued_deepenBy (fun _ => id) (fun n => .of_even (fun _ _ h => by rw [h.1]) _) n

/-- A clean pass at a bounded depth that asks for another one has taken a token. -/
theorem strides_of_ends_full {α : Type} [Movable α] {pass pass' : α → Parse (ForInStep α)} (hlog : ∀ c, c.log ≠ #[] → B.escaped c)
    (hends : Ends pass') (h : ∀ a, Follows .untilReport (pass a) (pass' (moved Pursuit.untilReport.shift a))) : Strides B pass := by
  intro a c a' hyield hescaped
  have hclean : ¬Pursuit.untilReport.escaped (pass a c).2 := fun hne => hescaped (hlog _ hne)
  have hstart : c.log = #[] := not_not.1 fun hne => hclean ((h a).lost c trivial hne)
  obtain ⟨heq, hcursor, -⟩ := ((h a).found c c trivial ⟨rfl, hstart⟩).resolve_left hclean
  rw [hyield] at heq
  rw [hcursor]
  exact hends.advances _ c _ heq

/-- The whole grammar is pursued by itself, if a run escapes with its first report. -/
theorem pursued_of_reports (hlog : ∀ c, c.log ≠ #[] → B.escaped c) : full.Pursued B full := by
  have hdepth : ∀ n, (refusing.deepenBy n).Pursued B full :=
    pursued_deepenBy hlog fun n => .of_strides (pursued_untilReport n) (strides_of_ends_full hlog)
  exact pursued_full fun c => ⟨_, _, hdepth (c.kinds.length + 1), sameAt_full _ (Nat.lt_succ_self _), fun c' _ => .refl c' full⟩

/-- The whole grammar is pursued by itself, if both runs have always as many tokens left and no run escapes on its way. -/
theorem pursued_of_even (heven : ∀ c c', B.holds c c' → c.feed.items.length = c'.feed.items.length)
    (hbase : exhausted.Pursued B exhausted) : full.Pursued B full := by
  have hlen : ∀ c : Cursor, c.kinds.length = c.feed.items.length := fun c => by simp [Cursor.kinds, Cursor.tokens]
  have hdepth : ∀ n, (ofDepth n).Pursued B (ofDepth n) := fun n => by
    induction n with
    | zero => exact hbase
    | succ n ih => exact ih.deepen (.of_even heven _)
  refine pursued_full fun c => ⟨_, _, hdepth (c.kinds.length + 1), sameAt_full _ (Nat.lt_succ_self _), fun c' hc => ?_⟩
  rw [hlen, heven c c' hc, ← hlen]
  exact sameAt_full _ (Nat.lt_succ_self _)

end GoSyntax
