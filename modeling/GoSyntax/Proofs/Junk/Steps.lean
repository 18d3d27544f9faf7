import GoSyntax.Proofs.Junk.Grafts

/-!
# Steps and loops of two runs with junk in one of them

Each step over the tokens is the same in both runs as long as a token is left in front of the junk. What reports is never part of a clean
run. A loop is followed pass by pass; a loop over the members of a list may come to the junk between two passes, and it is the list that
says how it gets over it.
-/

namespace GoSyntax

open Parse Cursor

namespace Grafts

variable {S : Site} {φ ψ : Token → Prop} {α β : Type} {u : Editing → α → α} {w : Editing → β → β}

/-! ## Single steps -/

theorem peek (k : Nat) (hk : ∀ X c c', X ≠ [] → φ c.here → S.Before X c c' → k < X.length) :
    Grafts S φ edited (Parse.peek k) (fun _ => Parse.peek k) := by
  refine ⟨fun c _ => log_eq_empty_of_log (log_peek k c), fun j c _ hc _ => ⟨?_, Site.repeats_peek c k⟩, fun X c c' hX hφ hc _ => ?_⟩
  · rw [Onward.peek hc.1]
    exact hc
  · exact .ahead X (Site.repeats_peek c k) (hc.peek_eq (hk X c c' hX hφ hc)) (hc.peek k)

theorem current : Grafts S φ edited Parse.current (fun _ => Parse.current) :=
  peek 0 fun _ _ _ hX _ _ => List.length_pos_iff.2 hX

/-- Behind a name or an arrow one more token may be looked at: the token in front of the junk is neither. -/
theorem second (h : ∀ t, φ t → t.kind.announces = true) : Grafts S φ edited (Parse.peek 1) (fun _ => Parse.peek 1) := by
  refine peek 1 fun X c c' hX hφ hc => ?_
  obtain ⟨t, Y, rfl⟩ := List.exists_cons_of_ne_nil hX
  cases Y with
  | nil =>
    have hannounces := h _ hφ
    rw [hc.here_eq.1, hc.announces_eq] at hannounces
    exact absurd hannounces Bool.false_ne_true
  | cons _ _ => exact Nat.succ_lt_succ (Nat.succ_pos _)

theorem consume : Grafts S φ edited Parse.consume (fun _ => Parse.consume) := by
  refine ⟨fun c _ => log_eq_empty_of_log (log_consume c), fun j c _ hc _ => ⟨?_, Site.repeats_consume c⟩, fun X c c' hX _ hc _ => ?_⟩
  · cases j with
    | true => exact hc.consume
    | false => exact hc.consume.weaken
  · obtain ⟨t, Y, rfl⟩ := List.exists_cons_of_ne_nil hX
    exact .ahead Y (Site.repeats_consume c) (hc.here_eq.2.trans hc.here_eq.1.symm) hc.consume

/-- Behind a token that is taken a list may be opened. -/
theorem opened {k : Token → Parse β} {k' : Editing → Token → Parse β} (hk : ∀ t, Enters S w (k t) (k' · t)) :
    Grafts S φ w (Parse.consume >>= k) (fun E => Parse.consume >>= k' E) := by
  refine ⟨fun c _ hclean => log_eq_empty_of_log (log_consume c) ((hk _).quiet _ hclean), fun j c _ hc hclean => ?_,
    fun X c c' hX _ hc hclean => ?_⟩
  · obtain ⟨hbehind, hrepeats⟩ := (hk c.here).behind _ hc.consume hclean
    refine ⟨?_, (Site.repeats_consume c).bind hrepeats⟩
    cases j with
    | true => exact hbehind
    | false => exact hbehind.weaken
  · obtain ⟨t, Y, rfl⟩ := List.exists_cons_of_ne_nil hX
    exact .prepend (Site.repeats_consume c) (hc.here_eq.2.trans hc.here_eq.1.symm) ((hk _).before Y _ _ hc.consume hclean)

/-- A clean run has not reported anything. -/
theorem report (fault : Fault) (loc : Location) {g : Editing → Parse Unit} : Grafts S φ edited (Parse.report fault loc) g :=
  never fun _ => Array.push_ne_empty

/-- What is done next may depend on the next token, which is still there. -/
theorem currentAt {k : Token → Parse β} {k' : Editing → Token → Parse β} (h : ∀ here, φ here → Grafts S (· = here) w (k here) (k' · here)) :
    Grafts S φ w (Parse.current >>= k) (fun E => Parse.current >>= k' E) := by
  refine ⟨fun c hφ hclean => ?_, fun j c hφ hc hclean => ?_, fun X c c' hX hφ hc hclean => ?_⟩
  · exact log_eq_empty_of_log (log_peek 0 c) ((h _ hφ).quiet _ (here_peek 0 c) hclean)
  · have hat : (Parse.current c).2 = c := Onward.peek hc.1 0
    obtain ⟨hbehind, hrepeats⟩ := (h _ hφ).behind j _ (here_peek 0 c) (hat.symm ▸ hc) hclean
    exact ⟨hbehind, (Site.repeats_peek c 0).bind hrepeats⟩
  · have hsame : c'.here = c.here := hc.peek_eq (List.length_pos_iff.2 hX)
    exact .prepend (Site.repeats_peek c 0) hsame ((h _ hφ).before X _ _ hX (here_peek 0 c) (hc.peek 0) hclean)

/-! ## Single tokens -/

theorem isAt (kind : TokenKind) : Grafts S φ edited (Parse.isAt kind) (fun _ => Parse.isAt kind) := current.bind fun _ => pure fun _ => rfl

theorem accept (kind : TokenKind) : Grafts S φ edited (Parse.accept kind) (fun _ => Parse.accept kind) :=
  (isAt kind).bind fun _ => .ite (consume.bind fun _ => pure fun _ => rfl) (pure fun _ => rfl)

theorem reportUnless (ok : Bool) (fault : Fault) (loc : Location) :
    Grafts S φ edited (Parse.reportUnless ok fault loc) (fun _ => Parse.reportUnless ok fault loc) :=
  .ite (pure fun _ => rfl) (report fault loc)

theorem reportHere (fault : String → Fault) : Grafts S φ edited (Parse.reportHere fault) (fun _ => Parse.reportHere fault) :=
  current.bind fun _ => report _ _

theorem reportExpected (expected : String) :
    Grafts S φ edited (Parse.reportExpected expected) (fun _ => Parse.reportExpected expected) := reportHere _

theorem expect (kind : TokenKind) : Grafts S φ edited (Parse.expect kind) (fun _ => Parse.expect kind) :=
  current.bind fun _ => (accept kind).bind fun _ => .ite (pure fun _ => rfl) ((reportExpected _).bind fun _ => pure fun _ => rfl)

/-- Behind a token that is accepted a list may be opened. -/
theorem acceptOpening (kind : TokenKind) {k : Bool → Parse β} {k' : Editing → Bool → Parse β} (hopen : Enters S w (k true) (k' · true))
    (hother : Grafts S (fun _ => True) w (k false) (k' · false)) :
    Grafts S φ w (Parse.accept kind >>= k) (fun E => Parse.accept kind >>= k' E) := by
  simp only [accept_bind]
  exact (isAt kind).bind fun _ => .ite (opened fun _ => hopen) hother

/-- Behind a token that is asked for a list may be opened. -/
theorem expectOpening (kind : TokenKind) {k : Location → Parse β} {k' : Editing → Location → Parse β}
    (hk : ∀ loc, Enters S w (k loc) (k' · loc)) :
    Grafts S φ w (Parse.expect kind >>= k) (fun E => Parse.expect kind >>= k' E) := by
  have hmissing : ∀ loc, Grafts S (fun _ => True) w (Parse.reportExpected kind.display >>= fun _ => k loc)
      (fun E => Parse.reportExpected kind.display >>= fun _ => k' E loc) := fun loc =>
    never fun _ hclean => Array.push_ne_empty ((hk loc).quiet _ hclean)
  have hstep : ∀ loc, Grafts S (fun _ => True) w
      (Parse.accept kind >>= fun b => if b then k loc else Parse.reportExpected kind.display >>= fun _ => k loc)
      (fun E => Parse.accept kind >>= fun b => if b then k' E loc else Parse.reportExpected kind.display >>= fun _ => k' E loc) :=
    fun loc => acceptOpening kind (hk loc) (hmissing loc)
  have heq : ∀ r : Location → Parse β, (Parse.expect kind >>= r) = (Parse.current >>= fun here =>
      Parse.accept kind >>= fun b => if b then r here.loc else Parse.reportExpected kind.display >>= fun _ => r here.loc) := by
    intro r
    rw [Parse.expect, bind_assoc]
    refine bind_congr fun here => ?_
    rw [bind_assoc]
    refine bind_congr fun b => ?_
    cases b <;> rfl
  simp only [heq]
  exact current.bind fun here => hstep here.loc

end Grafts

/-! ## Loops -/

section Loops

variable {S : Site} {σ : Type} {u : Editing → σ → σ} {pass pass' : σ → Parse (ForInStep σ)} {Safe : σ → Cursor → Prop} {a a' : σ}
    {c c' : Cursor}

/-- How a loop gets over the junk in front of the next member: one pass of the second run reads the junk, and the next one reads what the
first run reads in one pass. -/
structure Site.Crosses (S : Site) (u : Editing → σ → σ) (pass pass' : σ → Parse (ForInStep σ)) (a : σ) (c c' : Cursor) : Prop where
  behind : S.Behind true (pass a c).2
  passes : ∃ b, (pass' (u S.change a) c').1 = .yield b ∧ (pass' b (pass' (u S.change a) c').2).1 = stepMap (u S.change) (pass a c).1
    ∧ (pass a c).2.Quieter (pass' b (pass' (u S.change a) c').2).2
    ∧ S.origin.Reports [S.reported] (pass' b (pass' (u S.change a) c').2).2

/-- What has to be known of the passes of a loop in two runs. It is safe to go on with the loop at a cursor if no member can be read there
that the junk stands in front of. -/
structure LoopLaws (S : Site) (u : Editing → σ → σ) (pass pass' : σ → Parse (ForInStep σ)) (Safe : σ → Cursor → Prop) : Prop where
  ends : Ends pass'
  strides : FollowsAt.Strides .untilReport pass
  quiet : ∀ a c, (pass a c).2.log = #[] → c.log = #[]
  inside : ∀ a c, S.Behind true c → Safe a c
  behind : ∀ j a c, S.Behind j c → Safe a c → (pass a c).2.log = #[] → S.Behind j (pass a c).2
    ∧ S.Repeats (fun E => stepMap (u E)) (pass a) (fun E => pass' (u E a)) c ∧ ∀ a', (pass a c).1 = .yield a' → Safe a' (pass a c).2
  before : ∀ X a c c', X ≠ [] → S.Before X c c' → (pass a c).2.log = #[] → S.Outcome
    (fun r d => S.Behind false d ∧ ∀ a', r = .yield a' → Safe a' d) (fun E => stepMap (u E)) (pass a) (fun E => pass' (u E a)) c c'
  cut : ∀ a c c', S.Before [] c c' → (pass a c).2.log = #[] → Safe a c ∨ S.Crosses u pass pass' a c c'

namespace LoopLaws

/-- A clean run of the loop ends with a clean pass, or it has a clean pass and goes on. A pass that goes on has taken a token, so if there
may be as many passes as there are tokens left, this stays so. -/
theorem passes_cases (h : LoopLaws S u pass pass' Safe) (ns : List (Noted Token)) (a : σ) (c : Cursor) (hroom : c.kinds.length ≤ ns.length)
    (hclean : (passes pass ns a c).2.log = #[]) : (pass a c).2.log = #[]
      ∧ ((∃ a', (pass a c).1 = .done a' ∧ passes pass ns a c = (a', (pass a c).2))
        ∨ ∃ a' ns', (pass a c).1 = .yield a' ∧ passes pass ns a c = passes pass ns' a' (pass a c).2 ∧ ns'.length < ns.length
          ∧ (pass a c).2.kinds.length ≤ ns'.length) := by
  have hquiet : ∀ ns a c, (passes pass ns a c).2.log = #[] → (pass a c).2.log = #[] := by
    intro ns
    induction ns with
    | nil => exact fun a c hclean => hclean
    | cons n ns ih =>
      intro a c hclean
      cases hr : (pass a c).1 with
      | done a' =>
        rw [passes_done hr] at hclean
        exact hclean
      | yield a' =>
        rw [passes_yield hr] at hclean
        exact h.quiet _ _ (ih _ _ hclean)
  have hpass := hquiet _ _ _ hclean
  refine ⟨hpass, ?_⟩
  cases hr : (pass a c).1 with
  | done a' => exact .inl ⟨a', rfl, passes_done hr ns⟩
  | yield a' =>
    have hlt := h.strides a c a' hr (not_not.2 hpass)
    cases ns with
    | nil => exact absurd (hlt.trans_le hroom) (Nat.not_lt_zero _)
    | cons n ns' => exact .inr ⟨a', ns', rfl, passes_yield hr n ns', Nat.lt_succ_self _, Nat.le_of_lt_succ (hlt.trans_le hroom)⟩

section Pass

variable {f f' : Parse σ}

theorem repeats_done (h : LoopLaws S u pass pass' Safe) (hdone : (pass a c).1 = .done a') (hf : f c = (a', (pass a c).2))
    (hpass : S.Repeats (fun E => stepMap (u E)) (pass a) (fun E => pass' (u E a)) c) : S.Repeats u f (fun E => loop (u E a) pass') c := by
  intro E hE
  obtain ⟨heq, hecho⟩ := hpass E hE
  rw [hdone] at heq hecho
  dsimp only at heq hecho ⊢
  rw [hf]
  refine ⟨?_, fun c' hc' => ?_⟩
  · rw [h.ends.loop_eq_of_done (congrArg Prod.fst heq), heq]
  · obtain ⟨hvalue, hquieter, hreports⟩ := hecho c' hc'
    rw [h.ends.loop_eq_of_done hvalue]
    exact ⟨rfl, hquieter, hreports⟩

theorem repeats_yield (h : LoopLaws S u pass pass' Safe) (hyield : (pass a c).1 = .yield a') (hf : f c = f' (pass a c).2)
    (hpass : S.Repeats (fun E => stepMap (u E)) (pass a) (fun E => pass' (u E a)) c)
    (hrest : S.Repeats u f' (fun E => loop (u E a') pass') (pass a c).2) : S.Repeats u f (fun E => loop (u E a) pass') c := by
  intro E hE
  obtain ⟨heq, hecho⟩ := hpass E hE
  obtain ⟨heq', hecho'⟩ := hrest E hE
  rw [hyield] at heq hecho
  dsimp only at heq hecho ⊢
  rw [hf]
  refine ⟨?_, fun c' hc' => ?_⟩
  · rw [h.ends.loop_eq_of_yield (congrArg Prod.fst heq), heq]
    exact heq'
  · obtain ⟨hvalue, hquieter, hreports⟩ := hecho c' hc'
    obtain ⟨hvalue', hquieter', hreports'⟩ := hecho' _ hquieter
    rw [h.ends.loop_eq_of_yield hvalue]
    exact ⟨hvalue', hquieter', hreports.trans hreports'⟩

/-- The loop goes on where the passes have ended. -/
theorem outcome_yield (h : LoopLaws S u pass pass' Safe) (hyield : (pass a c).1 = .yield a') (hf : f c = f' (pass a c).2)
    (hpass : S.Repeats (fun E => stepMap (u E)) (pass a) (fun E => pass' (u E a)) c)
    (hvalue : (pass' (u S.change a) c').1 = stepMap (u S.change) (pass a c).1)
    (hrest : S.Outcome (fun _ => S.Behind false) u f' (fun E => loop (u E a') pass') (pass a c).2 (pass' (u S.change a) c').2) :
    S.Outcome (fun _ => S.Behind false) u f (fun E => loop (u E a) pass') c c' := by
  rw [hyield] at hvalue
  have hgoesOn := h.ends.loop_eq_of_yield hvalue
  cases hrest with
  | across hvalue' hafter =>
    refine .across ?_ ?_
    · rw [hgoesOn, hf]
      exact hvalue'
    · rw [hgoesOn, hf]
      exact hafter
  | ahead X hrepeats hvalue' hbefore =>
    refine .ahead X (h.repeats_yield hyield hf hpass hrepeats) ?_ ?_
    · rw [hgoesOn, hf]
      exact hvalue'
    · rw [hgoesOn, hf]
      exact hbefore
  | astray hrepeats hbehind => exact .astray (h.repeats_yield hyield hf hpass hrepeats) (by rw [hf]; exact hbehind)

end Pass

/-- Behind the first token of the member the loop is repeated. -/
theorem passes_behind (h : LoopLaws S u pass pass' Safe) (ns : List (Noted Token)) (a : σ) (j : Bool) (c : Cursor)
    (hroom : c.kinds.length ≤ ns.length) (hc : S.Behind j c) (hsafe : Safe a c) (hclean : (passes pass ns a c).2.log = #[]) :
    S.Behind j (passes pass ns a c).2 ∧ S.Repeats u (passes pass ns a) (fun E => loop (u E a) pass') c := by
  induction hn : ns.length using Nat.strong_induction_on generalizing ns a c with
  | _ n ih =>
    subst hn
    obtain ⟨hpass, hcases⟩ := h.passes_cases ns a c hroom hclean
    obtain ⟨hbehind, hrepeats, hsafe'⟩ := h.behind j a c hc hsafe hpass
    rcases hcases with ⟨a', hdone, heq⟩ | ⟨a', ns', hyield, heq, hlt, hroom'⟩
    · rw [heq]
      exact ⟨hbehind, h.repeats_done hdone heq hrepeats⟩
    · rw [heq] at hclean ⊢
      obtain ⟨hbehind', hrest⟩ := ih _ hlt ns' a' _ hroom' hbehind (hsafe' a' hyield) hclean rfl
      exact ⟨hbehind', h.repeats_yield hyield heq hrepeats hrest⟩

/-- The junk is got over, and the loop goes on behind it. -/
theorem passes_across (h : LoopLaws S u pass pass' Safe) (ns : List (Noted Token)) (a : σ) (c c' : Cursor)
    (hroom : c.kinds.length ≤ ns.length)
    (hbehind : S.Behind true (pass a c).2) (hclean : (passes pass ns a c).2.log = #[]) {b : σ} {d : Cursor}
    (hloop : loop (u S.change a) pass' c' = loop b pass' d) (hvalue : (pass' b d).1 = stepMap (u S.change) (pass a c).1)
    (hquieter : (pass a c).2.Quieter (pass' b d).2) (hreports : S.origin.Reports [S.reported] (pass' b d).2) :
    S.Outcome (fun _ => S.Behind false) u (passes pass ns a) (fun E => loop (u E a) pass') c c' := by
  obtain ⟨hpass, ⟨a', hdone, heq⟩ | ⟨a', ns', hyield, heq, -, hroom'⟩⟩ := h.passes_cases ns a c hroom hclean
  · rw [hdone] at hvalue
    have hend := h.ends.loop_eq_of_done hvalue
    refine .across ?_ ?_
    · rw [hloop, hend, heq]
    · rw [hloop, hend, heq]
      exact ⟨hbehind, hquieter, hreports⟩
  · rw [hyield] at hvalue
    have hgoesOn := h.ends.loop_eq_of_yield hvalue
    rw [heq] at hclean
    obtain ⟨hbehind', hrest⟩ := h.passes_behind ns' a' true _ hroom' hbehind (h.inside a' _ hbehind) hclean
    obtain ⟨hvalue', hquieter', hreports'⟩ := (hrest _ Site.edits_change).2 _ hquieter
    refine .across ?_ ?_
    · rw [hloop, hgoesOn, heq]
      exact hvalue'
    · rw [hloop, hgoesOn, heq]
      exact ⟨hbehind', hquieter', hreports.then_quiet hreports'⟩

/-- From in front of the member, or farther in front, the loop gets over the junk, or it does not go on with a member there. -/
theorem passes_before (h : LoopLaws S u pass pass' Safe) (ns : List (Noted Token)) (X : List Token) (a : σ) (c c' : Cursor)
    (hroom : c.kinds.length ≤ ns.length) (hc : S.Before X c c') (hclean : (passes pass ns a c).2.log = #[]) :
    S.Outcome (fun _ => S.Behind false) u (passes pass ns a) (fun E => loop (u E a) pass') c c' := by
  induction hn : ns.length using Nat.strong_induction_on generalizing ns X a c c' with
  | _ n ih =>
    subst hn
    obtain ⟨hpass, hcases⟩ := h.passes_cases ns a c hroom hclean
    by_cases hnil : X = []
    · subst hnil
      rcases h.cut a c c' hc hpass with hsafe | ⟨hbehind, b, hjunk, hvalue, hquieter, hreports⟩
      · obtain ⟨hbehind, hrepeats⟩ := h.passes_behind ns a false c hroom hc.behind hsafe hclean
        exact .astray hrepeats hbehind
      · exact h.passes_across ns a c c' hroom hbehind hclean (h.ends.loop_eq_of_yield hjunk) hvalue hquieter hreports
    · cases h.before X a c c' hnil hc hpass with
      | across hvalue hafter => exact h.passes_across ns a c c' hroom hafter.behind hclean rfl hvalue hafter.quieter hafter.reports
      | ahead Y hrepeats hvalue hbefore =>
        rcases hcases with ⟨a', hdone, heq⟩ | ⟨a', ns', hyield, heq, hlt, hroom'⟩
        · rw [hdone] at hvalue
          have hend := h.ends.loop_eq_of_done hvalue
          refine .ahead Y (h.repeats_done hdone heq hrepeats) ?_ ?_
          · rw [hend, heq]
          · rw [hend, heq]
            exact hbefore
        · rw [heq] at hclean
          exact h.outcome_yield hyield heq hrepeats hvalue (ih _ hlt ns' Y a' _ _ hroom' hbefore hclean rfl)
      | astray hrepeats hknown =>
        obtain ⟨hbehind, hsafe⟩ := hknown
        rcases hcases with ⟨a', hdone, heq⟩ | ⟨a', ns', hyield, heq, hlt, hroom'⟩
        · exact .astray (h.repeats_done hdone heq hrepeats) (by rw [heq]; exact hbehind)
        · rw [heq] at hclean
          obtain ⟨hbehind', hrest⟩ := h.passes_behind ns' a' false _ hroom' hbehind (hsafe a' hyield) hclean
          exact .astray (h.repeats_yield hyield heq hrepeats hrest) (by rw [heq]; exact hbehind')

theorem room (c : Cursor) : c.kinds.length ≤ c.feed.items.length := by simp [Cursor.kinds, Cursor.tokens]

theorem quiet_loop (h : LoopLaws S u pass pass' Safe) (a : σ) (c : Cursor) (hclean : (loop a pass c).2.log = #[]) : c.log = #[] :=
  h.quiet a c (h.passes_cases _ a c (room c) hclean).1

theorem outcome_loop (h : LoopLaws S u pass pass' Safe) (a : σ) {X : List Token} (hc : S.Before X c c')
    (hclean : (loop a pass c).2.log = #[]) :
    S.Outcome (fun _ => S.Behind false) u (loop a pass) (fun E => loop (u E a) pass') c c' := by
  cases h.passes_before _ X a c c' (room c) hc hclean with
  | across hvalue hafter => exact .across hvalue hafter
  | ahead Y hrepeats hvalue hbefore => exact .ahead Y hrepeats hvalue hbefore
  | astray hrepeats hbehind => exact .astray hrepeats hbehind

/-- A loop over the members of a list, behind the token that opens the list. -/
theorem enters (h : LoopLaws S u pass pass' Safe) (start : σ) : Enters S u (loop start pass) (fun E => loop (u E start) pass') :=
  ⟨fun c => h.quiet_loop start c, fun c hc => h.passes_behind _ start true c (room c) hc (h.inside start c hc),
    fun _ _ _ => h.outcome_loop start⟩

/-- A loop whose passes read no members that the junk could stand in front of. -/
theorem grafts (h : LoopLaws S u pass pass' Safe) (hsafe : ∀ a c, Safe a c) {φ : Token → Prop} (start : σ) :
    Grafts S φ u (loop start pass) (fun E => loop (u E start) pass') :=
  ⟨fun c _ => h.quiet_loop start c, fun j c _ hc => h.passes_behind _ start j c (room c) hc (hsafe start c),
    fun _ _ _ _ _ => h.outcome_loop start⟩

end LoopLaws

/-- A loop whose passes do not care about the junk. -/
theorem Grafts.loop {σ : Type} [Editable σ] {pass : σ → Parse (ForInStep σ)} {pass' : σ → Parse (ForInStep σ)} {φ : Token → Prop}
    (hends : Ends pass') (hstrides : FollowsAt.Strides .untilReport pass) {start : σ} {start' : Editing → σ}
    (hstart : ∀ E, start' E = edited E start)
    (h : ∀ a, Grafted S (pass a) (fun E => pass' (edited E a))) :
    Grafts S φ edited (Parse.loop start pass) (fun E => Parse.loop (start' E) pass') := by
  have hlaws : LoopLaws S edited pass pass' fun _ _ => True := by
    refine ⟨hends, hstrides, fun a c => (h a).quiet c trivial, fun _ _ _ => trivial, fun j a c hc _ hclean => ?_,
      fun X a c c' hX hc hclean => ?_,
      fun _ _ _ _ _ => .inl trivial⟩
    · obtain ⟨hbehind, hrepeats⟩ := (h a).behind j c trivial hc hclean
      exact ⟨hbehind, hrepeats, fun _ _ => trivial⟩
    · cases (h a).before X c c' hX trivial hc hclean with
      | across hvalue hafter => exact .across hvalue hafter
      | ahead Y hrepeats hvalue hbefore => exact .ahead Y hrepeats hvalue hbefore
      | astray hrepeats hbehind => exact .astray hrepeats ⟨hbehind, fun _ _ => trivial⟩
  simp only [hstart]
  exact hlaws.grafts (fun _ _ => trivial) start

end Loops

namespace Grafts

variable {S : Site} {φ : Token → Prop} {α : Type} [Editable α]

theorem skipTo (stop : TokenSet) : Grafts S φ edited (Parse.skipTo stop) (fun _ => Parse.skipTo stop) :=
  loop (Productions.loopsEnd_full.skips stop) (FollowsAt.strides_of_ends (Productions.loopsEnd_full.skips stop)) (fun _ => rfl) fun _ =>
    current.bind fun _ => .ite (pure fun _ => rfl) (consume.bind fun _ => pure fun _ => rfl)

/-! ## Lists between commas -/

theorem separatedPass {item item' : Parse α} (h : Grafted S item (fun _ => item')) (items : Array α) :
    Grafts S φ edited (Parse.separatedPass item items) (fun E => Parse.separatedPass item' (edited E items)) :=
  (accept _).bind fun _ => .ite (h.bind fun item => pure fun _ => by simp) (pure fun _ => rfl)

theorem separated {item item' : Parse α} (hends : Ends (Parse.separatedPass item'))
    (hstrides : FollowsAt.Strides .untilReport (Parse.separatedPass item)) (h : Grafted S item (fun _ => item')) :
    Grafts S φ edited (Parse.separated item) (fun _ => Parse.separated item') :=
  bind (h.weaken fun _ _ => trivial) fun _ => (loop hends hstrides (fun _ => by simp) (separatedPass h)).bind fun _ => pure fun _ => by simp

theorem memberPass {member member' : Parse α} (close : TokenKind) (h : Grafted S member (fun _ => member')) (members : Array α) :
    Grafts S φ edited (Parse.memberPass close member members) (fun E => Parse.memberPass close member' (edited E members)) :=
  current.bind fun _ => .ite (pure fun _ => rfl)
    (h.bind fun member => (accept _).bind fun _ => .ite (pure fun _ => by simp) (pure fun _ => by simp))

theorem members {member member' : Parse α} (close : TokenKind) (hends : Ends (Parse.memberPass close member'))
    (hstrides : FollowsAt.Strides .untilReport (Parse.memberPass close member)) (h : Grafted S member (fun _ => member')) :
    Grafts S φ edited (Parse.members close member) (fun _ => Parse.members close member') :=
  (loop hends hstrides (fun _ => by simp) (memberPass close h)).bind fun _ => pure fun _ => by simp

/-! ## Names and literals -/

theorem name : Grafts S φ edited Parse.name (fun _ => Parse.name) := by
  refine current.bind fun here => ?_
  obtain ⟨kind, loc⟩ := here
  cases kind with
  | ident text => exact consume.bind fun _ => pure fun _ => rfl
  | _ => exact (reportHere _).bind fun _ => pure fun _ => rfl

theorem names : Grafts S φ edited Parse.names (fun _ => Parse.names) :=
  (separated Productions.loopsEnd_full.names (FollowsAt.strides_of_ends Productions.loopsEnd_full.names) name).bind fun (_, _) =>
    pure fun _ => rfl

theorem literal? : Grafts S φ edited Parse.literal? (fun _ => Parse.literal?) := by
  refine current.bind fun here => ?_
  obtain ⟨kind, loc⟩ := here
  cases kind with
  | literal value => exact consume.bind fun _ => pure fun _ => rfl
  | _ => exact pure fun _ => rfl

theorem stringLiteral? : Grafts S φ edited Parse.stringLiteral? (fun _ => Parse.stringLiteral?) :=
  current.bind fun _ => .ite literal? (pure fun _ => rfl)

end Grafts

end GoSyntax
