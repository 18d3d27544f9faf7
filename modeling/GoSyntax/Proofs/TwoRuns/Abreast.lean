import Mathlib.Data.List.Forall2
import GoSyntax.Proofs.TwoRuns.Bond
import GoSyntax.Proofs.TwoRuns.Notes

/-!
# Two runs over the same tokens

Two sources may have the same tokens and still differ in what they report by themselves. A parser run over both sees the same
tokens, but the logs grow at different rates. One cursor is `Quieter` than another if the tokens left are the same and each token
with notes in the first has notes in the second. Two runs that start at such cursors stay `Abreast`: what has been handed over and
what is still due make up what was due at the start; the quieter run makes every syntactic report that the other one makes; and it
reports nothing as long as the other one reports nothing.
-/

namespace GoSyntax

/-! ## Items and feeds -/

/-- The same item, and nothing to report unless the other one has something. -/
structure Noted.Quieter {α : Type} (n n' : Noted α) : Prop where
  value : n.value = n'.value
  silent : n'.notes = [] → n.notes = []

namespace Noted.Quieter

variable {α : Type} {n n' : Noted α}

instance [DecidableEq α] (n n' : Noted α) : Decidable (n.Quieter n') :=
  decidable_of_iff (n.value = n'.value ∧ (n'.notes = [] → n.notes = [])) ⟨fun h => ⟨h.1, h.2⟩, fun h => ⟨h.1, h.2⟩⟩

theorem refl (n : Noted α) : n.Quieter n := ⟨rfl, id⟩

theorem silence (h : n.Quieter n') : n.silent.Quieter n'.silent := ⟨h.value, id⟩

/-- An item that reports nothing is quieter than the same item with notes. -/
theorem silence_left (h : n.Quieter n') : n.silent.Quieter n' := ⟨h.value, fun _ => rfl⟩

end Noted.Quieter

/-- The same items, each of them quieter. -/
structure Feed.Quieter {α : Type} (f f' : Feed α) : Prop where
  items : List.Forall₂ Noted.Quieter f.items f'.items
  last : f.last.Quieter f'.last

namespace Feed.Quieter

variable {α : Type} {f f' : Feed α}

theorem refl (f : Feed α) : f.Quieter f := ⟨List.forall₂_same.2 fun n _ => .refl n, .refl f.last⟩

instance [DecidableEq α] (f f' : Feed α) : Decidable (f.Quieter f') :=
  decidable_of_iff (f.items.length = f'.items.length ∧ (∀ n ∈ f.items.zip f'.items, n.1.Quieter n.2) ∧ f.last.Quieter f'.last)
    ⟨fun ⟨hlength, hitems, hlast⟩ => ⟨List.forall₂_iff_zip.2 ⟨hlength, fun h => hitems _ h⟩, hlast⟩,
      fun h => ⟨h.items.length_eq, fun _ hn => (List.forall₂_iff_zip.1 h.items).2 hn, h.last⟩⟩

theorem peek (h : f.Quieter f') (k : Nat) : f.peek k = f'.peek k := by
  obtain ⟨items, last⟩ := f
  obtain ⟨items', last'⟩ := f'
  obtain ⟨hitems, hlast⟩ := h
  change List.Forall₂ Noted.Quieter items items' at hitems
  change last.Quieter last' at hlast
  induction hitems generalizing k with
  | nil => exact hlast.value
  | cons hn _ ih =>
    cases k with
    | zero => exact hn.value
    | succ k => exact ih k

theorem tail (h : f.Quieter f') : f.tail.Quieter f'.tail := by
  obtain ⟨items, last⟩ := f
  obtain ⟨items', last'⟩ := f'
  obtain ⟨hitems, hlast⟩ := h
  cases hitems with
  | nil => exact ⟨.nil, hlast⟩
  | cons _ hns => exact ⟨hns, hlast⟩

/-- A look leaves the quieter feed quieter, and hands over something only if the other look does. -/
theorem lookItems (k : Nat) {ns ns' : List (Noted α)} {last last' : Noted α} (h : List.Forall₂ Noted.Quieter ns ns')
    (hlast : last.Quieter last') : (Feed.lookItems k ns last).2.Quieter (Feed.lookItems k ns' last').2
      ∧ ((Feed.lookItems k ns' last').1 = [] → (Feed.lookItems k ns last).1 = []) := by
  induction k generalizing ns ns' with
  | zero => exact ⟨⟨h, hlast⟩, id⟩
  | succ k ih =>
    cases h with
    | nil => exact ⟨⟨.nil, hlast.silence⟩, hlast.silent⟩
    | cons hn hns =>
      obtain ⟨hquiet, hdue⟩ := ih hns
      refine ⟨⟨.cons hn.silence hquiet.items, hquiet.last⟩, fun h => ?_⟩
      obtain ⟨hn', hrest'⟩ := List.append_eq_nil_iff.1 h
      exact List.append_eq_nil_iff.2 ⟨hn.silent hn', hdue hrest'⟩

theorem look (h : f.Quieter f') (k : Nat) : (f.look k).2.Quieter (f'.look k).2 := (lookItems k h.items h.last).1

theorem look_eq_nil (h : f.Quieter f') (k : Nat) : (f'.look k).1 = [] → (f.look k).1 = [] := (lookItems k h.items h.last).2

/-- Looking only makes a feed quieter. -/
theorem lookItems_left (k : Nat) {ns ns' : List (Noted α)} {last last' : Noted α} (h : List.Forall₂ Noted.Quieter ns ns')
    (hlast : last.Quieter last') : (Feed.lookItems k ns last).2.Quieter ⟨ns', last'⟩ := by
  induction k generalizing ns ns' with
  | zero => exact ⟨h, hlast⟩
  | succ k ih =>
    cases h with
    | nil => exact ⟨.nil, hlast.silence_left⟩
    | cons hn hns => exact ⟨.cons hn.silence_left (ih hns).items, (ih hns).last⟩

theorem look_left (h : f.Quieter f') (k : Nat) : (f.look k).2.Quieter f' := lookItems_left k h.items h.last

end Feed.Quieter

/-! ## Cursors -/

/-- The same tokens are left, each of them quieter, and what they have to report is lexical. -/
structure Cursor.Quieter (c c' : Cursor) : Prop where
  feed : c.feed.Quieter c'.feed
  lexical : Lexical c.feed.pending
  lexical' : Lexical c'.feed.pending

namespace Cursor

/-- The reports made on the way from one cursor to another: the log has grown by them, and the lexical ones among them were due. -/
structure Makes (c : Cursor) (made : List Diagnostic) (d : Cursor) : Prop where
  log : d.log.toList = c.log.toList ++ made
  due : lexical made ++ d.feed.pending = c.feed.pending

variable {c c' d d' e e' : Cursor}

theorem Makes.refl (c : Cursor) : c.Makes [] c := ⟨(List.append_nil _).symm, rfl⟩

theorem Makes.trans {made more : List Diagnostic} (h : c.Makes made d) (h' : d.Makes more e) : c.Makes (made ++ more) e := by
  refine ⟨?_, ?_⟩
  · rw [h'.log, h.log, List.append_assoc]
  · rw [lexical_append, List.append_assoc, h'.due, h.due]

/-- The log tells how many reports have been made. -/
theorem Makes.size {made : List Diagnostic} (h : c.Makes made d) : d.log.size = c.log.size + made.length := by
  rw [← Array.length_toList, h.log, List.length_append, Array.length_toList]

theorem Makes.size_eq_iff {made : List Diagnostic} (h : c.Makes made d) : d.log.size = c.log.size ↔ made = [] := by
  rw [h.size, ← List.length_eq_zero_iff]
  omega

/-- Two runs that started at `c` and `c'`, the first over quieter tokens, have come to `d` and `d'`. -/
structure Abreast (c c' d d' : Cursor) : Prop where
  quieter : d.Quieter d'
  made : ∃ made made', c.Makes made d ∧ c'.Makes made' d' ∧ (syntactic made').Sublist (syntactic made) ∧ (made' = [] → made = [])

namespace Abreast

theorem refl (h : c.Quieter c') : Abreast c c' c c' :=
  ⟨h, [], [], .refl c, .refl c', List.Sublist.refl _, id⟩

theorem trans (h : Abreast c c' d d') (h' : Abreast d d' e e') : Abreast c c' e e' := by
  obtain ⟨made, made', hm, hm', hsub, hsilent⟩ := h.made
  obtain ⟨more, more', hn, hn', hsub', hsilent'⟩ := h'.made
  refine ⟨h'.quieter, made ++ more, made' ++ more', hm.trans hn, hm'.trans hn', ?_, fun hnil => ?_⟩
  · rw [syntactic_append, syntactic_append]
    exact List.Sublist.append hsub hsub'
  · obtain ⟨h1, h2⟩ := List.append_eq_nil_iff.1 hnil
    exact List.append_eq_nil_iff.2 ⟨hsilent h1, hsilent' h2⟩

theorem size_le_left (h : Abreast c c' d d') : c.log.size ≤ d.log.size := by
  obtain ⟨made, made', hm, -⟩ := h.made
  exact Nat.le.intro hm.size.symm

theorem size_le (h : Abreast c c' d d') : c'.log.size ≤ d'.log.size := by
  obtain ⟨made, made', -, hm', -⟩ := h.made
  exact Nat.le.intro hm'.size.symm

/-- If the second run has reported nothing, neither has the first. -/
theorem size_eq (h : Abreast c c' d d') (hsize : d'.log.size = c'.log.size) : d.log.size = c.log.size := by
  obtain ⟨made, made', hm, hm', -, hsilent⟩ := h.made
  exact hm.size_eq_iff.2 (hsilent (hm'.size_eq_iff.1 hsize))

end Abreast

/-! ## Steps -/

/-- What an item has been asked for is not lost when it is taken. -/
theorem pending_tail_look (f : Feed Token) : (f.look 1).2.tail.pending = (f.look 1).2.pending := by
  obtain ⟨items, last⟩ := f
  cases items <;> rfl

/-- Looking hands over what is due, which is lexical. -/
theorem makes_peek (h : Lexical c.feed.pending) (k : Nat) : c.Makes (c.feed.look (k + 1)).1 (Parse.peek k c).2 := by
  refine ⟨Array.toList_appendList, ?_⟩
  rw [(Feed.lexical_look h (k + 1)).1.lexical_eq]
  exact Feed.look_append_pending c.feed (k + 1)

/-- A token that is taken has been looked at, so nothing is lost with it. -/
theorem makes_consume (h : Lexical c.feed.pending) : c.Makes (c.feed.look 1).1 (Parse.consume c).2 := by
  refine ⟨Array.toList_appendList, ?_⟩
  rw [(Feed.lexical_look h 1).1.lexical_eq]
  change _ ++ (c.feed.look 1).2.tail.pending = _
  rw [pending_tail_look, Feed.look_append_pending]

/-- A syntactic report hands nothing over. -/
theorem makes_report (c : Cursor) {fault : Fault} (hfault : fault.isLexical = false) (loc : Location) :
    c.Makes [⟨fault, loc⟩] (Parse.report fault loc c).2 := by
  refine ⟨Array.toList_push, ?_⟩
  rw [lexical, List.filter_cons_of_neg (by rw [Diagnostic.isLexical, hfault]; exact Bool.false_ne_true)]
  rfl

namespace Quieter

theorem peek (h : c.Quieter c') (k : Nat) : (Parse.peek k c).2.Quieter (Parse.peek k c').2 :=
  ⟨h.feed.look (k + 1), (Feed.lexical_look h.lexical (k + 1)).2, (Feed.lexical_look h.lexical' (k + 1)).2⟩

theorem consume (h : c.Quieter c') : (Parse.consume c).2.Quieter (Parse.consume c').2 := by
  refine ⟨(h.feed.look 1).tail, ?_, ?_⟩
  · change Lexical (c.feed.look 1).2.tail.pending
    rw [pending_tail_look]
    exact (Feed.lexical_look h.lexical 1).2
  · change Lexical (c'.feed.look 1).2.tail.pending
    rw [pending_tail_look]
    exact (Feed.lexical_look h.lexical' 1).2

theorem report (h : c.Quieter c') (fault fault' : Fault) (loc loc' : Location) :
    (Parse.report fault loc c).2.Quieter (Parse.report fault' loc' c').2 := ⟨h.feed, h.lexical, h.lexical'⟩

/-- A report and a look on the quieter side alone. -/
theorem peek_left (h : c.Quieter c') (k : Nat) : (Parse.peek k c).2.Quieter c' :=
  ⟨h.feed.look_left (k + 1), (Feed.lexical_look h.lexical (k + 1)).2, h.lexical'⟩

end Quieter

/-! ## Steps of two runs -/

namespace Abreast

/-- Both runs look ahead. -/
theorem peek (h : Abreast c c' d d') (k : Nat) : Abreast c c' (Parse.peek k d).2 (Parse.peek k d').2 := by
  refine h.trans ⟨h.quieter.peek k, _, _, makes_peek h.quieter.lexical k, makes_peek h.quieter.lexical' k, ?_,
    h.quieter.feed.look_eq_nil (k + 1)⟩
  rw [(Feed.lexical_look h.quieter.lexical' (k + 1)).1.syntactic_eq_nil]
  exact List.nil_sublist _

/-- Both runs take a token. -/
theorem consume (h : Abreast c c' d d') : Abreast c c' (Parse.consume d).2 (Parse.consume d').2 := by
  refine h.trans ⟨h.quieter.consume, _, _, makes_consume h.quieter.lexical, makes_consume h.quieter.lexical', ?_,
    h.quieter.feed.look_eq_nil 1⟩
  rw [(Feed.lexical_look h.quieter.lexical' 1).1.syntactic_eq_nil]
  exact List.nil_sublist _

/-- Both runs make the same syntactic report. -/
theorem report (h : Abreast c c' d d') {fault : Fault} (hfault : fault.isLexical = false) (loc : Location) :
    Abreast c c' (Parse.report fault loc d).2 (Parse.report fault loc d').2 :=
  h.trans ⟨h.quieter.report _ _ _ _, _, _, makes_report d hfault loc, makes_report d' hfault loc, List.Sublist.refl _,
    fun hnil => nomatch hnil⟩

/-- If the second run has reported something, the quieter one may report more on its own. -/
theorem alone (h : Abreast c c' d d') (hnoisy : c'.log.size < d'.log.size) {more : List Diagnostic} (he : e.Quieter d')
    (hmore : d.Makes more e) : Abreast c c' e d' := by
  obtain ⟨made, made', hm, hm', hsub, -⟩ := h.made
  refine ⟨he, made ++ more, made', hm.trans hmore, hm', ?_, fun hnil => ?_⟩
  · rw [syntactic_append]
    exact hsub.trans (List.sublist_append_left _ _)
  · have hsize := hm'.size
    rw [hnil] at hsize
    exact absurd hsize (Nat.ne_of_gt hnoisy)

end Abreast

end Cursor

/-! ## The bond -/

open Cursor in
/-- Two runs of one parser, the first over quieter tokens. The level does not matter; a relation is known by the cursors that the
runs have come from, and these are its base. -/
def Bond.abreast : Bond (Cursor × Cursor) where
  holds s := s.1.Abreast s.2
  scope _ _ := True
  base s n n' := n = s.1.log.size ∧ n' = s.2.log.size
  peek h k := ⟨h.quieter.feed.peek k, h.peek k⟩
  consume h := h.consume
  report h hfault loc := h.report hfault loc
  length h := h.quieter.feed.items.length_eq
  ground _ := trivial
  header _ := trivial
  nested _ h _ := ⟨_, trivial, h.consume, id⟩
  since _ h := ⟨(_, _), trivial, ⟨rfl, rfl⟩, .refl h.quieter, fun h' => h.trans h'⟩
  counts := by
    rintro _ _ _ _ _ ⟨rfl, rfl⟩ h
    exact ⟨h.size_le_left, h.size_le⟩
  follows := by
    rintro _ _ _ _ _ ⟨rfl, rfl⟩ h hlt
    have hne : _ ≠ _ := fun heq => Nat.ne_of_gt hlt (h.size_eq heq)
    have hle := h.size_le
    omega
  alone := by
    rintro _ _ _ _ _ d d' fault ⟨rfl, rfl⟩ - - hlt h hle hfault loc
    refine h.alone (Nat.lt_of_lt_of_le hlt hle) ?_ ((makes_peek h.quieter.lexical 0).trans (makes_report _ hfault loc))
    exact ⟨(h.quieter.peek_left 0).feed, (h.quieter.peek_left 0).lexical, h.quieter.lexical'⟩

end GoSyntax
