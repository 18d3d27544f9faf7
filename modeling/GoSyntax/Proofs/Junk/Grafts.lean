import GoSyntax.Grammar.File
import GoSyntax.Proofs.Context.Declarations
import GoSyntax.Proofs.Junk.Parts
import GoSyntax.Proofs.Kinds.Runs
import GoSyntax.Proofs.Places
import GoSyntax.Proofs.Recovery.Enclosures

/-!
# Two runs, one of them with junk in front of a member

The same tokens are read twice, and in the second run there is junk among them: it stands in front of the first token of a member of some
list. Until then both runs do the same. The list itself gets over the junk with one report, and behind it both runs read the same tokens
again; so what the second run gives is what the first one gives, with the list edited.

This is shown parser by parser. A parser that has started in front of the junk may end there as well, or it has read the list and gone
across the junk. Or it has gone astray: it has taken the token in front of the junk, but it is not the list that goes on from there. Then
nothing is known of the second run; but what the first run reads from there on holds no list that the junk stands in. To see this the
first run is repeated with edited lists wherever it is known what has been read.
-/

namespace GoSyntax

open Parse Cursor

/-! ## Where the junk stands -/

/-- The token can start a statement. -/
def Grammar.startsStatement : TokenKind → Bool
  | .keyword word => match word with
    | .case | .default | .else | .import | .package | .range => false
    | _ => true
  | .punctuation mark => mark == .lBrace || mark == .semicolon || mark == .rBrace || Grammar.startsSimple (.punctuation mark)
  | kind => Grammar.startsSimple kind

namespace Listing

/-- Junk in the list is kept as a member that could not be read. -/
def keepsJunk : Listing → Bool
  | .declarations | .statements => true
  | _ => false

/-- What stands behind the junk so that it is a member of its own. -/
def separator : Listing → List TokenKind
  | .declarations | .clauses => []
  | _ => [.punctuation .semicolon]

/-- Where the list goes on behind what is no member. -/
def stops : Listing → TokenSet
  | .declarations => Recovery.declarationStart
  | .specs _ => Recovery.group
  | .fields | .elems => Recovery.body
  | .statements => Recovery.statement
  | .clauses => Recovery.clauseEnd

/-- The token can start a member of the list. -/
def starts : Listing → TokenKind → Bool
  | .declarations => Recovery.declarationStart.contains
  | .specs keyword => Grammar.startsSpec keyword
  | .fields => Grammar.startsField
  | .elems => TokenKind.isIdent
  | .statements => Grammar.startsStatement
  | .clauses => Grammar.startsClause

/-- What is reported where a token starts no member of the list, told how that token is displayed. -/
def fault : Listing → String → Fault
  | .declarations => .expectedDeclaration
  | .specs _ => .expectedToken (TokenKind.punctuation .rParen).display
  | .fields => .expectedField
  | .elems => .expectedMethodSpec
  | .statements => .expectedToken "statement"
  | .clauses => .expectedToken "`case` or `default`"

end Listing

/-- Tokens in front of a member of a list, its first token and those behind it; the junk that is put in front of it, with what separates it
from the member; and where a run over the junk starts. The first token of the member stands where no other token does. The junk starts with
a token that starts no member, and it is skipped up to its end. -/
structure Site where
  listing : Listing
  front : List Token
  first : Token
  more : List Token
  separator : List Token
  next : Token
  behind : List Token
  origin : Cursor
  rest : behind ≠ []
  fresh : ∀ t ∈ front ++ behind, t.loc ≠ next.loc
  last : ∀ t, front.getLast? = some t → t.kind.announces = false
  stray : listing.starts first.kind = false
  skipped : ∀ t ∈ first :: more, listing.stops.contains t.kind = false ∧ t.kind ≠ .eof
  separates : separator.map Token.kind = listing.separator

namespace Site

variable (S : Site)

/-- The junk and what separates it from the member. -/
def junk : List Token := S.first :: (S.more ++ S.separator)

/-- What is to be reported of the junk. -/
def reported : Diagnostic := ⟨S.listing.fault S.first.kind.display, S.first.loc⟩

/-- Every list of the kind is marked where the member stands. -/
def marking : Editing := .insert S.listing S.next.loc S.reported.loc

/-- What the junk changes in the tree. -/
def change : Editing := if S.listing.keepsJunk then S.marking else .none

/-- The ways in which a run is repeated. -/
def Edits (E : Editing) : Prop := E = S.marking ∨ E = S.change

/-- The member has been come to, and its first token has been taken if the flag says so. Nothing is left to report. -/
def Behind (inside : Bool) (c : Cursor) : Prop :=
  c.feed.pending = [] ∧ c.feed.values <:+ if inside then S.behind else S.next :: S.behind

/-- These tokens are left in front of the member in the first run, and in front of the junk in the second one. -/
structure Before (X : List Token) (c c' : Cursor) : Prop where
  front : X <:+ S.front
  silent : c.feed.pending = []
  values : c.feed.values = X ++ S.next :: S.behind
  values' : c'.feed.values = X ++ (S.junk ++ S.next :: S.behind)
  reports : S.origin.Reports [] c'

/-- The first token of the member has been taken, and the second run has got over the junk. -/
structure After (d d' : Cursor) : Prop where
  behind : S.Behind true d
  quieter : d.Quieter d'
  reports : S.origin.Reports [S.reported] d'

variable {S}

theorem edits_marking : S.Edits S.marking := .inl rfl

theorem edits_change : S.Edits S.change := .inr rfl

theorem Behind.weaken {j : Bool} {c : Cursor} (h : S.Behind j c) : S.Behind false c := by
  refine ⟨h.1, h.2.trans ?_⟩
  cases j with
  | true => exact List.suffix_cons _ _
  | false => exact List.suffix_refl _

theorem Before.behind {c c' : Cursor} (h : S.Before [] c c') : S.Behind false c := ⟨h.silent, by rw [h.values]; exact List.suffix_refl _⟩

end Site

/-! ## Runs repeated with edited lists -/

section Repeats

variable {α β : Type} {S : Site} {u : Editing → α → α} {w : Editing → β → β} {f : Parse α} {g : Editing → Parse α}
  {k : α → Parse β} {k' : Editing → α → Parse β} {c c' : Cursor}

/-- What the first parser gives here the second one gives edited, from here and from wherever the same tokens come. -/
def Site.Repeats (S : Site) (u : Editing → α → α) (f : Parse α) (g : Editing → Parse α) (c : Cursor) : Prop :=
  ∀ E, S.Edits E → g E c = (u E (f c).1, (f c).2)
    ∧ ∀ c', c.Quieter c' → (g E c').1 = u E (f c).1 ∧ (f c).2.Quieter (g E c').2 ∧ c'.Reports [] (g E c').2

theorem Site.Repeats.bind (h : S.Repeats u f g c) (hk : S.Repeats w (k (f c).1) (fun E => k' E (u E (f c).1)) (f c).2) :
    S.Repeats w (f >>= k) (fun E => g E >>= k' E) c := by
  intro E hE
  obtain ⟨heq, hecho⟩ := h E hE
  obtain ⟨heq', hecho'⟩ := hk E hE
  refine ⟨?_, fun c' hc' => ?_⟩
  · change k' E (g E c).1 (g E c).2 = _
    rw [heq]
    exact heq'
  · obtain ⟨hvalue, hquieter, hreports⟩ := hecho c' hc'
    obtain ⟨hvalue', hquieter', hreports'⟩ := hecho' _ hquieter
    have happly : (g E >>= k' E) c' = k' E (u E (f c).1) (g E c').2 := congrArg (k' E · (g E c').2) hvalue
    change ((g E >>= k' E) c').1 = _ ∧ Cursor.Quieter _ ((g E >>= k' E) c').2 ∧ c'.Reports [] ((g E >>= k' E) c').2
    rw [happly]
    exact ⟨hvalue', hquieter', hreports.trans hreports'⟩

theorem Site.repeats_pure {a : α} {a' : Editing → α} (h : ∀ E, S.Edits E → a' E = u E a) (c : Cursor) :
    S.Repeats u (Pure.pure a) (fun E => Pure.pure (a' E)) c := fun E hE =>
  ⟨Prod.ext (h E hE) rfl, fun _ hc' => ⟨h E hE, hc', .refl hc'.lexical'⟩⟩

/-- What becomes of two runs that have started in front of the junk: the second one has got over it, or both have stopped in front of it, or
the first one has taken the token in front of it and gone on. Then `A` says what is known of what it gives and of where it is. -/
inductive Site.Outcome (S : Site) (A : α → Cursor → Prop) (u : Editing → α → α) (f : Parse α) (g : Editing → Parse α) (c c' : Cursor) :
    Prop where
  | across (value : (g S.change c').1 = u S.change (f c).1) (after : S.After (f c).2 (g S.change c').2)
  | ahead (X : List Token) (repeats : S.Repeats u f g c) (value : (g S.change c').1 = u S.change (f c).1)
    (before : S.Before X (f c).2 (g S.change c').2)
  | astray (repeats : S.Repeats u f g c) (known : A (f c).1 (f c).2)

theorem bind_of_value {k : Editing → α → Parse β} {a : α} {E : Editing} (h : (g E c).1 = a) : (g E >>= k E) c = k E a (g E c).2 :=
  congrArg (k E · (g E c).2) h

/-- What comes next is read where the first parser ends in front of the junk. -/
theorem Site.Outcome.prepend {A : β → Cursor → Prop} (hrepeats : S.Repeats u f g c) (hvalue : (g S.change c').1 = u S.change (f c).1)
    (h : S.Outcome A w (k (f c).1) (fun E => k' E (u E (f c).1)) (f c).2 (g S.change c').2) :
    S.Outcome A w (f >>= k) (fun E => g E >>= k' E) c c' := by
  have heq := bind_of_value (k := k') hvalue
  cases h with
  | across hvalue' hafter => exact .across (by rw [heq]; exact hvalue') (by rw [heq]; exact hafter)
  | ahead X hrepeats' hvalue' hahead => exact .ahead X (hrepeats.bind hrepeats') (by rw [heq]; exact hvalue') (by rw [heq]; exact hahead)
  | astray hrepeats' hknown => exact .astray (hrepeats.bind hrepeats') hknown

/-- Behind the junk a parser does what it does in the first run. -/
theorem Site.Outcome.bind {A : β → Cursor → Prop} (h : S.Outcome (fun _ => S.Behind false) u f g c c')
    (hbehind : ∀ j, S.Behind j (f c).2 → S.Behind j (k (f c).1 (f c).2).2
      ∧ S.Repeats w (k (f c).1) (fun E => k' E (u E (f c).1)) (f c).2 ∧ A (k (f c).1 (f c).2).1 (k (f c).1 (f c).2).2)
    (hbefore : ∀ X d', S.Before X (f c).2 d' → S.Outcome A w (k (f c).1) (fun E => k' E (u E (f c).1)) (f c).2 d') :
    S.Outcome A w (f >>= k) (fun E => g E >>= k' E) c c' := by
  cases h with
  | across hvalue hafter =>
    obtain ⟨hbehind', hrepeats, -⟩ := hbehind true hafter.behind
    obtain ⟨hvalue', hquieter, hreports⟩ := (hrepeats S.change Site.edits_change).2 _ hafter.quieter
    have heq := bind_of_value (k := k') hvalue
    refine .across ?_ ?_
    · rw [heq]
      exact hvalue'
    · rw [heq]
      exact ⟨hbehind', hquieter, hafter.reports.then_quiet hreports⟩
  | ahead X hrepeats hvalue hahead => exact .prepend hrepeats hvalue (hbefore X _ hahead)
  | astray hrepeats hknown =>
    obtain ⟨-, hrepeats', hknown'⟩ := hbehind false hknown
    exact .astray (hrepeats.bind hrepeats') hknown'

/-- Only what the second parser does with the ways to edit a run counts. -/
theorem Site.Repeats.congr {g' : Editing → Parse α} (hg : ∀ E, S.Edits E → g' E = g E) (h : S.Repeats u f g c) : S.Repeats u f g' c := by
  intro E hE
  rw [hg E hE]
  exact h E hE

theorem Site.Outcome.congr {g' : Editing → Parse α} {A : α → Cursor → Prop} (hg : ∀ E, S.Edits E → g' E = g E)
    (h : S.Outcome A u f g c c') :
    S.Outcome A u f g' c c' := by
  have hchange := hg _ Site.edits_change
  cases h with
  | across hvalue hafter => exact .across (by rw [hchange]; exact hvalue) (by rw [hchange]; exact hafter)
  | ahead X hrepeats hvalue hbefore => exact .ahead X (hrepeats.congr hg) (by rw [hchange]; exact hvalue) (by rw [hchange]; exact hbefore)
  | astray hrepeats hknown => exact .astray (hrepeats.congr hg) hknown

theorem Site.Repeats.of_same {f' : Parse α} (heq : f' c = f c) (h : S.Repeats u f' g c) : S.Repeats u f g c := by
  intro E hE
  rw [← heq]
  exact h E hE

theorem Site.Outcome.of_same {f' : Parse α} {A : α → Cursor → Prop} (heq : f' c = f c) (h : S.Outcome A u f' g c c') :
    S.Outcome A u f g c c' := by
  cases h with
  | across hvalue hafter => exact .across (by rw [← heq]; exact hvalue) (by rw [← heq]; exact hafter)
  | ahead X hrepeats hvalue hbefore => exact .ahead X (hrepeats.of_same heq) (by rw [← heq]; exact hvalue) (by rw [← heq]; exact hbefore)
  | astray hrepeats hknown => exact .astray (hrepeats.of_same heq) (by rw [← heq]; exact hknown)

/-- Where a token with `φ` comes next, a clean run of the first parser is repeated by the second one with edited lists. From in front of the
junk the second parser may come across it. -/
structure Grafts (S : Site) (φ : Token → Prop) {α : Type} (u : Editing → α → α) (f : Parse α) (g : Editing → Parse α) : Prop where
  quiet : ∀ c, φ c.here → (f c).2.log = #[] → c.log = #[]
  behind : ∀ j c, φ c.here → S.Behind j c → (f c).2.log = #[] → S.Behind j (f c).2 ∧ S.Repeats u f g c
  before : ∀ X c c', X ≠ [] → φ c.here → S.Before X c c' → (f c).2.log = #[] → S.Outcome (fun _ => S.Behind false) u f g c c'

/-- What is read may hold lists that are edited. -/
abbrev Grafted (S : Site) {α : Type} [Editable α] (f : Parse α) (g : Editing → Parse α) : Prop :=
  Grafts S (fun _ => True) edited f g

/-- Behind the token that opens a list the junk may come next; it does not if the first token of the member has been come to before. -/
structure Enters (S : Site) {α : Type} (u : Editing → α → α) (f : Parse α) (g : Editing → Parse α) : Prop where
  quiet : ∀ c, (f c).2.log = #[] → c.log = #[]
  behind : ∀ c, S.Behind true c → (f c).2.log = #[] → S.Behind true (f c).2 ∧ S.Repeats u f g c
  before : ∀ X c c', S.Before X c c' → (f c).2.log = #[] → S.Outcome (fun _ => S.Behind false) u f g c c'

namespace Grafts

variable {φ ψ : Token → Prop}

/-! ## Ways to put parsers together -/

theorem weaken (h : Grafts S ψ u f g) (hφ : ∀ t, φ t → ψ t) : Grafts S φ u f g :=
  ⟨fun c hc => h.quiet c (hφ _ hc), fun j c hc => h.behind j c (hφ _ hc), fun X c c' hX hc => h.before X c c' hX (hφ _ hc)⟩

theorem pure_of_edits {a : α} {a' : Editing → α} (h : ∀ E, S.Edits E → a' E = u E a) :
    Grafts S φ u (Pure.pure a) (fun E => Pure.pure (a' E)) :=
  ⟨fun _ _ hclean => hclean, fun _ c _ hc _ => ⟨hc, Site.repeats_pure h c⟩,
    fun X c _ _ _ hc _ => .ahead X (Site.repeats_pure h c) (h _ Site.edits_change) hc⟩

theorem pure {a : α} {a' : Editing → α} (h : ∀ E, a' E = u E a) : Grafts S φ u (Pure.pure a) (fun E => Pure.pure (a' E)) :=
  pure_of_edits fun E _ => h E

theorem congr {g' : Editing → Parse α} (hg : ∀ E, S.Edits E → g' E = g E) (h : Grafts S φ u f g) : Grafts S φ u f g' :=
  ⟨h.quiet, fun j c hφ hc hclean => (h.behind j c hφ hc hclean).imp_right (.congr hg),
    fun X c c' hX hφ hc hclean => (h.before X c c' hX hφ hc hclean).congr hg⟩

/-- Nothing is asked of a parser that always reports. -/
theorem never (h : ∀ c, (f c).2.log ≠ #[]) : Grafts S φ u f g :=
  ⟨fun c _ hclean => absurd hclean (h c), fun _ c _ _ hclean => absurd hclean (h c), fun _ c _ _ _ _ hclean => absurd hclean (h c)⟩

/-- What is asked of a parser at a cursor depends only on what it does there. -/
theorem of_same (h : ∀ c, ∃ f', Grafts S φ u f' g ∧ f' c = f c) : Grafts S φ u f g := by
  refine ⟨fun c hφ hclean => ?_, fun j c hφ hc hclean => ?_, fun X c c' hX hφ hc hclean => ?_⟩ <;> obtain ⟨f', hf', heq⟩ := h c
  · rw [← heq] at hclean
    exact hf'.quiet c hφ hclean
  · rw [← heq] at hclean
    obtain ⟨hbehind, hrepeats⟩ := hf'.behind j c hφ hc hclean
    rw [heq] at hbehind
    exact ⟨hbehind, hrepeats.of_same heq⟩
  · rw [← heq] at hclean
    exact (hf'.before X c c' hX hφ hc hclean).of_same heq

/-- In front of the junk nothing but a list goes on with the second run. -/
theorem outcome {X : List Token} (h : Grafts S (fun _ => True) u f g) (hc : S.Before X c c') (hclean : (f c).2.log = #[]) :
    S.Outcome (fun _ => S.Behind false) u f g c c' := by
  by_cases hnil : X = []
  · subst hnil
    obtain ⟨hbehind, hrepeats⟩ := h.behind false c trivial hc.behind hclean
    exact .astray hrepeats hbehind
  · exact h.before X c c' hnil trivial hc hclean

/-- What comes next goes on where the first parser ends. -/
theorem outcome_bind (hk : ∀ a, Grafts S (fun _ => True) w (k a) (fun E => k' E (u E a))) (hclean : ((f >>= k) c).2.log = #[])
    (h : S.Outcome (fun _ => S.Behind false) u f g c c') :
    S.Outcome (fun _ => S.Behind false) w (f >>= k) (fun E => g E >>= k' E) c c' := by
  refine h.bind (fun j hj => ?_) fun Y d' hd => (hk (f c).1).outcome hd hclean
  obtain ⟨hbehind, hrepeats⟩ := (hk (f c).1).behind j _ trivial hj hclean
  exact ⟨hbehind, hrepeats, hbehind.weaken⟩

theorem bind (h : Grafts S φ u f g) (hk : ∀ a, Grafts S (fun _ => True) w (k a) (fun E => k' E (u E a))) :
    Grafts S φ w (f >>= k) (fun E => g E >>= k' E) := by
  refine ⟨fun c hφ hclean => h.quiet c hφ ((hk _).quiet _ trivial hclean), fun j c hφ hc hclean => ?_, fun X c c' hX hφ hc hclean => ?_⟩
  · obtain ⟨hbehind, hrepeats⟩ := h.behind j c hφ hc ((hk _).quiet _ trivial hclean)
    obtain ⟨hbehind', hrepeats'⟩ := (hk (f c).1).behind j _ trivial hbehind hclean
    exact ⟨hbehind', hrepeats.bind hrepeats'⟩
  · exact outcome_bind hk hclean (h.before X c c' hX hφ hc ((hk _).quiet _ trivial hclean))

theorem map {r : α → β} {r' : Editing → α → β} (h : Grafts S φ u f g) (hr : ∀ E a, r' E (u E a) = w E (r a)) :
    Grafts S φ w (r <$> f) (fun E => r' E <$> g E) := by
  have hbind : Grafts S φ w (f >>= fun a => Pure.pure (r a)) (fun E => g E >>= fun a => Pure.pure (r' E a)) :=
    h.bind fun a => pure fun E => hr E a
  exact hbind

theorem ite {χ : Prop} [Decidable χ] {f' : Parse α} {g' : Editing → Parse α} (h : Grafts S φ u f g) (h' : Grafts S φ u f' g') :
    Grafts S φ u (if χ then f else f') (fun E => if χ then g E else g' E) := by
  split
  · exact h
  · exact h'

theorem orM {f f' : Parse Bool} {g g' : Editing → Parse Bool} (h : Grafts S φ edited f g) (h' : Grafted S f' g') :
    Grafts S φ edited (f <||> f') (fun E => g E <||> g' E) :=
  h.bind fun b => by
    cases b with
    | true => exact pure fun _ => rfl
    | false => exact h'

theorem andM {f f' : Parse Bool} {g g' : Editing → Parse Bool} (h : Grafts S φ edited f g) (h' : Grafted S f' g') :
    Grafts S φ edited (f <&&> f') (fun E => g E <&&> g' E) :=
  h.bind fun b => by
    cases b with
    | true => exact h'
    | false => exact pure fun _ => rfl

end Grafts

theorem Enters.congr {g' : Editing → Parse α} (hg : ∀ E, S.Edits E → g' E = g E) (h : Enters S u f g) : Enters S u f g' :=
  ⟨h.quiet, fun c hc hclean => (h.behind c hc hclean).imp_right (.congr hg), fun X c c' hc hclean => (h.before X c c' hc hclean).congr hg⟩

theorem Enters.bind (h : Enters S u f g) (hk : ∀ a, Grafts S (fun _ => True) w (k a) (fun E => k' E (u E a))) :
    Enters S w (f >>= k) (fun E => g E >>= k' E) := by
  refine ⟨fun c hclean => h.quiet c ((hk _).quiet _ trivial hclean), fun c hc hclean => ?_, fun X c c' hc hclean => ?_⟩
  · obtain ⟨hbehind, hrepeats⟩ := h.behind c hc ((hk _).quiet _ trivial hclean)
    obtain ⟨hbehind', hrepeats'⟩ := (hk (f c).1).behind true _ trivial hbehind hclean
    exact ⟨hbehind', hrepeats.bind hrepeats'⟩
  · exact Grafts.outcome_bind hk hclean (h.before X c c' hc ((hk _).quiet _ trivial hclean))

end Repeats

/-! ## Steps -/

namespace Cursor

variable {c c' : Cursor} {t : Token} {ts : List Token}

theorem reports_peek (h : Lexical c.feed.pending) (k : Nat) : c.Reports [] (Parse.peek k c).2 :=
  ⟨⟨_, makes_peek h k, (Feed.lexical_look h (k + 1)).1.syntactic_eq_nil⟩, (Feed.lexical_look h (k + 1)).2⟩

theorem here_of_values (h : c.feed.values = t :: ts) : c.here = t := by
  rw [here, Feed.peek]
  obtain ⟨⟨items, last⟩, log, hscanned⟩ := c
  cases items with
  | nil => exact (List.cons.inj h).1
  | cons n ns => exact (List.cons.inj h).1

theorem values_consume (h : c.feed.values = t :: ts) (hts : ts ≠ []) : (Parse.consume c).2.feed.values = ts := by
  have hlook := Feed.values_look c.feed 1
  rw [h] at hlook
  change (c.feed.look 1).2.tail.values = ts
  generalize (c.feed.look 1).2 = looked at hlook ⊢
  obtain ⟨items, last⟩ := looked
  cases items with
  | nil => exact absurd (List.cons.inj hlook).2.symm hts
  | cons n ns => exact (List.cons.inj hlook).2

theorem exists_values (c : Cursor) : ∃ ts, c.feed.values = c.here :: ts := by
  obtain ⟨⟨items, last⟩, log, hscanned⟩ := c
  cases items with
  | nil => exact ⟨[], rfl⟩
  | cons n ns => exact ⟨_, rfl⟩

theorem values_consume_suffix (c : Cursor) : (Parse.consume c).2.feed.values <:+ c.feed.values := by
  have hlook := Feed.values_look c.feed 1
  rw [← hlook]
  change (c.feed.look 1).2.tail.values <:+ _
  obtain ⟨items, last⟩ := (c.feed.look 1).2
  cases items with
  | nil => exact List.suffix_refl _
  | cons n ns => exact List.suffix_cons _ _

theorem pending_consume (h : c.feed.pending = []) : (Parse.consume c).2.feed.pending = [] := (Onward.consume h).silent h

theorem here_of_quieter (h : c.Quieter c') : c'.here = c.here := (h.feed.peek 0).symm

end Cursor

namespace Site

variable {S : Site} {c c' : Cursor} {t : Token} {X : List Token} {j : Bool}

theorem repeats_peek (c : Cursor) (k : Nat) : S.Repeats edited (Parse.peek k) (fun _ => Parse.peek k) c := by
  refine fun E _ => ⟨rfl, fun c' hc' => ⟨(hc'.feed.peek k).symm, hc'.peek k, reports_peek hc'.lexical' k⟩⟩

theorem repeats_consume (c : Cursor) : S.Repeats edited Parse.consume (fun _ => Parse.consume) c :=
  fun _ _ => ⟨rfl, fun _ hc' => ⟨here_of_quieter hc', hc'.consume, reports_consume hc'.lexical'⟩⟩

/-- A token is taken: the first token of the member, or one behind it. -/
theorem Behind.consume (h : S.Behind j c) : S.Behind true (Parse.consume c).2 := by
  refine ⟨pending_consume h.1, ?_⟩
  rw [if_pos rfl]
  have hsuffix := h.weaken.2
  rw [if_neg Bool.false_ne_true] at hsuffix
  rcases List.suffix_cons_iff.1 hsuffix with heq | hsuffix
  · rw [values_consume heq S.rest]
  · exact (values_consume_suffix c).trans hsuffix

namespace Before

theorem peek (h : S.Before X c c') (k : Nat) : S.Before X (Parse.peek k c).2 (Parse.peek k c').2 := by
  refine ⟨h.front, ?_, ?_, ?_, h.reports.then_quiet (reports_peek h.reports.lexical k)⟩
  · rw [Onward.peek h.silent]
    exact h.silent
  · exact (Feed.values_look c.feed (k + 1)).trans h.values
  · exact (Feed.values_look c'.feed (k + 1)).trans h.values'

theorem here_eq (h : S.Before (t :: X) c c') : c.here = t ∧ c'.here = t :=
  ⟨here_of_values h.values, here_of_values h.values'⟩

theorem consume (h : S.Before (t :: X) c c') : S.Before X (Parse.consume c).2 (Parse.consume c').2 := by
  refine ⟨(List.suffix_cons t X).trans h.front, pending_consume h.silent, ?_, ?_, h.reports.then_quiet (reports_consume h.reports.lexical)⟩
  · exact values_consume h.values (by simp)
  · exact values_consume h.values' (by simp)

/-- The token that is left alone is the one that stands in front of the junk. -/
theorem announces_eq (h : S.Before [t] c c') : t.kind.announces = false := by
  obtain ⟨front, hfront⟩ := h.front
  exact S.last t (by rw [← hfront, List.getLast?_concat])

/-- What is looked at is the same in both runs, as far as it stands in front of the junk. -/
theorem peek_eq (h : S.Before X c c') {k : Nat} (hk : k < X.length) : c'.feed.peek k = c.feed.peek k := by
  have hpeek : ∀ {f : Feed Token} {rest : List Token}, f.values = X ++ rest → some (f.peek k) = X[k]? := by
    intro f rest hvalues
    have hlength : k < f.values.length := by
      rw [hvalues, List.length_append]
      omega
    rw [← Feed.getElem?_values hlength, hvalues, List.getElem?_append_left hk]
  exact Option.some.inj ((hpeek h.values').trans (hpeek h.values).symm)

end Before

end Site

end GoSyntax
