import GoSyntax.Tree.Layout
import GoSyntax.Tree.Nodes
import Mathlib.Algebra.BigOperators.Group.List.Basic
import Mathlib.Algebra.Order.Kleene
import Mathlib.Computability.Language
import Mathlib.Data.Multiset.UnionInter
import Mathlib.Order.CompletePartialOrder

/-!
# Tallies: what the parts of a tree account for

A tally says of a part of a tree by which tokens it can be spelled and where the placeholders in it stand. Tallies multiply:
parts that stand one after another are spelled one after another, and their placeholders add up. They are also ordered: a
smaller tally accounts for fewer spellings and has more placeholders, so that a reader who owes the larger one may give the smaller
one. What is reported as a fault is spelled by nothing, and has room for one placeholder.
-/

namespace GoSyntax

/-- The spellings of a layout. -/
def Layout.words : Layout → Language TokenKind
  | impossible => 0
  | tokens kinds => {kinds}
  | append first second => first.words * second.words
  | either canonical other => canonical.words + other.words

namespace Layout

@[simp] theorem words_impossible : impossible.words = 0 := rfl

@[simp] theorem words_empty : empty.words = 1 := rfl

@[simp] theorem words_append (a b : Layout) : (a ++ b).words = a.words * b.words := rfl

@[simp] theorem words_either (a b : Layout) : (either a b).words = a.words + b.words := rfl

end Layout

/-- Spellings, and the places of placeholders. -/
@[ext]
structure Tally where
  words : Language TokenKind
  placeholders : Multiset Location

namespace Tally

/-! ## Tallies multiply -/

instance : One Tally := ⟨⟨1, 0⟩⟩
instance : Mul Tally := ⟨fun t u => ⟨t.words * u.words, t.placeholders + u.placeholders⟩⟩

@[simp] theorem words_one : (1 : Tally).words = 1 := rfl

@[simp] theorem placeholders_one : (1 : Tally).placeholders = 0 := rfl

@[simp] theorem words_mul (t u : Tally) : (t * u).words = t.words * u.words := rfl

@[simp] theorem placeholders_mul (t u : Tally) : (t * u).placeholders = t.placeholders + u.placeholders := rfl

instance : Monoid Tally where
  mul_assoc t u v := Tally.ext (mul_assoc ..) (add_assoc ..)
  one_mul t := Tally.ext (one_mul _) (zero_add _)
  mul_one t := Tally.ext (mul_one _) (add_zero _)

/-! ## Tallies are ordered -/

instance : LE Tally := ⟨fun t u => t.words ≤ u.words ∧ u.placeholders ≤ t.placeholders⟩

theorem le_def {t u : Tally} : t ≤ u ↔ t.words ≤ u.words ∧ u.placeholders ≤ t.placeholders := Iff.rfl

instance : PartialOrder Tally where
  le_refl t := ⟨le_refl _, le_refl _⟩
  le_trans _ _ _ h h' := ⟨h.1.trans h'.1, h'.2.trans h.2⟩
  le_antisymm _ _ h h' := Tally.ext (le_antisymm h.1 h'.1) (le_antisymm h'.2 h.2)

instance : MulLeftMono Tally := ⟨fun _ _ _ h => ⟨mul_le_mul_right h.1 _, add_le_add_right h.2 _⟩⟩
instance : MulRightMono Tally := ⟨fun _ _ _ h => ⟨mul_le_mul_left h.1 _, add_le_add_left h.2 _⟩⟩

/-- Every spelling, and no placeholder. -/
instance : OrderTop Tally where
  top := ⟨⊤, 0⟩
  le_top _ := ⟨le_top, Multiset.zero_le _⟩

/-- What is spelled in one of two ways has the placeholders of both. -/
instance : SemilatticeSup Tally where
  sup t u := ⟨t.words + u.words, t.placeholders ⊓ u.placeholders⟩
  le_sup_left _ _ := ⟨le_add_of_nonneg_right bot_le, inf_le_left⟩
  le_sup_right _ _ := ⟨le_add_of_nonneg_left bot_le, inf_le_right⟩
  sup_le _ _ _ h h' := ⟨add_le h.1 h'.1, le_inf h.2 h'.2⟩

theorem sup_def (t u : Tally) : t ⊔ u = ⟨t.words + u.words, t.placeholders ⊓ u.placeholders⟩ := rfl

@[simp] theorem placeholders_top : (⊤ : Tally).placeholders = 0 := rfl

/-- A tally without spellings is below every tally whose placeholders it has. -/
theorem le_of_words_eq_zero {t u : Tally} (h : t.words = 0) (h' : u.placeholders ≤ t.placeholders) : t ≤ u :=
  ⟨h ▸ bot_le, h'⟩

/-! ## The tallies of what is read -/

/-- A token. -/
def token (kind : TokenKind) : Tally := ⟨{[kind]}, 0⟩

/-- A token that may be missing. -/
def optionalToken (kind : TokenKind) : Tally := ⟨1 + {[kind]}, 0⟩

/-- A fault: no spelling, and room for a placeholder where it is reported. -/
def fault (loc : Location) : Tally := ⟨0, {loc}⟩

/-- Nothing, if a condition holds; otherwise there has been a fault. -/
def given (φ : Prop) : Tally := ⟨{w | w = [] ∧ φ}, 0⟩

@[simp] theorem words_fault (loc : Location) : (fault loc).words = 0 := rfl

@[simp] theorem placeholders_fault (loc : Location) : (fault loc).placeholders = {loc} := rfl

@[simp] theorem placeholders_token (kind : TokenKind) : (token kind).placeholders = 0 := rfl

@[simp] theorem placeholders_optionalToken (kind : TokenKind) : (optionalToken kind).placeholders = 0 := rfl

@[simp] theorem placeholders_given (φ : Prop) : (given φ).placeholders = 0 := rfl

theorem given_of {φ : Prop} (h : φ) : given φ = 1 := by
  refine Tally.ext (Set.ext fun w => ?_) rfl
  exact ⟨fun hw => hw.1, fun hw => ⟨hw, h⟩⟩

theorem le_mul_given {φ : Prop} (h : φ) (t : Tally) : t ≤ t * given φ := le_of_eq (by rw [given_of h, mul_one])

theorem words_given_of_not {φ : Prop} (h : ¬φ) : (given φ).words = 0 :=
  Set.eq_empty_of_forall_notMem fun _ hw => h hw.2

theorem given_mul_given (φ ψ : Prop) : given φ * given ψ = given (φ ∧ ψ) := by
  by_cases hφ : φ
  · rw [given_of hφ, one_mul, and_iff_right hφ]
  · refine Tally.ext ?_ rfl
    rw [words_mul, words_given_of_not hφ, zero_mul, words_given_of_not fun h => hφ h.1]

theorem given_mul (φ : Prop) (t : Tally) : given φ * t = t * given φ := by
  by_cases hφ : φ
  · rw [given_of hφ, one_mul, mul_one]
  · exact Tally.ext (by simp [words_given_of_not hφ]) (by simp)

theorem given_le_one (φ : Prop) : given φ ≤ 1 := ⟨fun _ hw => hw.1, le_refl _⟩

theorem given_mono {φ ψ : Prop} (h : φ → ψ) : given φ ≤ given ψ := ⟨fun _ hw => ⟨hw.1, h hw.2⟩, le_refl _⟩

theorem token_le_optionalToken (kind : TokenKind) : token kind ≤ optionalToken kind :=
  ⟨le_add_of_nonneg_left bot_le, le_refl _⟩

theorem one_le_optionalToken (kind : TokenKind) : 1 ≤ optionalToken kind :=
  ⟨le_add_of_nonneg_right bot_le, le_refl _⟩

/-- What has a fault in it is below everything with no more placeholders. -/
theorem mul_fault_le {t u : Tally} {loc : Location} (h : u.placeholders ≤ t.placeholders + {loc}) : t * fault loc ≤ u :=
  le_of_words_eq_zero (by simp) h

/-- What is left of a tally after a fault: its placeholders. -/
def lost (t : Tally) : Tally := ⟨0, t.placeholders⟩

theorem lost_le (t : Tally) : lost t ≤ t := le_of_words_eq_zero rfl (le_refl _)

/-- What is read after a fault changes nothing. -/
theorem lost_mul_le_lost (t u : Tally) : lost t * u ≤ lost t :=
  le_of_words_eq_zero (by simp [lost]) (le_add_of_nonneg_right (Multiset.zero_le _))

theorem lost_mul_le (t u : Tally) : lost t * u ≤ t := (lost_mul_le_lost t u).trans (lost_le t)

theorem mul_fault_le_lost {t u : Tally} (h : u.placeholders ≤ t.placeholders) (loc : Location) : t * fault loc ≤ lost u :=
  le_of_words_eq_zero (by simp) (le_add_of_le_of_nonneg h (Multiset.zero_le _))

theorem mul_fault_mul_le_lost (t : Tally) (loc : Location) (u : Tally) : t * fault loc * u ≤ lost t :=
  (mul_le_mul_left (mul_fault_le_lost (le_refl _) loc) u).trans (lost_mul_le_lost t u)

@[simp] theorem words_lost (t : Tally) : (lost t).words = 0 := rfl

@[simp] theorem placeholders_lost (t : Tally) : (lost t).placeholders = t.placeholders := rfl

theorem lost_mono {t u : Tally} (h : u.placeholders ≤ t.placeholders) : lost t ≤ lost u := le_of_words_eq_zero rfl h

/-- A part may be read again as something else with no more placeholders, if it is spelled the same or there has been a fault. -/
theorem reread_le {φ : Prop} {u u' : Tally} (h : φ → u = u') (h' : u'.placeholders ≤ u.placeholders) (t v w : Tally) :
    t * u * v * given φ * w ≤ t * (u' * v * w) := by
  by_cases hφ : φ
  · rw [given_of hφ, h hφ, mul_one]
    simp only [mul_assoc, le_refl]
  · refine le_of_words_eq_zero (by simp [words_given_of_not hφ]) ?_
    simp only [placeholders_mul, placeholders_given, add_zero, add_assoc]
    exact add_le_add_right (add_le_add_left h' _) _

/-! ## Lists -/

/-- Parts with a separator between them, and something behind the last. -/
def separatedBy (separator behind : Tally) : List Tally → Tally
  | [] => 1
  | [t] => t * behind
  | t :: ts => t * separator * separatedBy separator behind ts

@[simp] theorem separatedBy_nil (s b : Tally) : separatedBy s b [] = 1 := rfl

@[simp] theorem separatedBy_singleton (s b t : Tally) : separatedBy s b [t] = t * b := rfl

/-- Every part but the last has a separator behind it. -/
theorem separatedBy_concat (s b : Tally) (ts : List Tally) (t : Tally) :
    separatedBy s b (ts ++ [t]) = (ts.map (· * s)).prod * (t * b) := by
  induction ts with
  | nil => simp
  | cons u ts ih =>
    have h : separatedBy s b (u :: (ts ++ [t])) = u * s * separatedBy s b (ts ++ [t]) := by
      cases ts <;> rfl
    rw [List.cons_append, h, ih, List.map_cons, List.prod_cons, mul_assoc (u * s)]

/-- Every part but the first has a separator before it. -/
theorem separatedBy_cons (s b : Tally) (t : Tally) (ts : List Tally) :
    separatedBy s b (t :: ts) = t * (ts.map (s * ·)).prod * b := by
  induction ts generalizing t with
  | nil => simp
  | cons u ts ih =>
    have h : separatedBy s b (t :: u :: ts) = t * s * separatedBy s b (u :: ts) := rfl
    rw [h, ih, List.map_cons, List.prod_cons]
    simp only [mul_assoc]

/-- A separator behind each part is right where one may stand behind the last. -/
theorem prod_le_separatedBy {s b : Tally} (h : s ≤ b) (ts : List Tally) : (ts.map (· * s)).prod ≤ separatedBy s b ts := by
  induction ts using List.reverseRecOn with
  | nil => exact le_refl _
  | append_singleton ts t _ =>
    rw [separatedBy_concat, List.map_append, List.prod_append, List.map_singleton, List.prod_singleton]
    exact mul_le_mul_right (mul_le_mul_right h t) _

theorem separatedBy_map_le {α : Type} {f g : α → Tally} (h : ∀ x, f x ≤ g x) (s b : Tally) (xs : List α) :
    separatedBy s b (xs.map f) ≤ separatedBy s b (xs.map g) := by
  induction xs with
  | nil => exact le_refl _
  | cons x xs ih =>
    cases xs with
    | nil => exact mul_le_mul_left (h x) b
    | cons y ys => exact mul_le_mul' (mul_le_mul_left (h x) s) ih

theorem separatedBy_le_of_le {b b' : Tally} (h : b ≤ b') (s : Tally) (ts : List Tally) :
    separatedBy s b ts ≤ separatedBy s b' ts := by
  induction ts using List.reverseRecOn with
  | nil => exact le_refl _
  | append_singleton ts t _ =>
    rw [separatedBy_concat, separatedBy_concat]
    exact mul_le_mul_right (mul_le_mul_right h t) _

theorem placeholders_prod (ts : List Tally) : ts.prod.placeholders = (ts.map placeholders).sum := by
  induction ts with
  | nil => rfl
  | cons t ts ih => rw [List.prod_cons, placeholders_mul, ih, List.map_cons, List.sum_cons]

end Tally

end GoSyntax
