import GoSyntax.Grammar.Expression
import GoSyntax.Proofs.Reading.Block

/-!
# Reading what stands behind an operand

A suffix makes a larger expression of the one before it. What holds of the tally of an expression as it grows, `Grows T`, is kept
by every suffix.
-/

namespace GoSyntax.Grammar

open Parse

variable {n m : Nat} {p q : Productions} {start : Cursor} {t : Tally} {φ : Token → Prop} {T : Expr → Tally}

/-- Whatever is read behind an expression to make it larger is counted. -/
def Grows (T : Expr → Tally) : Prop := ∀ e e' u, e.tally * u ≤ e'.tally → T e * u ≤ T e'

theorem grows_mul_tally (t : Tally) : Grows fun e => t * e.tally := fun e e' u h => by
  rw [mul_assoc]
  exact mul_le_mul_right h t

theorem grows_top : Grows fun _ => ⊤ := fun _ _ _ _ => le_top

/-! ## Indices and slices -/

theorem sliceBound_reads (h : Agrees n p q) (level : Int) :
    Reads n (tally? Expr.tally) (sliceBound p level) (sliceBound q level) := by
  intro m hm start t
  refine .current fun here _ => .ite (fun _ => .ret (le_of_eq (mul_one t).symm)) fun _ => ?_
  exact (h.expr level).map hm fun _ => le_rfl

theorem requireBound_reads (n : Nat) (bound : Option Expr) (reason : String) (loc : Location) :
    Reads n (fun _ => .given (bound.isSome = true)) (requireBound bound reason loc) (requireBound bound reason loc) :=
  reportUnless_reads n bound.isSome rfl loc

/-- The slice has all the bounds it needs, or one has been reported as missing. -/
theorem bounds_le_slice_three (loc : Location) (e : Expr) (low high max : Option Expr) :
    e.tally * (.token Punctuation.lBracket * tally? Expr.tally low * .token Punctuation.colon * tally? Expr.tally high
      * .token Punctuation.colon * tally? Expr.tally max * .token Punctuation.rBracket
      * .given (high.isSome = true) * .given (max.isSome = true)) ≤ (Expr.slice loc e low high max true).tally := by
  cases high with
  | none => exact Tally.le_of_words_eq_zero (by simp [Tally.words_given_of_not]) (by simp [Expr.placeholders_slice, tally?, add_assoc])
  | some high =>
    cases max with
    | none =>
      exact Tally.le_of_words_eq_zero (by simp [Tally.words_given_of_not]) (by simp [Expr.placeholders_slice, tally?, add_assoc])
    | some max =>
      refine le_of_eq ?_
      rw [Expr.tally_slice_three, Tally.given_of Option.isSome_some, Tally.given_of Option.isSome_some]
      simp only [tally?, Option.map_some, Tally.maybe_some, mul_one, mul_assoc]

theorem sliceFrom_same (h : Agrees n p q) (hT : Grows T) (hm : m ≤ n) (level : Int) (e : Expr) (low : Option Expr) :
    Same (Reached start (m + 1) (T e * .token Punctuation.lBracket * tally? Expr.tally low) (·.kind = Punctuation.colon))
      (sliceFrom p level e low) (sliceFrom q level e low) fun e' => Reached start m (T e') ⊤ := by
  refine .consumeKind (fun _ => id) fun _ => (sliceBound_reads h level).bind hm fun high => .ifAccept ?_ ?_
  · refine (sliceBound_reads h level).bind hm fun max => (expect_reads m _).bind le_rfl fun _ => ?_
    refine (requireBound_reads m high _ _).bind le_rfl fun _ => (requireBound_reads m max _ _).bind le_rfl fun _ => .ret ?_
    have hle := hT _ _ _ (bounds_le_slice_three e.loc e low high max)
    simpa only [mul_assoc] using hle
  · refine (expect_reads m _).bind le_rfl fun _ => .ret ?_
    have hle := hT _ _ _ (le_of_eq (Expr.tally_slice e.loc e low high).symm)
    simpa only [tally?, mul_assoc] using hle

theorem indexFrom_same (h : Agrees n p q) (hT : Grows T) (hm : m ≤ n) (level : Int) (e low : Expr) :
    Same (Reached start m (T e * .token Punctuation.lBracket * low.tally) φ) (indexFrom p level e low) (indexFrom q level e low)
      fun e' => Reached start m (T e') ⊤ := by
  refine .ifAt ?_ (.ifAccept (.ret ?_) (.reportHere (fun _ => rfl) fun here _ => ?_))
  · refine .weaken (.weakRoom (fun k hk => sliceFrom_same h hT hk level e (some low)) (hm.trans (Nat.le_succ n))) le_rfl le_rfl
      fun _ => And.right
  · have hle := hT _ _ _ (le_of_eq (Expr.tally_index e.loc e low).symm)
    simpa only [mul_assoc] using hle
  · refine (skipTo_reads m _).bind le_rfl fun _ => (accept_reads m).bind le_rfl fun b => .ret ?_
    have hslice : e.tally * .lost (.token Punctuation.lBracket * low.tally)
        ≤ (Expr.slice e.loc e (some low) none none false).tally :=
      Tally.le_of_words_eq_zero (by simp) (by simp [Expr.placeholders_slice])
    refine le_trans ?_ (hT _ _ _ hslice)
    have hlost := Tally.mul_fault_mul_le_lost (.token Punctuation.lBracket * low.tally) here.loc
      (⊤ * if b then .token Punctuation.rBracket else 1)
    simpa only [mul_assoc] using mul_le_mul_right hlost (T e)

theorem indexOrSlice_same (h : Agrees n p q) (hT : Grows T) (hm : m ≤ n) (level : Int) (e : Expr) :
    Same (Reached start (m + 1) (T e) (·.kind = Punctuation.lBracket)) (indexOrSlice p level e) (indexOrSlice q level e)
      fun e' => Reached start m (T e') ⊤ := by
  refine .consumeKind (fun _ => id) fun _ => .ifAt ?_ ((h.expr (level + 1)).bind hm fun low => indexFrom_same h hT hm _ e low)
  refine .weaken (.weakRoom (fun k hk => sliceFrom_same h hT hk (level + 1) e none) (hm.trans (Nat.le_succ n))) le_rfl ?_
    fun _ => And.right
  rw [tally?_none, mul_one]

/-! ## Calls, composite literals, selectors and assertions -/

theorem argument_reads (h : Agrees n p q) (level : Int) : Reads n argumentTally (argument p level) (argument q level) := by
  intro m hm start t
  refine (h.expr level).bind hm fun e => (accept_reads m).bind le_rfl fun b => .ret ?_
  rw [mul_assoc]
  exact le_rfl

theorem call_same (h : Agrees n p q) (hT : Grows T) (hm : m ≤ n) (level : Int) (e : Expr) :
    Same (Reached start (m + 1) (T e) (·.kind = Punctuation.lParen)) (call p level e) (call q level e)
      fun e' => Reached start m (T e') ⊤ := by
  refine .consumeKind (fun _ => id) fun _ => (members_reads (argument_reads h (level + 1)) _).bind hm fun args => ?_
  refine (expect_reads m _).bind le_rfl fun _ => .ret ?_
  have hle := hT _ _ _ (Expr.mul_listed_arguments_le e.loc e args)
  simpa only [mul_assoc] using hle

theorem element_reads (h : Agrees n p q) (level : Int) : Reads n Expr.tally (element p level) (element q level) := by
  intro m hm start t
  refine (h.elementValue level).bind hm fun key => .ifAccept ?_ (.ret le_rfl)
  refine (h.elementValue level).bind hm fun value => .ret (le_of_eq ?_)
  simp only [Expr.tally_keyValue, mul_assoc]

theorem composite_same (h : Agrees n p q) {u : Tally} (hm : m ≤ n) (level : Int) (e : Option Expr)
    (hu : ∀ loc es, u * (.token Punctuation.lBrace * .listed (es.map Expr.tally) * .token Punctuation.rBrace)
      ≤ T (.composite loc e es)) :
    Same (Reached start (m + 1) u (·.kind = Punctuation.lBrace)) (composite p level e) (composite q level e)
      fun e' => Reached start m (T e') ⊤ := by
  refine .current fun here hhere => (expect_takes m _).bind le_rfl (by rintro _ rfl; exact hhere) fun _ => ?_
  refine (members_reads (element_reads h (level + 1)) _).bind hm fun list => (expect_reads m _).bind le_rfl fun _ => .ret ?_
  have hle := hu ((e.map Expr.loc).getD here.loc) list
  simpa only [mul_assoc] using hle

/-- The type of an assertion, or the keyword in place of it. -/
def assertedTally : Option Expr → Tally
  | some e => e.tally
  | none => .token Keyword.type

theorem assertedType?_reads (h : Agrees n p q) : Reads n assertedTally (assertedType? p) (assertedType? q) := by
  intro m hm start t
  exact .ifAccept (.ret le_rfl) ((type_reads h).map hm fun _ => le_rfl)

theorem mul_assertedTally (loc : Location) (e : Expr) (a : Option Expr) :
    e.tally * (.token Punctuation.dot * .token Punctuation.lParen * assertedTally a * .token Punctuation.rParen)
      = (Expr.assertion loc e a).tally := by
  cases a with
  | some a => simp only [Expr.tally_assertion, assertedTally, mul_assoc]
  | none => simp only [Expr.tally_assertion_none, assertedTally, mul_assoc]

theorem selectorOrAssertion_same (h : Agrees n p q) (hT : Grows T) (hm : m ≤ n) (e : Expr) :
    Same (Reached start (m + 1) (T e) (·.kind = Punctuation.dot)) (selectorOrAssertion p e) (selectorOrAssertion q e)
      fun e' => Reached start m (T e') ⊤ := by
  refine .consumeKind (fun _ => id) fun _ => .ifAccept ?_ ((name_reads m).bind le_rfl fun field => .ret ?_)
  · refine (assertedType?_reads h).bind hm fun a => (expect_reads m _).bind le_rfl fun _ => .ret ?_
    have hle := hT _ _ _ (le_of_eq (mul_assertedTally e.loc e a))
    simpa only [mul_assoc] using hle
  · have hle := hT e (.selector e.loc e field) (.token Punctuation.dot * field.tally)
      (le_of_eq (by rw [Expr.tally_selector, mul_assoc]))
    simpa only [mul_assoc] using hle

/-! ## All suffixes -/

theorem suffix_passes (h : Agrees n p q) (hT : Grows T) (level : Int) :
    Passes (n + 1) T T (suffix p level) (suffix q level) := by
  intro m hm start e
  have hm' : m ≤ n := Nat.le_of_lt_succ hm
  refine .current fun here _ => ?_
  obtain ⟨kind, loc⟩ := here
  cases kind with
  | punctuation mark =>
    cases mark with
    | dot => exact .map ((selectorOrAssertion_same h hT hm' e).weaken le_rfl le_rfl (by rintro _ rfl; rfl))
    | lBracket => exact .map ((indexOrSlice_same h hT hm' level e).weaken le_rfl le_rfl (by rintro _ rfl; rfl))
    | lParen => exact .map ((call_same h hT hm' level e).weaken le_rfl le_rfl (by rintro _ rfl; rfl))
    | lBrace =>
      refine .ite (fun _ => .map ?_) fun _ => .pure fun _ hc => hc.done le_rfl
      refine (composite_same h hm' level (some e) fun loc es => ?_).weaken le_rfl le_rfl (by rintro _ rfl; rfl)
      exact hT _ _ _ (le_of_eq (Expr.tally_composite loc (some e) es).symm)
    | _ => exact .pure fun _ hc => hc.done le_rfl
  | _ => exact .pure fun _ hc => hc.done le_rfl

theorem suffixes_same (h : Agrees n p q) (hm : m ≤ n + 1) (level : Int) (e : Expr) :
    Same (Reached start m (t * e.tally) φ) (suffixes p level e) (suffixes q level e)
      fun e' => Reached start m (t * e'.tally) ⊤ :=
  (suffix_passes h (grows_mul_tally t) level).loop hm e

end GoSyntax.Grammar
