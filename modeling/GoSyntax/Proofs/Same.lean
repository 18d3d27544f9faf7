import GoSyntax.Grammar.Cursor

/-!
# Parsers that do the same

Two parsers are compared at once: from every cursor of a kind they give the same result and leave the same cursor, and of both a
fact is known. With one parser on both sides this is a fact about that parser; with two sets of productions it says that what
differs between them is never reached. Each way to put parsers together has its rule.

Some properties of the result of a parser do not depend on the tokens, nor on what is reported: they follow from how the result is put
together. A step whose result has no such property is passed over.
-/

namespace GoSyntax

open Parse

namespace Parse

variable {α β : Type}

theorem pure_apply (a : α) (c : Cursor) : (Pure.pure a : Parse α) c = (a, c) := rfl

theorem bind_apply (f : Parse α) (k : α → Parse β) (c : Cursor) : (f >>= k) c = k (f c).1 (f c).2 := rfl

end Parse

/-- From every cursor where `P` holds the two parsers do the same, and `Q` holds of what they give and leave. -/
def Same {α : Type} (P : Cursor → Prop) (f g : Parse α) (Q : α → Cursor → Prop) : Prop :=
  ∀ c, P c → f c = g c ∧ Q (f c).1 (f c).2

namespace Same

variable {α β : Type} {P P' : Cursor → Prop} {f g : Parse α} {Q Q' : α → Cursor → Prop}

theorem pure {a : α} (h : ∀ c, P c → Q a c) : Same P (Pure.pure a) (Pure.pure a) Q := fun c hc => ⟨rfl, h c hc⟩

/-- What is done next needs to agree only where the first parsers lead. -/
theorem bind {R : β → Cursor → Prop} {k k' : α → Parse β} (h : Same P f g Q) (hk : ∀ a, Same (Q a) (k a) (k' a) R) :
    Same P (f >>= k) (g >>= k') R := by
  intro c hc
  obtain ⟨heq, hQ⟩ := h c hc
  obtain ⟨hkeq, hR⟩ := hk _ _ hQ
  rw [bind_apply, bind_apply, ← heq]
  exact ⟨hkeq, hR⟩

theorem map {R : β → Cursor → Prop} {r : α → β} (h : Same P f g fun a => R (r a)) : Same P (r <$> f) (r <$> g) R := by
  intro c hc
  obtain ⟨heq, hR⟩ := h c hc
  have hl : (r <$> f) c = (r (f c).1, (f c).2) := rfl
  have hr : (r <$> g) c = (r (g c).1, (g c).2) := rfl
  rw [hl, hr, ← heq]
  exact ⟨rfl, hR⟩

theorem conseq (h : Same P' f g Q') (hP : ∀ c, P c → P' c) (hQ : ∀ a c, Q' a c → Q a c) : Same P f g Q := fun c hc =>
  ⟨(h c (hP c hc)).1, hQ _ _ (h c (hP c hc)).2⟩

/-- A fact that holds wherever the parsers start may be used. -/
theorem given {φ : Prop} (hφ : ∀ c, P c → φ) (h : φ → Same P f g Q) : Same P f g Q := fun c hc => h (hφ c hc) c hc

/-- Nothing has to be shown of parsers that start nowhere. -/
theorem absurd (h : ∀ c, ¬P c) : Same P f g Q := fun c hc => (h c hc).elim

theorem or (h : Same P f g Q) (h' : Same P' f g Q) : Same (fun c => P c ∨ P' c) f g Q := fun c hc => hc.elim (h c) (h' c)

theorem and {φ : Prop} (h : φ → Same P f g Q) : Same (fun c => φ ∧ P c) f g Q := fun c hc => h hc.1 c hc.2

theorem anyOf {ι : Type} {P : ι → Cursor → Prop} (h : ∀ i, Same (P i) f g Q) : Same (fun c => ∃ i, P i c) f g Q :=
  fun c hc => hc.elim fun i hi => h i c hi

/-- One of two branches is taken on both sides. -/
theorem ite {φ : Prop} [Decidable φ] {f' g' : Parse α} (h : φ → Same P f g Q) (h' : ¬φ → Same P f' g' Q) :
    Same P (if φ then f else f') (if φ then g else g') Q := by
  split
  · next hφ => exact h hφ
  · next hφ => exact h' hφ

/-- The second alternative is tried if the first says no. -/
theorem orM {f g f' g' : Parse Bool} {Q R : Bool → Cursor → Prop} (h : Same P f g Q) (ht : ∀ c, Q true c → R true c)
    (hf : Same (Q false) f' g' R) : Same P (f <||> f') (g <||> g') R := by
  refine bind h fun b => ?_
  cases b with
  | true => exact pure ht
  | false => exact hf

end Same

/-! ## Loops -/

/-- What holds after a pass: one thing if the loop goes on, another if it has ended. -/
def Continues {α : Type} (goesOn ended : α → Cursor → Prop) : ForInStep α → Cursor → Prop
  | .yield a => goesOn a
  | .done a => ended a

/-- An invariant that holds with fewer tokens left after each pass carries a loop to its own end. -/
theorem Same.passes {α : Type} {I : Nat → α → Cursor → Prop} {Q : α → Cursor → Prop} {pass pass' : α → Parse (ForInStep α)}
    {n : Nat} (room : ∀ m a c, I m a c → c.kinds.length < m) (tight : ∀ m a c, I m a c → I (c.kinds.length + 1) a c)
    (step : ∀ m < n, ∀ a, Same (I (m + 1) a) (pass a) (pass' a) (Continues (I m) Q)) (ns : List (Noted Token)) (a : α)
    (c : Cursor) (hn : c.kinds.length < n) (hc : c.kinds.length ≤ ns.length) (h : I (c.kinds.length + 1) a c) :
    passes pass ns a c = passes pass' ns a c ∧ Q (passes pass ns a c).1 (passes pass ns a c).2 := by
  induction ns generalizing a c with
  | nil =>
    obtain ⟨heq, hQ⟩ := step _ hn a c h
    have hzero : c.kinds.length = 0 := Nat.le_zero.1 hc
    have hpass : ∀ p : α → Parse (ForInStep α), Parse.passes p [] a c = ((p a c).1.value, (p a c).2) := fun _ => rfl
    rw [hpass, hpass, ← heq]
    cases hr : (pass a c).1 with
    | done a' =>
      rw [hr] at hQ
      exact ⟨rfl, hQ⟩
    | yield a' =>
      rw [hr, hzero] at hQ
      exact (Nat.not_lt_zero _ (room _ _ _ hQ)).elim
  | cons n' ns ih =>
    obtain ⟨heq, hQ⟩ := step _ hn a c h
    have hpass : ∀ p : α → Parse (ForInStep α), Parse.passes p (n' :: ns) a c
        = match (p a c).1 with
          | .yield a' => Parse.passes p ns a' (p a c).2
          | .done a' => (a', (p a c).2) := by
      intro p
      change (match (p a c).1 with
        | .yield a' => Parse.passes p ns a'
        | .done a' => Pure.pure a' : Parse α) (p a c).2 = _
      cases (p a c).1 <;> rfl
    rw [hpass, hpass, ← heq]
    cases hr : (pass a c).1 with
    | done a' =>
      rw [hr] at hQ
      exact ⟨rfl, hQ⟩
    | yield a' =>
      rw [hr] at hQ
      have hlt := room _ _ _ hQ
      exact ih a' _ (Nat.lt_trans hlt hn) (Nat.le_of_lt_succ (Nat.lt_of_lt_of_le hlt hc)) (tight _ _ _ hQ)

theorem Same.loop {α : Type} {I : Nat → α → Cursor → Prop} {Q : α → Cursor → Prop} {pass pass' : α → Parse (ForInStep α)}
    {n m : Nat} (room : ∀ m a c, I m a c → c.kinds.length < m) (tight : ∀ m a c, I m a c → I (c.kinds.length + 1) a c)
    (step : ∀ m < n, ∀ a, Same (I (m + 1) a) (pass a) (pass' a) (Continues (I m) Q)) (hm : m ≤ n) (a : α) :
    Same (I m a) (loop a pass) (loop a pass') Q := by
  intro c hc
  have hlen : c.kinds.length = c.feed.items.length := by simp [Cursor.kinds, Cursor.tokens]
  exact Same.passes room tight step c.feed.items a c (Nat.lt_of_lt_of_le (room _ _ _ hc) hm) (Nat.le_of_eq hlen)
    (tight _ _ _ hc)

/-! ## What a parser gives, whatever it reads -/

/-- The result of the parser has this property, from whatever cursor it is run. -/
def Gives {α : Type} (P : α → Prop) (f : Parse α) : Prop := ∀ c, P (f c).1

/-- A pass of a loop keeps the property of the items so far. -/
def Keeps {α : Type} (P : α → Prop) (items : Array α) (s : ForInStep (Array α)) : Prop := (∀ a ∈ items, P a) → ∀ a ∈ s.value, P a

namespace Gives

variable {α β : Type} {P P' : α → Prop} {Q : β → Prop} {f g : Parse α}

theorem pure {a : α} (h : P a) : Gives P (Pure.pure a) := fun _ => h

theorem bind {k : α → Parse β} (hf : Gives P f) (hk : ∀ a, P a → Gives Q (k a)) : Gives Q (f >>= k) := fun c => hk _ (hf c) (f c).2

/-- A step of whose result nothing is known. -/
theorem step {k : α → Parse β} (hk : ∀ a, Gives Q (k a)) : Gives Q (f >>= k) := fun c => hk (f c).1 (f c).2

theorem weaken (h : Gives P f) (hP : ∀ a, P a → P' a) : Gives P' f := fun c => hP _ (h c)

theorem map {r : α → β} (hf : Gives P f) (hr : ∀ a, P a → Q (r a)) : Gives Q (r <$> f) := fun c => hr _ (hf c)

theorem ite {φ : Prop} [Decidable φ] (hf : Gives P f) (hg : Gives P g) : Gives P (if φ then f else g) := by
  split
  · exact hf
  · exact hg

/-- What comes may be a result or nothing. -/
theorem some_ (h : Gives P f) : Gives (fun a? => ∀ a ∈ a?, P a) (some <$> f) := h.map fun a ha b hb => by
  obtain rfl := Option.some.inj hb
  exact ha

theorem none_ : Gives (fun a? => ∀ a ∈ a?, P a) (Pure.pure none) := pure fun _ h => nomatch h

theorem passes {pass : α → Parse (ForInStep α)} (h : ∀ a, P a → Gives (fun s => P s.value) (pass a)) (ns : List (Noted Token)) (a : α)
    (ha : P a) : Gives P (Parse.passes pass ns a) := by
  induction ns generalizing a with
  | nil => exact (h a ha).bind fun s hs => pure hs
  | cons n ns ih =>
    refine (h a ha).bind fun s hs => ?_
    cases s with
    | yield a' => exact ih a' hs
    | done a' => exact pure hs

/-- A loop keeps what each of its passes keeps. -/
theorem loop {pass : α → Parse (ForInStep α)} (h : ∀ a, P a → Gives (fun s => P s.value) (pass a)) {start : α} (hstart : P start) :
    Gives P (Parse.loop start pass) := fun c => passes h c.feed.items start hstart c

/-- A loop collects what its passes collect. -/
theorem collect {pass : Array α → Parse (ForInStep (Array α))} (h : ∀ items, Gives (Keeps P items) (pass items)) :
    Gives (fun items => ∀ a ∈ items.toList, P a) (Parse.loop #[] pass) := by
  refine (loop (P := fun items => ∀ a ∈ items, P a) (fun items hitems => (h items).weaken fun s hs => hs hitems) ?_).weaken ?_
  · simp
  · intro items hitems
    simpa using hitems

theorem keeps_push {items : Array α} {a : α} {s : ForInStep (Array α)} (hs : s.value = items.push a) (ha : P a) : Keeps P items s := by
  intro hitems
  rw [hs]
  exact Array.forall_mem_push.2 ⟨ha, hitems⟩

theorem separated {item : Parse α} (h : Gives P item) : Gives (fun items => P items.1 ∧ ∀ a ∈ items.2, P a) (Parse.separated item) := by
  have hpass : ∀ items : Array α, Gives (Keeps P items) (separatedPass item items) := fun items =>
    step fun _ => .ite (h.bind fun a ha => pure (keeps_push rfl ha)) (pure id)
  exact h.bind fun first hfirst => (collect hpass).bind fun others hothers => pure ⟨hfirst, hothers⟩

theorem members {member : Parse α} (close : TokenKind) (h : Gives P member) :
    Gives (fun members => ∀ a ∈ members, P a) (Parse.members close member) := by
  have hpass : ∀ list : Array α, Gives (Keeps P list) (memberPass close member list) := fun list =>
    step fun _ => .ite (pure id) (h.bind fun a ha => step fun _ => .ite (pure (keeps_push rfl ha)) (pure (keeps_push rfl ha)))
  exact (collect hpass).bind fun list hlist => pure hlist

end Gives

end GoSyntax
