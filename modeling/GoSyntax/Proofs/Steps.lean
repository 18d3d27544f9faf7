import GoSyntax.Proofs.Reached
import GoSyntax.Proofs.StmtTally

/-!
# The rules of single steps

Each step over the tokens has a rule for what comes after it, and each parser of single tokens, names and literals a statement of what
it reads: `Reads n w f g` says that on fewer than `n` tokens `f` and `g` do the same and what they have read is tallied by the `w` of
their result. `Takes n ψ w f g` is for parsers that start at a token with `ψ` and take it: they may have one token more.
-/

namespace GoSyntax

open Parse

namespace TokenKind

/-- The kind says it all: a token of this kind carries no name and no value. -/
class Bare (kind : TokenKind) : Prop where
  sameKind_iff (k : TokenKind) : k.sameKind kind = true ↔ k = kind

/-- A token of this kind can be taken: it does not end the input. -/
class Proceeds (kind : TokenKind) : Prop where
  ne_eof : kind ≠ .eof

instance (word : Keyword) : Bare (keyword word) := ⟨fun k => by cases k <;> simp [sameKind]⟩
instance (op : Operator) : Bare (operator op) := ⟨fun k => by cases k <;> simp [sameKind]⟩
instance (mark : Punctuation) : Bare (punctuation mark) := ⟨fun k => by cases k <;> simp [sameKind]⟩
instance : Bare eof := ⟨fun k => by cases k <;> simp [sameKind]⟩

instance (word : Keyword) : Proceeds (keyword word) := ⟨by rintro ⟨⟩⟩
instance (op : Operator) : Proceeds (operator op) := ⟨by rintro ⟨⟩⟩
instance (mark : Punctuation) : Proceeds (punctuation mark) := ⟨by rintro ⟨⟩⟩
instance (name : String) : Proceeds (ident name) := ⟨by rintro ⟨⟩⟩
instance (value : Constant) : Proceeds (literal value) := ⟨by rintro ⟨⟩⟩

end TokenKind

/-- On fewer than `n` tokens both parsers read what `w` says of their result. -/
def Reads {α : Type} (n : Nat) (w : α → Tally) (f g : Parse α) : Prop :=
  ∀ m ≤ n, ∀ start t, Same (Reached start m t ⊤) f g fun a => Reached start m (t * w a) ⊤

/-- At a token with `ψ` both parsers take that token and read what `w` says of their result, if fewer than `n` tokens are left then. -/
def Takes {α : Type} (n : Nat) (ψ : Token → Prop) (w : α → Tally) (f g : Parse α) : Prop :=
  ∀ m ≤ n, ∀ start t, Same (Reached start (m + 1) t ψ) f g fun a => Reached start m (t * w a) ⊤

variable {α β : Type} {start : Cursor} {n m : Nat} {t : Tally} {φ ψ : Token → Prop} {Q : β → Cursor → Prop}

/-! ## Using what a parser reads -/

namespace Same

/-- The result of a parser that ends here. -/
theorem ret {a : α} {u : α → Tally} (h : t ≤ u a) :
    Same (Reached start m t φ) (Pure.pure a) (Pure.pure a) fun a => Reached start m (u a) ⊤ :=
  pure fun _ hc => hc.done h

theorem weaken {f g : Parse β} {m' : Nat} {t' : Tally} {φ' : Token → Prop} (h : Same (Reached start m' t' φ') f g Q) (hm : m ≤ m')
    (ht : t ≤ t') (hφ : ∀ a, φ a → φ' a) : Same (Reached start m t φ) f g Q :=
  h.conseq (fun _ hc => hc.mono hm ht (hφ _)) fun _ _ hQ => hQ

/-- A parser that takes a token may also be run with that token not counted. -/
theorem weakRoom {f g : Parse α} {u : α → Tally}
    (h : ∀ m ≤ n, Same (Reached start (m + 1) t φ) f g fun a => Reached start m (u a) ⊤) (hm : m ≤ n + 1) :
    Same (Reached start m t φ) f g fun a => Reached start m (u a) ⊤ := by
  cases m with
  | zero => exact .absurd fun c hc => Nat.not_lt_zero _ hc.room
  | succ m =>
    exact (h m (Nat.le_of_succ_le_succ hm)).conseq (fun _ hc => hc) fun _ _ hQ => hQ.mono (Nat.le_succ m) le_rfl id

/-- The next token either satisfies `χ` or does not. -/
theorem byCases {f g : Parse β} (χ : Token → Prop) (h : Same (Reached start m t fun a => φ a ∧ χ a) f g Q)
    (h' : Same (Reached start m t fun a => φ a ∧ ¬χ a) f g Q) : Same (Reached start m t φ) f g Q := by
  intro c hc
  by_cases hχ : χ c.here
  · exact h c (hc.mono le_rfl le_rfl fun hφ => ⟨hφ, hχ⟩)
  · exact h' c (hc.mono le_rfl le_rfl fun hφ => ⟨hφ, hχ⟩)

end Same

namespace Reads

variable {w : α → Tally} {f g : Parse α}

theorem bind (h : Reads n w f g) (hm : m ≤ n) {k k' : α → Parse β}
    (hk : ∀ a, Same (Reached start m (t * w a) ⊤) (k a) (k' a) Q) : Same (Reached start m t φ) (f >>= k) (g >>= k') Q :=
  .bind ((h m hm start t).weaken le_rfl le_rfl fun _ _ => trivial) hk

theorem last (h : Reads n w f g) (hm : m ≤ n) {u : α → Tally} (hle : ∀ a, t * w a ≤ u a) :
    Same (Reached start m t φ) f g fun a => Reached start m (u a) ⊤ :=
  (h m hm start t).conseq (fun _ hc => hc.done le_rfl) fun a _ hQ => hQ.done (hle a)

theorem map (h : Reads n w f g) (hm : m ≤ n) {r : α → β} {u : β → Tally} (hle : ∀ a, t * w a ≤ u (r a)) :
    Same (Reached start m t φ) (r <$> f) (r <$> g) fun b => Reached start m (u b) ⊤ :=
  .map (h.last hm (u := fun a => u (r a)) hle)

theorem mono (h : Reads n w f g) {n' : Nat} (hn : n' ≤ n) : Reads n' w f g := fun m hm => h m (hm.trans hn)

/-- On no tokens at all there is nothing to show. -/
theorem of_succ (h : ∀ m ≤ n, ∀ start t, Same (Reached start (m + 1) t ⊤) f g fun a => Reached start (m + 1) (t * w a) ⊤) :
    Reads (n + 1) w f g := by
  intro m hm start t
  cases m with
  | zero => exact .absurd fun c hc => Nat.not_lt_zero _ hc.room
  | succ m => exact h m (Nat.le_of_succ_le_succ hm) start t

/-- A parser either takes a token or leaves the next one where it is. -/
theorem moves (h : Reads n w f g) (hm : m + 1 ≤ n) {χ : TokenKind → Prop} (hφ : ∀ a, φ a → χ a.kind) :
    Same (Reached start (m + 1) t φ) f g fun a c =>
      Reached start m (t * w a) ⊤ c ∨ Reached start (m + 1) (t * w a) (fun a => χ a.kind) c := by
  intro c hc
  obtain ⟨heq, hQ⟩ := h (m + 1) hm start t c (hc.done le_rfl)
  obtain ⟨_, hsuffix⟩ := h (m + 1) hm c 1 c (.refl hc.room trivial)
  refine ⟨heq, ?_⟩
  rcases hsuffix.suffix.length_le.eq_or_lt with hsame | hlt
  · refine .inr (hQ.mono le_rfl le_rfl fun _ => ?_)
    rw [Cursor.here_kind_of_kinds_eq (hsuffix.suffix.eq_of_length hsame)]
    exact hφ _ hc.face
  · exact .inl { hQ with room := hlt.trans_le (Nat.le_of_lt_succ hc.room) }

end Reads

namespace Takes

variable {w : α → Tally} {f g : Parse α}

theorem bind (h : Takes n ψ w f g) (hm : m ≤ n) (hφ : ∀ a, φ a → ψ a) {k k' : α → Parse β}
    (hk : ∀ a, Same (Reached start m (t * w a) ⊤) (k a) (k' a) Q) : Same (Reached start (m + 1) t φ) (f >>= k) (g >>= k') Q :=
  .bind ((h m hm start t).weaken le_rfl le_rfl hφ) hk

theorem last (h : Takes n ψ w f g) (hm : m ≤ n) (hφ : ∀ a, φ a → ψ a) {u : α → Tally} (hle : ∀ a, t * w a ≤ u a) :
    Same (Reached start (m + 1) t φ) f g fun a => Reached start m (u a) ⊤ :=
  (h m hm start t).conseq (fun _ hc => hc.mono le_rfl le_rfl (hφ _)) fun a _ hQ => hQ.done (hle a)

/-- Where it is not needed that a token has been taken. -/
theorem weak (h : Takes n ψ w f g) (hm : m ≤ n + 1) (hφ : ∀ a, φ a → ψ a) {u : α → Tally} (hle : ∀ a, t * w a ≤ u a) :
    Same (Reached start m t φ) f g fun a => Reached start m (u a) ⊤ :=
  .weakRoom (fun _ hk => h.last hk hφ hle) hm

theorem weakMap (h : Takes n ψ w f g) (hm : m ≤ n + 1) (hφ : ∀ a, φ a → ψ a) {r : α → β} {u : β → Tally}
    (hle : ∀ a, t * w a ≤ u (r a)) : Same (Reached start m t φ) (r <$> f) (r <$> g) fun b => Reached start m (u b) ⊤ :=
  .map (h.weak hm hφ (u := fun a => u (r a)) hle)

end Takes

/-! ## Looking, taking and reporting -/

namespace Same

variable {k k' : Token → Parse β}

theorem current (h : ∀ here, φ here → Same (Reached start m t (· = here)) (k here) (k' here) Q) :
    Same (Reached start m t φ) (Parse.current >>= k) (Parse.current >>= k') Q := fun _ hc =>
  h _ hc.face _ ((hc.peek 0).mono le_rfl le_rfl fun _ => Cursor.here_peek 0 _)

theorem peek {j : Nat} (h : ∀ a, Same (Reached start m t φ) (k a) (k' a) Q) :
    Same (Reached start m t φ) (Parse.peek j >>= k) (Parse.peek j >>= k') Q := fun _ hc => h _ _ (hc.peek j)

theorem consume (hφ : ∀ a, φ a → a.kind ≠ .eof)
    (h : ∀ a, φ a → Same (Reached start m (t * .token a.kind) ⊤) (k a) (k' a) Q) :
    Same (Reached start (m + 1) t φ) (Parse.consume >>= k) (Parse.consume >>= k') Q := fun _ hc =>
  h _ hc.face _ (hc.consume (hφ _ hc.face))

theorem consumeHere {here : Token} [here.kind.Proceeds]
    (h : Same (Reached start m (t * .token here.kind) ⊤) (k here) (k' here) Q) :
    Same (Reached start (m + 1) t (· = here)) (Parse.consume >>= k) (Parse.consume >>= k') Q :=
  consume (fun _ ha => ha ▸ TokenKind.Proceeds.ne_eof) fun _ ha => ha ▸ h

theorem consumeKind {kind : TokenKind} [kind.Proceeds] (hφ : ∀ a, φ a → a.kind = kind)
    (h : ∀ a, Same (Reached start m (t * .token kind) ⊤) (k a) (k' a) Q) :
    Same (Reached start (m + 1) t φ) (Parse.consume >>= k) (Parse.consume >>= k') Q :=
  consume (fun a ha => hφ a ha ▸ TokenKind.Proceeds.ne_eof) fun a ha => hφ a ha ▸ h a

theorem report {fault : Fault} (hf : fault.isLexical = false) {loc : Location} {k k' : Unit → Parse β}
    (h : Same (Reached start m (t * .fault loc) φ) (k ()) (k' ()) Q) :
    Same (Reached start m t φ) (Parse.report fault loc >>= k) (Parse.report fault loc >>= k') Q := fun _ hc =>
  h _ (hc.report hf loc)

theorem reports {k k' : Nat → Parse β} (h : ∀ n, Same (Reached start m (t * .given (n = 0)) φ) (k n) (k' n) Q) :
    Same (Reached start m t φ) (Parse.reports >>= k) (Parse.reports >>= k') Q := fun _ hc => h _ _ hc.reports

/-- What is reported of the next token is reported where it is. -/
theorem reportHere_same {fault : String → Fault} (hf : ∀ s, (fault s).isLexical = false) :
    Same (Reached start m t φ) (Parse.reportHere fault) (Parse.reportHere fault) fun _ c =>
      φ c.here ∧ Reached start m (t * .fault c.here.loc) φ c := fun c hc => by
  have hhere : (Parse.reportHere fault c).2.here = c.here := Cursor.here_peek 0 c
  refine ⟨rfl, ?_⟩
  change φ (Parse.reportHere fault c).2.here ∧ Reached start m (t * .fault (Parse.reportHere fault c).2.here.loc) φ _
  rw [hhere]
  exact ⟨hc.face, (hc.peek 0).report (hf _) _⟩

theorem reportHere {fault : String → Fault} (hf : ∀ s, (fault s).isLexical = false) {k k' : Unit → Parse β}
    (h : ∀ here, φ here → Same (Reached start m (t * .fault here.loc) (· = here)) (k ()) (k' ()) Q) :
    Same (Reached start m t φ) (Parse.reportHere fault >>= k) (Parse.reportHere fault >>= k') Q :=
  .bind (reportHere_same hf) fun _ c hc => h c.here hc.1 c (hc.2.mono le_rfl le_rfl fun _ => rfl)

theorem reportHere_last {fault : String → Fault} (hf : ∀ s, (fault s).isLexical = false) {u : Unit → Tally}
    (h : ∀ here, φ here → t * .fault here.loc ≤ u ()) :
    Same (Reached start m t φ) (Parse.reportHere fault) (Parse.reportHere fault) fun a => Reached start m (u a) φ :=
  (reportHere_same hf).conseq (fun _ hc => hc) fun _ _ hQ => hQ.2.mono le_rfl (h _ hQ.1) id

end Same

end GoSyntax
