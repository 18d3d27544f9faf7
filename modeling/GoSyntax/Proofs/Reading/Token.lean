import GoSyntax.Proofs.Steps

/-!
# Reading tokens, lists, names and literals

What the parsers of `Grammar/Cursor` read. A token that is asked for is read or reported as missing; skipping reads any tokens at
all; a list reads its items and the separators between them.
-/

namespace GoSyntax

open Parse

variable {α β : Type} {start : Cursor} {n m : Nat} {t : Tally} {φ : Token → Prop} {Q : β → Cursor → Prop}

/-! ## Single tokens -/

/-- After asking whether the next token is of a kind, this is known of it. -/
def IsOrNot (kind : TokenKind) (φ : Token → Prop) (b : Bool) (a : Token) : Prop := φ a ∧ (a.kind = kind ↔ b = true)

theorem isAt_same {kind : TokenKind} [kind.Bare] :
    Same (Reached start m t φ) (isAt kind) (isAt kind) fun b => Reached start m t (IsOrNot kind φ b) := by
  refine .current fun here hφ => .pure fun _ hc => hc.mono le_rfl le_rfl ?_
  rintro rfl
  exact ⟨hφ, (TokenKind.Bare.sameKind_iff _).symm⟩

/-- What is known after a token has been accepted, or not. -/
def Accepted (start : Cursor) (m : Nat) (t : Tally) (φ : Token → Prop) (kind : TokenKind) (b : Bool) : Cursor → Prop :=
  if b then Reached start m (t * .token kind) ⊤ else Reached start (m + 1) t fun a => φ a ∧ a.kind ≠ kind

theorem accept_same {kind : TokenKind} [kind.Bare] [kind.Proceeds] :
    Same (Reached start (m + 1) t φ) (accept kind) (accept kind) (Accepted start m t φ kind) := by
  refine .bind isAt_same fun b => ?_
  cases b with
  | true =>
    have hkind : ∀ a, IsOrNot kind φ true a → a.kind = kind := fun a ha => ha.2.2 rfl
    exact .consumeKind hkind fun _ => .pure fun _ hc => hc
  | false => exact .pure fun _ hc => hc.mono le_rfl le_rfl fun hφ => ⟨hφ.1, fun h => Bool.false_ne_true (hφ.2.1 h)⟩

namespace Same

variable {f g f' g' : Parse β}

/-- One branch for a token of a kind, one for any other token. -/
theorem ifAt {kind : TokenKind} [kind.Bare] (ht : Same (Reached start m t fun a => φ a ∧ a.kind = kind) f g Q)
    (hf : Same (Reached start m t fun a => φ a ∧ a.kind ≠ kind) f' g' Q) :
    Same (Reached start m t φ) (do if ← isAt kind then f else f') (do if ← isAt kind then g else g') Q := by
  refine .bind isAt_same fun b => ?_
  cases b with
  | true => exact ht.weaken le_rfl le_rfl fun _ hφ => ⟨hφ.1, hφ.2.2 rfl⟩
  | false => exact hf.weaken le_rfl le_rfl fun _ hφ => ⟨hφ.1, fun h => Bool.false_ne_true (hφ.2.1 h)⟩

/-- One branch behind a token of a kind, one for any other token, with one token less on the first. -/
theorem ifAcceptTake {kind : TokenKind} [kind.Bare] [kind.Proceeds] (ht : Same (Reached start m (t * .token kind) ⊤) f g Q)
    (hf : Same (Reached start (m + 1) t fun a => φ a ∧ a.kind ≠ kind) f' g' Q) :
    Same (Reached start (m + 1) t φ) (do if ← accept kind then f else f') (do if ← accept kind then g else g') Q := by
  refine .bind accept_same fun b => ?_
  cases b with
  | true => exact ht
  | false => exact hf

/-- One branch behind a token of a kind, one for any other token. -/
theorem ifAccept {kind : TokenKind} [kind.Bare] [kind.Proceeds] (ht : Same (Reached start m (t * .token kind) ⊤) f g Q)
    (hf : Same (Reached start m t fun a => φ a ∧ a.kind ≠ kind) f' g' Q) :
    Same (Reached start m t φ) (do if ← accept kind then f else f') (do if ← accept kind then g else g') Q := by
  cases m with
  | zero => exact .absurd fun c hc => Nat.not_lt_zero _ hc.room
  | succ m => exact .ifAcceptTake (ht.weaken (Nat.le_succ m) le_rfl fun _ => id) hf

end Same

/-- A token that may be there. -/
theorem accept_reads (n : Nat) {kind : TokenKind} [kind.Bare] [kind.Proceeds] :
    Reads n (fun b => if b then .token kind else 1) (accept kind) (accept kind) := by
  intro m _ start t
  cases m with
  | zero => exact .absurd fun c hc => Nat.not_lt_zero _ hc.room
  | succ m =>
    refine accept_same.conseq (fun _ hc => hc) fun b c hc => ?_
    cases b with
    | true => exact Reached.mono hc (Nat.le_succ m) le_rfl id
    | false => exact Reached.done hc (le_of_eq (mul_one t).symm)

/-- What is missing is spelled by nothing. -/
theorem Tally.mul_fault_le_of_placeholders {u : Tally} (h : u.placeholders = 0) (loc : Location) : t * .fault loc ≤ t * u :=
  mul_fault_le (by simp [h])

theorem Tally.mul_fault_le_mul_given (p : Prop) (loc : Location) : t * .fault loc ≤ t * .given p :=
  mul_fault_le_of_placeholders (placeholders_given p) loc

/-- What is checked and not reported is so. -/
theorem reportUnless_reads (n : Nat) (ok : Bool) {fault : Fault} (hf : fault.isLexical = false) (loc : Location) :
    Reads n (fun _ => .given (ok = true)) (reportUnless ok fault loc) (reportUnless ok fault loc) := by
  intro m _ start t
  exact .ite (fun hok => .ret (Tally.le_mul_given hok t)) fun _ c hc =>
    ⟨rfl, (hc.report hf loc).done (Tally.mul_fault_le_mul_given _ loc)⟩

theorem reportExpected_reads (n : Nat) (expected : String) {u : Tally} (h : u.placeholders = 0) :
    Reads n (fun _ => u) (reportExpected expected) (reportExpected expected) := fun _ _ _ _ =>
  .reportHere_last (fun _ => rfl) fun _ _ => Tally.mul_fault_le_of_placeholders h _

/-- A token that has to be there. -/
theorem expect_reads (n : Nat) (kind : TokenKind) [kind.Bare] [kind.Proceeds] :
    Reads n (fun _ => .token kind) (expect kind) (expect kind) := by
  intro m hm start t
  refine .current fun here _ => .ifAccept (.ret le_rfl) ?_
  exact (reportExpected_reads m _ (Tally.placeholders_token kind)).bind le_rfl fun _ => .ret le_rfl

/-- A token that is there is taken. -/
theorem expect_takes (n : Nat) (kind : TokenKind) [kind.Bare] [kind.Proceeds] :
    Takes n (fun a => a.kind = kind) (fun _ => .token kind) (expect kind) (expect kind) := by
  intro m hm start t
  refine .current fun here hhere => .ifAcceptTake (.ret le_rfl) ?_
  exact .absurd fun c hc => hc.face.2 (hc.face.1 ▸ hhere)

/-! ## Ends -/

/-- What is known after asking whether an end comes next or a separator can be taken. -/
def Ended (start : Cursor) (m : Nat) (t : Tally) (φ χ : Token → Prop) (separator : TokenKind) (b : Bool) (c : Cursor) : Prop :=
  if b then Reached start (m + 1) t (fun a => φ a ∧ χ a) c ∨ Reached start m (t * .token separator) ⊤ c
  else Reached start (m + 1) t (fun a => φ a ∧ ¬χ a ∧ a.kind ≠ separator) c

/-- The parser asks whether the next token satisfies `χ`. -/
def Asks (χ : Token → Prop) (f : Parse Bool) : Prop := ∀ start m t φ,
  Same (Reached start m t φ) f f fun b => Reached start m t fun a => φ a ∧ (χ a ↔ b = true)

theorem isAt_asks (kind : TokenKind) [kind.Bare] : Asks (·.kind = kind) (isAt kind) :=
  fun _ _ _ _ => isAt_same

theorem Asks.or {χ χ' : Token → Prop} {f g : Parse Bool} (h : Asks χ f) (h' : Asks χ' g) :
    Asks (fun a => χ a ∨ χ' a) (f <||> g) := fun start m t φ => by
  refine .orM (h start m t φ) (fun c hc => hc.mono le_rfl le_rfl fun ha => ⟨ha.1, fun _ => rfl, fun _ => .inl (ha.2.2 rfl)⟩) ?_
  refine (h' start m t _).conseq (fun _ hc => hc) fun b c hc => hc.mono le_rfl le_rfl fun ha => ⟨ha.1.1, ?_⟩
  exact (or_iff_right fun hχ => Bool.false_ne_true (ha.1.2.1 hχ)).trans ha.2

/-- One branch at an end, one elsewhere. -/
theorem Same.ifAsk {χ : Token → Prop} {e : Parse Bool} (he : Asks χ e) {f g f' g' : Parse β}
    (ht : Same (Reached start m t fun a => φ a ∧ χ a) f g Q) (hf : Same (Reached start m t fun a => φ a ∧ ¬χ a) f' g' Q) :
    Same (Reached start m t φ) (do if ← e then f else f') (do if ← e then g else g') Q := by
  refine .bind (he start m t φ) fun b => ?_
  cases b with
  | true => exact ht.weaken le_rfl le_rfl fun _ hφ => ⟨hφ.1, hφ.2.2 rfl⟩
  | false => exact hf.weaken le_rfl le_rfl fun _ hφ => ⟨hφ.1, fun h => Bool.false_ne_true (hφ.2.1 h)⟩

theorem endOrAccept_same {χ : Token → Prop} {f : Parse Bool} (h : Asks χ f) {separator : TokenKind}
    [separator.Bare] [separator.Proceeds] :
    Same (Reached start (m + 1) t φ) (f <||> accept separator) (f <||> accept separator) (Ended start m t φ χ separator) := by
  refine .orM (h start (m + 1) t φ) (fun c hc => .inl (hc.mono le_rfl le_rfl fun ha => ⟨ha.1, ha.2.2 rfl⟩)) ?_
  refine accept_same.conseq (fun _ hc => hc) fun b c hc => ?_
  cases b with
  | true => exact .inr hc
  | false => exact Reached.mono hc le_rfl le_rfl fun ha => ⟨ha.1.1, fun hχ => Bool.false_ne_true (ha.1.2.1 hχ), ha.2⟩

/-! ## Skipping -/

/-- The token ends a skip. -/
def Stops (stop : TokenSet) (a : Token) : Prop := stop.contains a.kind = true ∨ a.kind = .eof

theorem skipPass_same (stop : TokenSet) :
    Same (Reached start (m + 1) t φ) (skipPass stop ()) (skipPass stop ()) (Continues
      (fun _ => Reached start m (t * ⊤) ⊤) fun _ => Reached start (m + 1) t fun a => φ a ∧ Stops stop a) := by
  have hend : ∀ a : Token, (stop.contains a.kind || a.kind.sameKind .eof) = true ↔ Stops stop a := fun a => by
    rw [Bool.or_eq_true, TokenKind.Bare.sameKind_iff]
    rfl
  refine .current fun here hφ => .ite (fun hstop => ?_) fun hstop => ?_
  · exact .pure fun _ hc => hc.mono le_rfl le_rfl fun h => h ▸ ⟨hφ, (hend here).1 hstop⟩
  · refine .consume (fun a ha he => hstop ((hend here).2 (.inr (ha ▸ he)))) fun a _ => ?_
    exact .pure fun _ hc => hc.done (mul_le_mul_right le_top t)

/-- After a skip, tokens have been taken or nothing has happened. -/
def Skipped (start : Cursor) (m : Nat) (t : Tally) (φ : Token → Prop) (stop : TokenSet) (c : Cursor) : Prop :=
  Reached start m (t * ⊤) (Stops stop) c ∨ Reached start (m + 1) (t * ⊤) (fun a => φ a ∧ Stops stop a) c

theorem skipTo_same (stop : TokenSet) :
    Same (Reached start (m + 1) t φ) (skipTo stop) (skipTo stop) fun _ => Skipped start m t φ stop := by
  have hle : t * ⊤ * ⊤ ≤ t * ⊤ := by
    rw [mul_assoc]
    exact mul_le_mul_right le_top t
  let I : Nat → Unit → Cursor → Prop := fun k _ c =>
    c.kinds.length < k ∧ (Reached start m (t * ⊤) ⊤ c ∨ Reached start (m + 1) (t * ⊤) φ c)
  have hstart : ∀ c, Reached start (m + 1) t φ c → I (m + 1) () c := fun c hc =>
    ⟨hc.room, .inr (hc.mono le_rfl (le_mul_of_one_le_right' le_top) id)⟩
  refine .conseq (.loop (I := I) (fun _ _ _ h => h.1) (fun _ _ _ h => ⟨Nat.lt_succ_self _, h.2⟩) ?_ le_rfl ()) hstart
    fun _ _ hQ => hQ
  rintro k - - c ⟨hk, hc | hc⟩
  · obtain ⟨heq, hQ⟩ := skipPass_same stop c hc.tight
    refine ⟨heq, ?_⟩
    cases hr : (skipPass stop () c).1 with
    | yield _ =>
      rw [hr] at hQ
      have hQ : Reached start _ _ _ _ := hQ
      exact ⟨hQ.room.trans_le (Nat.le_of_lt_succ hk), .inl (hQ.mono hc.room.le hle id)⟩
    | done _ =>
      rw [hr] at hQ
      have hQ : Reached start _ _ _ _ := hQ
      exact .inl (hQ.mono hc.room le_rfl And.right)
  · obtain ⟨heq, hQ⟩ := skipPass_same stop c hc.tight
    refine ⟨heq, ?_⟩
    cases hr : (skipPass stop () c).1 with
    | yield _ =>
      rw [hr] at hQ
      have hQ : Reached start _ _ _ _ := hQ
      exact ⟨hQ.room.trans_le (Nat.le_of_lt_succ hk), .inl (hQ.mono (Nat.le_of_lt_succ hc.room) hle id)⟩
    | done _ =>
      rw [hr] at hQ
      have hQ : Reached start _ _ _ _ := hQ
      exact .inr (hQ.mono hc.room le_rfl id)

/-- Whatever is skipped, the skip ends at a token that ends it. -/
theorem skipTo_stops (stop : TokenSet) :
    Same (Reached start m t φ) (skipTo stop) (skipTo stop) fun _ => Reached start m (t * ⊤) (Stops stop) := by
  cases m with
  | zero => exact .absurd fun c hc => Nat.not_lt_zero _ hc.room
  | succ m =>
    refine (skipTo_same stop).conseq (fun _ hc => hc) fun _ _ hQ => ?_
    rcases hQ with hQ | hQ
    · exact hQ.mono (Nat.le_succ m) le_rfl id
    · exact hQ.mono le_rfl le_rfl And.right

theorem skipTo_reads (n : Nat) (stop : TokenSet) : Reads n (fun _ => ⊤) (skipTo stop) (skipTo stop) := fun _ _ _ _ =>
  (skipTo_stops stop).conseq (fun _ hc => hc) fun _ _ hQ => hQ.done le_rfl

/-- A skip that does not start at its end takes a token. -/
theorem skipTo_takes (n : Nat) (stop : TokenSet) :
    Takes n (fun a => ¬Stops stop a) (fun _ => ⊤) (skipTo stop) (skipTo stop) := fun _ _ _ _ =>
  (skipTo_same stop).conseq (fun _ hc => hc) fun _ _ hQ =>
    hQ.elim (fun h => h.done le_rfl) fun h => absurd h.face.2 h.face.1

end GoSyntax
