import GoSyntax.Proofs.Kinds.Runs
import GoSyntax.Proofs.Recovery.Unclosed

/-!
# Which tokens a run has taken

A run that reports nothing is taken apart: behind a step some of the tokens are left, which the next steps take. What stands in front of a
closing token is read alike whatever comes behind this token.
-/

namespace GoSyntax

open Parse Grammar

/-- In some run the parser takes these tokens in front of those and gives this result, without a report. -/
def Consumes {α : Type} (f : Parse α) (a : α) (word rest : List TokenKind) : Prop :=
  ∃ c : Cursor, c.At (word ++ rest) ∧ (f c).1 = a ∧ (f c).2.At rest

namespace Consumes

variable {α β : Type} {f : Parse α} {k : α → Parse β} {a : α} {b : β} {word rest : List TokenKind} {kind : TokenKind}

theorem of_yields {Q : α → Prop} (h : Yields f Q (word ++ rest) rest) {c : Cursor} (hc : c.At (word ++ rest)) :
    ∃ a, Q a ∧ Consumes f a word rest := ⟨_, (h c hc).1, c, hc, rfl, (h c hc).2⟩

/-- What every run gives and leaves is what this one gives and leaves. -/
theorem of_every {Q : α → Prop} {left : List TokenKind} (h : Consumes f a word rest) (hf : Yields f Q (word ++ rest) left) :
    Q a ∧ left = rest := by
  obtain ⟨c, hc, rfl, hend⟩ := h
  obtain ⟨hQ, hleft⟩ := hf c hc
  exact ⟨hQ, hleft.kinds.symm.trans hend.kinds⟩

theorem bind (h : Consumes (f >>= k) b word rest) (hf : GoesOnward f) (hk : ∀ a, GoesOnward (k a)) :
    ∃ a u v, word = u ++ v ∧ Consumes f a u (v ++ rest) ∧ Consumes (k a) b v rest := by
  obtain ⟨c, hc, hresult, hend⟩ := h
  obtain ⟨u, v, hinput, hmid, -⟩ := hf.exists_mid hk hc hend
  have hword : word = u ++ v := by
    rw [← List.append_assoc] at hinput
    exact List.append_cancel_right hinput
  refine ⟨_, u, v, hword, ⟨c, ?_, rfl, hmid⟩, ⟨_, hmid, hresult, hend⟩⟩
  rwa [← hinput]

theorem pure {a' : α} (h : Consumes (Pure.pure a') a word rest) : word = [] ∧ a = a' := by
  obtain ⟨c, hc, rfl, hend⟩ := h
  have hkinds : word ++ rest = [] ++ rest := hc.kinds.symm.trans hend.kinds
  exact ⟨List.append_cancel_right hkinds, rfl⟩

theorem of_map_some (h : Consumes (some <$> f) (some a) word rest) : Consumes f a word rest := by
  obtain ⟨c, hc, hresult, hend⟩ := h
  exact ⟨c, hc, Option.some.inj hresult, hend⟩

theorem current {k : Token → Parse β} (h : Consumes (Parse.current >>= k) b word rest) :
    ∃ loc, Consumes (k ⟨nextKind (word ++ rest), loc⟩) b word rest := by
  obtain ⟨c, hc, hresult, hend⟩ := h
  have hhere : (⟨nextKind (word ++ rest), c.here.loc⟩ : Token) = c.here := by rw [← hc.here]
  refine ⟨c.here.loc, (Parse.current c).2, hc.peek 0, ?_⟩
  rw [hhere]
  exact ⟨hresult, hend⟩

theorem consume {k : Token → Parse β} (h : Consumes (Parse.consume >>= k) b (kind :: word) rest) :
    ∃ loc, Consumes (k ⟨kind, loc⟩) b word rest := by
  obtain ⟨c, hc, hresult, hend⟩ := h
  have hhere : (⟨kind, c.here.loc⟩ : Token) = c.here := congrArg (fun kind : TokenKind => (⟨kind, c.here.loc⟩ : Token)) hc.here.symm
  refine ⟨c.here.loc, (Parse.consume c).2, hc.consume, ?_⟩
  rw [hhere]
  exact ⟨hresult, hend⟩

theorem not_reportHere {fault : String → Fault} {u : Unit} : ¬Consumes (reportHere fault) u word rest := by
  rintro ⟨c, -, -, hend⟩
  have hlog : (reportHere fault c).2.log = (Parse.current c).2.log.push ⟨fault c.here.kind.display, c.here.loc⟩ := rfl
  rw [hend.clean] at hlog
  exact Array.push_ne_empty hlog.symm

/-- A token of the kind that is asked for comes next, or another one. -/
theorem split_next (kind : TokenKind) [kind.Bare] [hproceeds : kind.Proceeds] (input : List TokenKind) :
    (∃ tail, input = kind :: tail) ∨ (nextKind input).sameKind kind = false := by
  cases input with
  | nil =>
    right
    refine Bool.eq_false_iff.2 fun h => ?_
    exact hproceeds.ne_eof ((TokenKind.Bare.sameKind_iff _).1 h).symm
  | cons first tail =>
    by_cases h : first = kind
    · exact .inl ⟨tail, by rw [h]⟩
    · exact .inr (Bool.eq_false_iff.2 fun hsame => h ((TokenKind.Bare.sameKind_iff _).1 hsame))

theorem accept [kind.Bare] [kind.Proceeds] {found : Bool} (h : Consumes (Parse.accept kind) found word rest) :
    found = true ∧ word = [kind] ∨ found = false ∧ word = [] ∧ (nextKind rest).sameKind kind = false := by
  rcases split_next kind (word ++ rest) with ⟨tail, htail⟩ | hother
  · left
    have hyields : Yields (Parse.accept kind) (· = true) (word ++ rest) tail := by
      rw [htail]
      exact .last (.accept ((TokenKind.Bare.sameKind_iff kind).2 rfl) (.ret rfl))
    obtain ⟨hfound, rfl⟩ := h.of_every hyields
    exact ⟨hfound, List.append_cancel_right htail⟩
  · right
    have hyields : Yields (Parse.accept kind) (· = false) (word ++ rest) (word ++ rest) := .last (.acceptNot hother (.ret rfl))
    obtain ⟨hfound, hrest⟩ := h.of_every hyields
    have hnone : word ++ rest = [] ++ rest := hrest
    obtain rfl : word = [] := List.append_cancel_right hnone
    exact ⟨hfound, rfl, hother⟩

theorem expect [kind.Bare] [kind.Proceeds] {loc : Location} (h : Consumes (Parse.expect kind) loc word rest) : word = [kind] := by
  rcases split_next kind (word ++ rest) with ⟨tail, htail⟩ | hother
  · have hyields : Yields (Parse.expect kind) (fun _ => True) (word ++ rest) tail := by
      rw [htail]
      exact .last (.expect ((TokenKind.Bare.sameKind_iff kind).2 rfl) fun _ => .ret trivial)
    obtain ⟨-, rfl⟩ := h.of_every hyields
    exact List.append_cancel_right htail
  · obtain ⟨c, hc, -, hend⟩ := h
    have hmissing : c.here.kind.sameKind kind = false := by rwa [hc.here]
    rw [Cursor.expect_missing hmissing] at hend
    exact absurd hend.clean Array.push_ne_empty

theorem name {n : Name} (h : Consumes Parse.name n word rest) : ∃ text, word = [.ident text] ∧ n.text = text := by
  obtain ⟨loc, hkind⟩ := h.current
  cases hnext : nextKind (word ++ rest) with
  | ident text =>
    obtain ⟨tail, htail⟩ : ∃ tail, word ++ rest = .ident text :: tail := by
      cases hinput : word ++ rest with
      | nil =>
        rw [hinput] at hnext
        nomatch hnext
      | cons first tail =>
        rw [hinput] at hnext
        obtain rfl : first = .ident text := hnext
        exact ⟨tail, rfl⟩
    have hyields : Yields Parse.name (·.text = text) (word ++ rest) tail := by
      rw [htail]
      exact .last (.name fun _ => .ret rfl)
    obtain ⟨htext, rfl⟩ := h.of_every hyields
    exact ⟨text, List.append_cancel_right htail, htext⟩
  | _ =>
    rw [hnext] at hkind
    obtain ⟨_, u, v, -, hreport, -⟩ := hkind.bind (.of_pursued (f := reportHere _) fun B _ => .reportHere _) fun _ => .pure _
    exact absurd hreport not_reportHere

/-- What stands in front of a closing token, in a run that goes on behind it, is read alike whatever comes behind that token. -/
theorem closed {γ : Type} [Movable α] {S : α → γ} (hS : ∀ shift a, S (moved shift a) = S a) (hf : Pursued f) (hk : ∀ a, GoesOnward (k a))
    {mark : Punctuation} (h : Consumes (f >>= fun a => Parse.expect mark >>= fun _ => k a) b word rest) :
    ∃ a u v, word = u ++ .punctuation mark :: v ∧ Consumes (k a) b v rest
      ∧ ∀ tail, Yields f (fun a' => S a' = S a) (u ++ .punctuation mark :: tail) (.punctuation mark :: tail) := by
  have hexpect : GoesOnward (Parse.expect mark) := .of_pursued fun B _ => .expect _
  obtain ⟨a, u, v, rfl, ⟨c, hc, ha, hend⟩, hrest⟩ := h.bind (.of_pursued hf) fun a => hexpect.bind fun _ => hk a
  obtain ⟨_, w, v, rfl, hclose, hlast⟩ := hrest.bind hexpect fun _ => hk a
  obtain rfl := hclose.expect
  refine ⟨a, u, v, by simp, hlast, fun tail => ?_⟩
  rw [← ha]
  exact hf.transplant hS (by rfl) hc hend

end Consumes

end GoSyntax
