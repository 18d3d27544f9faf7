import GoSyntax.Proofs.Same
import GoSyntax.Proofs.Kinds.Runs

/-!
# What a parser tells from given tokens

Where something is to be reported the results of a parser do not say it all. It tells what it reports: the kinds of all tokens to come are
known and the tokens themselves have nothing to report, but there may have been reports before. The rules are those of `Yields`, with the
reports of one step in front of those of the next. What is yielded without a report is told where nothing is reported.
-/

namespace GoSyntax

open Parse

/-- Where tokens of these kinds are to come, the parser gives a result and makes reports with `Q`, and leaves tokens of these kinds. -/
def Tells {α : Type} (f : Parse α) (Q : α → List Diagnostic → Prop) (input rest : List TokenKind) : Prop :=
  ∀ c : Cursor, c.feed.pending = [] → c.kinds = input →
    ∃ made, Q (f c).1 made ∧ (f c).2.feed.pending = [] ∧ (f c).2.kinds = rest ∧ (f c).2.log.toList = c.log.toList ++ made

theorem Cursor.numbered_at {c : Cursor} {input : List TokenKind} (hkinds : c.kinds = input) : c.numbered.At input :=
  ⟨pending_numberedFrom 0 _, rfl, c.kinds_numbered.trans hkinds⟩

/-- What is yielded is told, with nothing to report. -/
theorem Pursued.tells {α β : Type} [Movable α] {f : Parse α} (hf : Pursued f) {S : α → β} (hS : ∀ shift a, S (moved shift a) = S a) {b : β}
    {input rest : List TokenKind} (h : Yields f (fun a => S a = b) input rest) :
    Tells f (fun a made => S a = b ∧ made = []) input rest := by
  intro c hc hkinds
  have hnumbered := Cursor.numbered_at hkinds
  obtain ⟨hresult, hend⟩ := h c.numbered hnumbered
  obtain ⟨hsame, hleft, made, made', hlog, hlog', hfaults⟩ := hf.of_kinds hS hc hnumbered.silent c.kinds_numbered.symm
  have hmade' : made' = [] := by
    rw [hend.clean, hnumbered.clean] at hlog'
    exact hlog'.symm
  rw [hmade', List.map_nil, List.map_eq_nil_iff] at hfaults
  refine ⟨made, ⟨hsame.trans hresult, hfaults⟩, ?_, hleft.trans hend.kinds, hlog⟩
  exact hf.pending_eq_nil hnumbered.silent hc c.kinds_numbered hend.silent

namespace Tells

variable {α β : Type} {f : Parse α} {P Q : α → List Diagnostic → Prop} {R : β → List Diagnostic → Prop}
  {input mid rest : List TokenKind} {kind : TokenKind}

/-! ## Steps -/

theorem ret {a : α} (h : Q a []) : Tells (Pure.pure a) Q rest rest := fun _ hc hkinds => ⟨[], h, hc, hkinds, (List.append_nil _).symm⟩

theorem bind {k : α → Parse β} (h : Tells f P input mid) (hk : ∀ a made, P a made → Tells (k a) (fun b more => R b (made ++ more)) mid rest) :
    Tells (f >>= k) R input rest := by
  intro c hc hkinds
  obtain ⟨made, hP, hmid, hleft, hlog⟩ := h c hc hkinds
  obtain ⟨more, hR, hend, hrest, hlog'⟩ := hk _ made hP _ hmid hleft
  refine ⟨made ++ more, hR, hend, hrest, ?_⟩
  rw [← List.append_assoc, ← hlog]
  exact hlog'

theorem map {r : α → β} (h : Tells f (fun a made => R (r a) made) input rest) : Tells (r <$> f) R input rest := h

theorem conseq (h : Tells f P input rest) (hPQ : ∀ a made, P a made → Q a made) : Tells f Q input rest := by
  intro c hc hkinds
  obtain ⟨made, hP, hend⟩ := h c hc hkinds
  exact ⟨made, hPQ _ _ hP, hend⟩

theorem current {k : Token → Parse β} (h : ∀ loc, Tells (k ⟨nextKind input, loc⟩) R input rest) :
    Tells (Parse.current >>= k) R input rest := by
  intro c hc hkinds
  have hkind : c.here.kind = nextKind input := by
    have hpeek := Cursor.kind_peek 0 c
    rw [hkinds] at hpeek
    cases input <;> exact hpeek
  have hhere : (⟨nextKind input, c.here.loc⟩ : Token) = c.here := by rw [← hkind]
  have hk := h c.here.loc c hc hkinds
  rw [hhere] at hk
  have hrun : (Parse.current >>= k) c = k c.here c := congrArg (k c.here) (Cursor.Onward.peek hc 0)
  rwa [hrun]

theorem consume {k : Token → Parse β} (h : ∀ loc, Tells (k ⟨kind, loc⟩) R input rest) :
    Tells (Parse.consume >>= k) R (kind :: input) rest := by
  intro c hc hkinds
  have hkind : c.here.kind = kind := by
    have hpeek := Cursor.kind_peek 0 c
    rwa [hkinds] at hpeek
  have hhere : (⟨kind, c.here.loc⟩ : Token) = c.here := by rw [← hkind]
  have honward := Cursor.Onward.consume hc
  have hlog : (Parse.consume c).2.log = c.log := by
    change c.log ++ (c.feed.look 1).1 = c.log
    rw [c.feed.look_of_pending hc 1]
    exact Array.append_empty
  have hk := h c.here.loc _ (honward.silent hc) (by rw [Cursor.kinds_consume, hkinds]; rfl)
  rw [hhere, hlog] at hk
  exact hk

theorem isAt {k : Bool → Parse β} (kind : TokenKind) (h : Tells (k ((nextKind input).sameKind kind)) R input rest) :
    Tells (Parse.isAt kind >>= k) R input rest := by
  rw [Parse.isAt, bind_assoc]
  exact .current fun _ => h

/-- The next token is of the kind that is asked for. -/
theorem ifAt {g g' : Parse β} (h : (nextKind input).sameKind kind = true) (hg : Tells g R input rest) :
    Tells (Parse.isAt kind >>= fun b => if b = true then g else g') R input rest :=
  .isAt kind (by rw [h, if_pos rfl]; exact hg)

/-- The next token is of another kind. -/
theorem ifNotAt {g g' : Parse β} (h : (nextKind input).sameKind kind = false) (hg : Tells g' R input rest) :
    Tells (Parse.isAt kind >>= fun b => if b = true then g else g') R input rest :=
  .isAt kind (by rw [h, if_neg Bool.false_ne_true]; exact hg)

theorem accept {k : Bool → Parse β} {kind' : TokenKind} (h : kind'.sameKind kind = true) (hk : Tells (k true) R input rest) :
    Tells (Parse.accept kind >>= k) R (kind' :: input) rest := by
  rw [Parse.accept, bind_assoc]
  refine .isAt kind ?_
  rw [h, if_pos rfl, bind_assoc]
  exact .consume fun _ => hk

theorem ifAccept {g g' : Parse β} {kind' : TokenKind} (h : kind'.sameKind kind = true) (hg : Tells g R input rest) :
    Tells (Parse.accept kind >>= fun b => if b = true then g else g') R (kind' :: input) rest :=
  .accept h (by rw [if_pos rfl]; exact hg)

theorem ifNotAccept {g g' : Parse β} (h : (nextKind input).sameKind kind = false) (hg : Tells g' R input rest) :
    Tells (Parse.accept kind >>= fun b => if b = true then g else g') R input rest := by
  rw [Parse.accept, bind_assoc]
  refine .isAt kind ?_
  rw [h, if_neg Bool.false_ne_true]
  exact hg

theorem expect {k : Location → Parse β} {kind' : TokenKind} (h : kind'.sameKind kind = true) (hk : ∀ loc, Tells (k loc) R input rest) :
    Tells (Parse.expect kind >>= k) R (kind' :: input) rest := by
  rw [Parse.expect, bind_assoc]
  refine .current fun loc => ?_
  rw [bind_assoc]
  refine .accept h ?_
  rw [if_pos rfl]
  exact hk loc

theorem report {k : Unit → Parse β} {fault : Fault} {loc : Location}
    (hk : Tells (k ()) (fun b more => R b (⟨fault, loc⟩ :: more)) rest mid) : Tells (Parse.report fault loc >>= k) R rest mid := by
  intro c hc hkinds
  obtain ⟨more, hR, hend, hleft, hlog⟩ := hk { c with log := c.log.push ⟨fault, loc⟩ } hc hkinds
  refine ⟨⟨fault, loc⟩ :: more, hR, hend, hleft, hlog.trans ?_⟩
  rw [Array.toList_push, List.append_assoc]
  rfl

theorem reportUnless {k : Unit → Parse β} {ok : Bool} {fault : Fault} {loc : Location}
    (hk : Tells (k ()) (fun b more => R b ((if ok = true then [] else [⟨fault, loc⟩]) ++ more)) rest mid) :
    Tells (Parse.reportUnless ok fault loc >>= k) R rest mid := by
  cases ok with
  | true => exact hk
  | false => exact .report hk

/-- A parser that is the last one. -/
theorem last (h : Tells (f >>= Pure.pure) Q input rest) : Tells f Q input rest := by
  rwa [bind_pure] at h

/-! ## Loops -/

variable {pass : Array α → Parse (ForInStep (Array α))} {S : α → β → Prop} {word : β → List TokenKind} {told : α → List Diagnostic}
  {close : List TokenKind}

/-- Items that are read from the words of given ones are added to what has been built, and each is reported as it must be. -/
def Added (S : α → β → Prop) (told : α → List Diagnostic) (before : Array α) (xs : List β) (after : Array α) (made : List Diagnostic) :
    Prop :=
  ∃ new, after.toList = before.toList ++ new ∧ List.Forall₂ S new xs ∧ made = new.flatMap told

theorem Added.cons {before after : Array α} {a : α} {x : β} {xs : List β} {made : List Diagnostic} (ha : S a x)
    (h : Added S told (before.push a) xs after made) : Added S told before (x :: xs) after (told a ++ made) := by
  obtain ⟨new, hafter, hnew, rfl⟩ := h
  exact ⟨a :: new, by rw [hafter, Array.toList_push, List.append_assoc]; rfl, .cons ha hnew, rfl⟩

theorem Added.nil (before : Array α) : Added S told before [] before [] := ⟨[], (List.append_nil _).symm, .nil, rfl⟩

theorem loopDone (hends : Ends pass) {acc : Array α} {Q : Array α → List Diagnostic → Prop}
    (h : Tells (pass acc) (fun s made => ∃ acc', s = .done acc' ∧ Q acc' made) input rest) : Tells (loop acc pass) Q input rest := by
  rw [hends.unrolls]
  refine .bind h ?_
  rintro _ made ⟨acc', rfl, hQ⟩
  exact .ret (by rwa [List.append_nil])

/-- A pass reads an item and goes on. -/
theorem loopCons (hends : Ends pass) {acc : Array α} {x : β} {xs : List β}
    (h : Tells (pass acc) (fun s made => ∃ a, s = .yield (acc.push a) ∧ S a x ∧ made = told a) input mid)
    (hgo : ∀ a, Tells (loop (acc.push a) pass) (Added S told (acc.push a) xs) mid rest) :
    Tells (loop acc pass) (Added S told acc (x :: xs)) input rest := by
  rw [hends.unrolls]
  refine .bind h ?_
  rintro _ _ ⟨a, rfl, ha, rfl⟩
  exact (hgo a).conseq fun _ _ => Added.cons ha

/-- Each pass reads the words of an item and goes on, until a last pass finds none. -/
theorem loopItems (hends : Ends pass) {F : TokenKind → Prop} (hclose : F (nextKind close))
    (hend : ∀ acc, Tells (pass acc) (fun s made => s = .done acc ∧ made = []) close rest) (xs : List β)
    (hstart : ∀ x ∈ xs, ∀ tail, F (nextKind (word x ++ tail)))
    (hitem : ∀ x ∈ xs, ∀ acc tail, F (nextKind tail) →
      Tells (pass acc) (fun s made => ∃ a, s = .yield (acc.push a) ∧ S a x ∧ made = told a) (word x ++ tail) tail)
    (acc : Array α) : Tells (loop acc pass) (Added S told acc xs) (xs.flatMap word ++ close) rest := by
  induction xs generalizing acc with
  | nil =>
    refine .loopDone hends ((hend acc).conseq ?_)
    rintro _ _ ⟨rfl, rfl⟩
    exact ⟨acc, rfl, .nil acc⟩
  | cons x xs ih =>
    rw [List.flatMap_cons, List.append_assoc]
    have hnext : F (nextKind (xs.flatMap word ++ close)) := by
      cases xs with
      | nil => exact hclose
      | cons y ys =>
        rw [List.flatMap_cons, List.append_assoc]
        exact hstart y (by simp) _
    refine .loopCons hends (hitem x (by simp) acc _ hnext) fun a => ?_
    exact ih (fun y hy => hstart y (List.mem_cons_of_mem _ hy)) (fun y hy => hitem y (List.mem_cons_of_mem _ hy)) _

/-- Items between commas where the pass that reads the last one ends the loop. -/
theorem loopJoined (hends : Ends pass) {F : TokenKind → Prop} (xs : List β) (hne : xs ≠ [])
    (hstart : ∀ x ∈ xs, ∀ tail, F (nextKind (word x ++ tail)))
    (hmore : ∀ x ∈ xs, ∀ acc tail, F (nextKind tail) →
      Tells (pass acc) (fun s made => ∃ a, s = .yield (acc.push a) ∧ S a x ∧ made = told a) (word x ++ .punctuation .comma :: tail) tail)
    (hlast : ∀ x, xs.getLast? = some x → ∀ acc,
      Tells (pass acc) (fun s made => ∃ a, s = .done (acc.push a) ∧ S a x ∧ made = told a) (word x ++ close) rest)
    (acc : Array α) : Tells (loop acc pass) (Added S told acc xs) (commas (xs.map word) ++ close) rest := by
  induction xs generalizing acc with
  | nil => exact absurd rfl hne
  | cons x xs ih =>
    cases xs with
    | nil =>
      refine .loopDone hends ((hlast x rfl acc).conseq ?_)
      rintro _ _ ⟨a, rfl, ha, rfl⟩
      refine ⟨_, rfl, ?_⟩
      rw [← List.append_nil (told a)]
      exact Added.cons ha (.nil _)
    | cons y ys =>
      have hnext : F (nextKind (commas ((y :: ys).map word) ++ close)) := by
        rw [List.map_cons, commas_cons, List.append_assoc]
        exact hstart y (by simp) _
      rw [List.map_cons, List.map_cons, commas_cons_cons, List.append_assoc, List.cons_append]
      refine .loopCons hends (hmore x (by simp) acc _ hnext) fun a => ?_
      refine ih (List.cons_ne_nil y ys) (fun z hz => hstart z (List.mem_cons_of_mem x hz))
        (fun z hz => hmore z (List.mem_cons_of_mem x hz)) (fun z hz => hlast z ?_) _
      rwa [List.getLast?_cons_cons]

end Tells

end GoSyntax
