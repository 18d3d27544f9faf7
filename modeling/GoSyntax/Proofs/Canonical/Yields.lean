import GoSyntax.Proofs.Canonical.Shapes
import GoSyntax.Proofs.Canonical.Words
import GoSyntax.Proofs.Unbounded

/-!
# What a parser yields from given tokens

A parser is run where the kinds of all tokens to come are known, nothing is left to report and nothing has been reported. It yields a
result if from there it gives one with a property, takes so many tokens that given ones are left, and reports nothing. Each step has its
rule, which leaves what comes after the step to be shown, and so have the loops: what is read item by item is a list of such items.
-/

namespace GoSyntax

open Parse

/-- Tokens of these kinds are left; nothing is due and nothing has been reported. -/
structure Cursor.At (input : List TokenKind) (c : Cursor) : Prop where
  silent : c.feed.pending = []
  clean : c.log = #[]
  kinds : c.kinds = input

namespace Cursor

theorem kind_peek (k : Nat) (c : Cursor) : (c.feed.peek k).kind = c.kinds[k]?.getD .eof := by
  have hkinds : c.kinds[k]? = c.feed.items[k]?.map fun n => n.value.kind := by
    rw [kinds, tokens, List.map_map, List.getElem?_map]
    rfl
  rw [hkinds, Feed.peek]
  cases c.feed.items[k]? with
  | none => exact c.scanned.1
  | some n => rfl

variable {c : Cursor} {input : List TokenKind}

theorem At.here (h : c.At input) : c.here.kind = nextKind input := by
  have hkind := kind_peek 0 c
  rw [h.kinds] at hkind
  cases input <;> exact hkind

theorem At.look_eq_nil (h : c.At input) (k : Nat) : (c.feed.look k).1 = [] ∧ (c.feed.look k).2.pending = [] :=
  List.append_eq_nil_iff.1 ((Feed.look_append_pending c.feed k).trans h.silent)

theorem At.peek (h : c.At input) (k : Nat) : (Parse.peek k c).2.At input where
  silent := (h.look_eq_nil (k + 1)).2
  clean := by
    change c.log ++ (c.feed.look (k + 1)).1 = #[]
    rw [h.clean, (h.look_eq_nil (k + 1)).1]
    rfl
  kinds := (kinds_peek k c).trans h.kinds

theorem At.consume {kind : TokenKind} (h : c.At (kind :: input)) : (Parse.consume c).2.At input where
  silent := by
    have hsilent := (h.look_eq_nil 1).2
    change (c.feed.look 1).2.tail.pending = []
    cases hitems : (c.feed.look 1).2.items with
    | nil =>
      rw [Feed.tail, hitems]
      exact hsilent
    | cons n ns =>
      rw [Feed.pending, hitems, List.flatMap_cons, List.append_assoc] at hsilent
      rw [Feed.tail, hitems]
      exact (List.append_eq_nil_iff.1 hsilent).2
  clean := by
    change c.log ++ (c.feed.look 1).1 = #[]
    rw [h.clean, (h.look_eq_nil 1).1]
    rfl
  kinds := by
    rw [kinds_consume, h.kinds]
    rfl

end Cursor

/-- Where tokens of these kinds are to come, the parser gives a result with `Q` and leaves tokens of these kinds, without a report. -/
def Yields {α : Type} (f : Parse α) (Q : α → Prop) (input rest : List TokenKind) : Prop :=
  ∀ c : Cursor, c.At input → Q (f c).1 ∧ (f c).2.At rest

namespace Yields

variable {α β : Type} {f : Parse α} {P Q : α → Prop} {R : β → Prop} {input mid rest : List TokenKind} {kind : TokenKind}

/-! ## Steps -/

theorem ret {a : α} (h : Q a) : Yields (Pure.pure a) Q rest rest := fun _ hc => ⟨h, hc⟩

theorem bind {k : α → Parse β} (h : Yields f P input mid) (hk : ∀ a, P a → Yields (k a) R mid rest) :
    Yields (f >>= k) R input rest := by
  intro c hc
  obtain ⟨hP, hmid⟩ := h c hc
  exact hk _ hP _ hmid

theorem map {r : α → β} (h : Yields f (fun a => R (r a)) input rest) : Yields (r <$> f) R input rest := h

theorem conseq (h : Yields f P input rest) (hPQ : ∀ a, P a → Q a) : Yields f Q input rest := fun c hc =>
  ⟨hPQ _ (h c hc).1, (h c hc).2⟩

theorem current {k : Token → Parse β} (h : ∀ loc, Yields (k ⟨nextKind input, loc⟩) R input rest) :
    Yields (Parse.current >>= k) R input rest := by
  intro c hc
  have hhere : (⟨nextKind input, c.here.loc⟩ : Token) = c.here := by rw [← hc.here]
  have hk := h c.here.loc _ (hc.peek 0)
  rw [hhere] at hk
  exact hk

/-- The kind of the second token can be looked at without taking the first. -/
theorem peekSecond {k : Token → Parse β} (h : ∀ loc, Yields (k ⟨nextKind input, loc⟩) R (kind :: input) rest) :
    Yields (Parse.peek 1 >>= k) R (kind :: input) rest := by
  intro c hc
  have hkind : (c.feed.peek 1).kind = nextKind input := by
    rw [Cursor.kind_peek, hc.kinds]
    cases input <;> rfl
  have hsecond : (⟨nextKind input, (c.feed.peek 1).loc⟩ : Token) = c.feed.peek 1 := by rw [← hkind]
  have hk := h (c.feed.peek 1).loc _ (hc.peek 1)
  rw [hsecond] at hk
  exact hk

theorem consume {k : Token → Parse β} (h : ∀ loc, Yields (k ⟨kind, loc⟩) R input rest) :
    Yields (Parse.consume >>= k) R (kind :: input) rest := by
  intro c hc
  have hhere : (⟨kind, c.here.loc⟩ : Token) = c.here := congrArg (fun kind : TokenKind => (⟨kind, c.here.loc⟩ : Token)) hc.here.symm
  have hk := h c.here.loc _ hc.consume
  rw [hhere] at hk
  exact hk

theorem reports {k : Nat → Parse β} (h : ∀ n, Yields (k n) R input rest) : Yields (Parse.reports >>= k) R input rest :=
  fun c hc => h c.log.size c hc

theorem isAt {k : Bool → Parse β} (kind : TokenKind) (h : Yields (k ((nextKind input).sameKind kind)) R input rest) :
    Yields (Parse.isAt kind >>= k) R input rest := by
  rw [Parse.isAt, bind_assoc]
  exact .current fun _ => h

theorem yes {φ : Prop} [Decidable φ] {g : Parse α} (h : φ) (hf : Yields f Q input rest) :
    Yields (if φ then f else g) Q input rest := by
  rwa [if_pos h]

theorem no {φ : Prop} [Decidable φ] {g : Parse α} (h : ¬φ) (hg : Yields g Q input rest) :
    Yields (if φ then f else g) Q input rest := by
  rwa [if_neg h]

/-- The next token is of the kind that is asked for. -/
theorem ifAt {g g' : Parse β} (h : (nextKind input).sameKind kind = true) (hg : Yields g R input rest) :
    Yields (Parse.isAt kind >>= fun b => if b = true then g else g') R input rest :=
  .isAt kind (by rw [h, if_pos rfl]; exact hg)

/-- The next token is of another kind. -/
theorem ifNotAt {g g' : Parse β} (h : (nextKind input).sameKind kind = false) (hg : Yields g' R input rest) :
    Yields (Parse.isAt kind >>= fun b => if b = true then g else g') R input rest :=
  .isAt kind (by rw [h, if_neg Bool.false_ne_true]; exact hg)

theorem accept {k : Bool → Parse β} {kind' : TokenKind} (h : kind'.sameKind kind = true) (hk : Yields (k true) R input rest) :
    Yields (Parse.accept kind >>= k) R (kind' :: input) rest := by
  rw [Parse.accept, bind_assoc]
  refine .isAt kind ?_
  rw [h, if_pos rfl, bind_assoc]
  exact .consume fun _ => hk

theorem acceptNot {k : Bool → Parse β} (h : (nextKind input).sameKind kind = false) (hk : Yields (k false) R input rest) :
    Yields (Parse.accept kind >>= k) R input rest := by
  rw [Parse.accept, bind_assoc]
  refine .isAt kind ?_
  rw [h, if_neg Bool.false_ne_true]
  exact hk

theorem ifAccept {g g' : Parse β} {kind' : TokenKind} (h : kind'.sameKind kind = true) (hg : Yields g R input rest) :
    Yields (Parse.accept kind >>= fun b => if b = true then g else g') R (kind' :: input) rest :=
  .accept h (by rw [if_pos rfl]; exact hg)

theorem ifNotAccept {g g' : Parse β} (h : (nextKind input).sameKind kind = false) (hg : Yields g' R input rest) :
    Yields (Parse.accept kind >>= fun b => if b = true then g else g') R input rest :=
  .acceptNot h (by rw [if_neg Bool.false_ne_true]; exact hg)

/-- Where all is well nothing is reported. -/
theorem reportUnless {k : Unit → Parse β} {ok : Bool} {fault : Fault} {loc : Location} (h : ok = true)
    (hk : Yields (k ()) R input rest) : Yields (Parse.reportUnless ok fault loc >>= k) R input rest := by
  subst h
  exact hk

/-- A token that is there is not missing. -/
theorem expect {k : Location → Parse β} {kind' : TokenKind} (h : kind'.sameKind kind = true)
    (hk : ∀ loc, Yields (k loc) R input rest) : Yields (Parse.expect kind >>= k) R (kind' :: input) rest := by
  rw [Parse.expect, bind_assoc]
  refine .current fun loc => ?_
  rw [bind_assoc]
  refine .accept h ?_
  rw [if_pos rfl]
  exact hk loc

/-- The second of two questions is asked only if the answer to the first is no. -/
theorem orM {f g : Parse Bool} {k : Bool → Parse β}
    (h : Yields (f >>= fun b => if b = true then k true else g >>= k) R input rest) : Yields ((f <||> g) >>= k) R input rest := by
  have heq : ((f <||> g) >>= k) = f >>= fun b => if b = true then k true else g >>= k := by
    refine (bind_assoc f _ k).trans (congrArg (f >>= ·) (funext fun b => ?_))
    cases b <;> rfl
  rwa [heq]

/-- The second of two questions is asked only if the answer to the first is yes. -/
theorem andM {f g : Parse Bool} {k : Bool → Parse β}
    (h : Yields (f >>= fun b => if b = true then g >>= k else k false) R input rest) : Yields ((f <&&> g) >>= k) R input rest := by
  have heq : ((f <&&> g) >>= k) = f >>= fun b => if b = true then g >>= k else k false := by
    refine (bind_assoc f _ k).trans (congrArg (f >>= ·) (funext fun b => ?_))
    cases b <;> rfl
  rwa [heq]

/-- A parser that is the last one. -/
theorem last (h : Yields (f >>= Pure.pure) Q input rest) : Yields f Q input rest := by
  rwa [bind_pure] at h

/-! ## Names and literals -/

theorem name {k : Name → Parse β} {text : String} (h : ∀ loc, Yields (k ⟨loc, text⟩) R input rest) :
    Yields (Parse.name >>= k) R (.ident text :: input) rest := by
  rw [Parse.name, bind_assoc]
  refine .current fun loc => ?_
  change Yields ((Parse.consume >>= fun _ => Pure.pure ⟨loc, text⟩) >>= k) R _ _
  rw [bind_assoc]
  exact .consume fun _ => h loc

/-- A string literal that comes next. -/
theorem stringLiteral {value : Constant} (hvalue : (TokenKind.literal value).isStringLiteral = true) :
    Yields Parse.stringLiteral? (fun l => ∃ loc, l = some ⟨loc, value⟩) (.literal value :: rest) rest := by
  refine .current fun _ => ?_
  rw [if_pos hvalue]
  refine .current fun loc => ?_
  exact .consume fun _ => .ret ⟨loc, rfl⟩

theorem noStringLiteral (h : (nextKind rest).isStringLiteral = false) : Yields Parse.stringLiteral? (· = none) rest rest := by
  refine .current fun _ => ?_
  rw [if_neg (by rw [h]; exact Bool.false_ne_true)]
  exact .ret rfl

/-! ## Loops -/

section loops

variable {pass : α → Parse (ForInStep α)}

theorem loopYield (hends : Ends pass) {a : α} (h : Yields (pass a) (fun s => ∃ a', s = .yield a' ∧ P a') input mid)
    (hgo : ∀ a', P a' → Yields (loop a' pass) Q mid rest) : Yields (loop a pass) Q input rest := by
  rw [hends.unrolls]
  refine .bind h ?_
  rintro _ ⟨a', rfl, ha⟩
  exact hgo a' ha

theorem loopDone (hends : Ends pass) {a : α} (h : Yields (pass a) (fun s => ∃ a', s = .done a' ∧ Q a') input rest) :
    Yields (loop a pass) Q input rest := by
  rw [hends.unrolls]
  refine .bind h ?_
  rintro _ ⟨a', rfl, ha⟩
  exact .ret ha

end loops

section lists

variable {pass : Array α → Parse (ForInStep (Array α))} {S : α → β → Prop} {word : β → List TokenKind}

/-- What has been built has grown by items that are read from the words of given ones. -/
def Grown (S : α → β → Prop) (before : Array α) (xs : List β) (after : Array α) : Prop :=
  ∃ new, after.toList = before.toList ++ new ∧ List.Forall₂ S new xs

theorem Grown.nil (before : Array α) : Grown S before [] before := ⟨[], (List.append_nil _).symm, .nil⟩

theorem Grown.cons {before after : Array α} {a : α} {x : β} {xs : List β} (ha : S a x) (h : Grown S (before.push a) xs after) :
    Grown S before (x :: xs) after := by
  obtain ⟨new, heq, hnew⟩ := h
  exact ⟨a :: new, by rw [heq, Array.toList_push, List.append_assoc]; rfl, .cons ha hnew⟩

theorem Grown.forall₂ {xs : List β} {after : Array α} (h : Grown S #[] xs after) : List.Forall₂ S after.toList xs := by
  obtain ⟨new, heq, hnew⟩ := h
  rwa [heq]

/-- Each pass reads the words of an item and goes on, until a last pass finds none; the words may depend on what can follow them. -/
theorem loopItems (hends : Ends pass) {F : TokenKind → Prop} (hrest : F (nextKind rest))
    (hend : ∀ acc, Yields (pass acc) (· = .done acc) rest rest) (xs : List β)
    (hstart : ∀ x ∈ xs, ∀ tail, F (nextKind (word x ++ tail)))
    (hitem : ∀ x ∈ xs, ∀ acc tail, F (nextKind tail) →
      Yields (pass acc) (fun s => ∃ acc', s = .yield acc' ∧ ∃ a, acc' = acc.push a ∧ S a x) (word x ++ tail) tail)
    (acc : Array α) : Yields (loop acc pass) (Grown S acc xs) (xs.flatMap word ++ rest) rest := by
  induction xs generalizing acc with
  | nil =>
    refine .loopDone hends ((hend acc).conseq ?_)
    rintro _ rfl
    exact ⟨acc, rfl, .nil acc⟩
  | cons x xs ih =>
    rw [List.flatMap_cons, List.append_assoc]
    have hnext : F (nextKind (xs.flatMap word ++ rest)) := by
      cases xs with
      | nil => exact hrest
      | cons y ys =>
        rw [List.flatMap_cons, List.append_assoc]
        exact hstart y (by simp) _
    refine .loopYield hends (hitem x (by simp) acc _ hnext) ?_
    rintro _ ⟨a, rfl, ha⟩
    exact (ih (fun y hy => hstart y (List.mem_cons_of_mem _ hy)) (fun y hy => hitem y (List.mem_cons_of_mem _ hy)) _).conseq
      fun _ => Grown.cons ha

/-- Items behind commas, until no comma comes next. Each but the last is followed by a comma. -/
theorem loopSeparated {item : Parse α} (hends : Ends (separatedPass item))
    (hrest : (nextKind rest).sameKind Punctuation.comma = false) (xs : List β)
    (hitem : ∀ x ∈ xs, ∀ tail, nextKind tail = .punctuation .comma ∨ tail = rest ∧ xs.getLast? = some x →
      Yields item (S · x) (word x ++ tail) tail)
    (acc : Array α) : Yields (loop acc (separatedPass item)) (Grown S acc xs)
      (xs.flatMap (.punctuation .comma :: word ·) ++ rest) rest := by
  induction xs generalizing acc with
  | nil => exact .loopDone hends (.ifNotAccept hrest (.ret ⟨acc, rfl, .nil acc⟩))
  | cons x xs ih =>
    have hfollow : nextKind (xs.flatMap (.punctuation .comma :: word ·) ++ rest) = .punctuation .comma
        ∨ xs.flatMap (.punctuation .comma :: word ·) ++ rest = rest ∧ (x :: xs).getLast? = some x := by
      cases xs with
      | nil => exact .inr ⟨rfl, rfl⟩
      | cons y ys => exact .inl rfl
    have hpass : Yields (separatedPass item acc) (fun s => ∃ acc', s = .yield acc' ∧ ∃ a, acc' = acc.push a ∧ S a x)
        (.punctuation .comma :: (word x ++ (xs.flatMap (.punctuation .comma :: word ·) ++ rest)))
        (xs.flatMap (.punctuation .comma :: word ·) ++ rest) :=
      .ifAccept rfl (.bind (hitem x (by simp) _ hfollow) fun a ha => .ret ⟨_, rfl, a, rfl, ha⟩)
    rw [List.flatMap_cons, List.cons_append, List.cons_append, List.append_assoc]
    refine .loopYield hends hpass ?_
    rintro _ ⟨a, rfl, ha⟩
    refine (ih (fun y hy tail htail => hitem y (List.mem_cons_of_mem x hy) tail (htail.imp_right ?_)) _).conseq fun _ => Grown.cons ha
    rintro ⟨rfl, hlast⟩
    refine ⟨rfl, ?_⟩
    cases xs with
    | nil => nomatch hlast
    | cons z zs => rwa [List.getLast?_cons_cons]

/-- Items between commas. -/
theorem separated {item : Parse α} (hends : Ends (separatedPass item))
    (hrest : (nextKind rest).sameKind Punctuation.comma = false) {xs : List β} (hne : xs ≠ [])
    (hitem : ∀ x ∈ xs, ∀ tail, nextKind tail = .punctuation .comma ∨ tail = rest ∧ xs.getLast? = some x →
      Yields item (S · x) (word x ++ tail) tail) :
    Yields (Parse.separated item) (fun r => List.Forall₂ S (r.1 :: r.2) xs) (commas (xs.map word) ++ rest) rest := by
  cases xs with
  | nil => exact absurd rfl hne
  | cons x xs =>
    have hfollow : nextKind (xs.flatMap (.punctuation .comma :: word ·) ++ rest) = .punctuation .comma
        ∨ xs.flatMap (.punctuation .comma :: word ·) ++ rest = rest ∧ (x :: xs).getLast? = some x := by
      cases xs with
      | nil => exact .inr ⟨rfl, rfl⟩
      | cons y ys => exact .inl rfl
    rw [List.map_cons, commas_cons, List.flatMap_map, List.append_assoc]
    refine .bind (hitem x (by simp) _ hfollow) fun a ha => ?_
    have hloop := loopSeparated hends hrest xs (S := S) (fun y hy tail htail => hitem y (List.mem_cons_of_mem x hy) tail
      (htail.imp_right ?_)) #[]
    · refine .bind hloop fun as has => .ret (.cons ha has.forall₂)
    · rintro ⟨rfl, hlast⟩
      refine ⟨rfl, ?_⟩
      cases xs with
      | nil => nomatch hlast
      | cons z zs => rwa [List.getLast?_cons_cons]

/-- Items between commas where the pass that reads the last one ends the loop. -/
theorem loopJoined {pass : Array α → Parse (ForInStep (Array α))} (hends : Ends pass) {F : TokenKind → Prop} (xs : List β)
    (hne : xs ≠ []) (hstart : ∀ x ∈ xs, ∀ tail, F (nextKind (word x ++ tail)))
    (hmore : ∀ x ∈ xs, ∀ acc tail, F (nextKind tail) →
      Yields (pass acc) (fun s => ∃ acc', s = .yield acc' ∧ ∃ a, acc' = acc.push a ∧ S a x)
        (word x ++ .punctuation .comma :: tail) tail)
    (hlast : ∀ x ∈ xs, ∀ acc,
      Yields (pass acc) (fun s => ∃ acc', s = .done acc' ∧ ∃ a, acc' = acc.push a ∧ S a x) (word x ++ rest) rest)
    (acc : Array α) : Yields (loop acc pass) (Grown S acc xs) (commas (xs.map word) ++ rest) rest := by
  induction xs generalizing acc with
  | nil => exact absurd rfl hne
  | cons x xs ih =>
    cases xs with
    | nil =>
      refine .loopDone hends ((hlast x (by simp) acc).conseq ?_)
      rintro _ ⟨_, rfl, a, rfl, ha⟩
      exact ⟨_, rfl, Grown.cons ha (.nil _)⟩
    | cons y ys =>
      have hnext : F (nextKind (commas ((y :: ys).map word) ++ rest)) := by
        rw [List.map_cons, commas_cons, List.append_assoc]
        exact hstart y (by simp) _
      rw [List.map_cons, List.map_cons, commas_cons_cons, List.append_assoc, List.cons_append]
      refine .loopYield hends (hmore x (by simp) acc _ hnext) ?_
      rintro _ ⟨a, rfl, ha⟩
      exact (ih (List.cons_ne_nil y ys) (fun z hz => hstart z (List.mem_cons_of_mem x hz))
        (fun z hz => hmore z (List.mem_cons_of_mem x hz)) (fun z hz => hlast z (List.mem_cons_of_mem x hz)) _).conseq
        fun _ => Grown.cons ha

/-- Members with commas between them, up to the bracket that closes them. -/
theorem members {close : TokenKind} {member : Parse α} (hends : Ends (memberPass close member))
    (hclose : (nextKind rest).sameKind close = true) (hcomma : (nextKind rest).sameKind Punctuation.comma = false) {xs : List β}
    (hstart : ∀ x ∈ xs, ∀ tail,
      (nextKind (word x ++ tail)).sameKind close = false ∧ (nextKind (word x ++ tail)).sameKind .eof = false)
    (hitem : ∀ x ∈ xs, ∀ tail, nextKind tail = .punctuation .comma ∨ tail = rest → Yields member (S · x) (word x ++ tail) tail) :
    Yields (Parse.members close member) (List.Forall₂ S · xs) (commas (xs.map word) ++ rest) rest := by
  have hpass : ∀ (x : β), x ∈ xs → ∀ (acc : Array α) tail mid (T : ForInStep (Array α) → Prop),
      Yields (do
        let members := acc.push (← member)
        if ← Parse.accept Punctuation.comma then return .yield members else return .done members) T (word x ++ tail) mid →
      Yields (memberPass close member acc) T (word x ++ tail) mid := by
    intro x hx acc tail mid T h
    obtain ⟨hc, he⟩ := hstart x hx tail
    refine .current fun loc => ?_
    rw [hc, he, Bool.false_or, if_neg Bool.false_ne_true]
    exact h
  have hloop : Yields (loop #[] (memberPass close member)) (Grown S #[] xs) (commas (xs.map word) ++ rest) rest := by
    by_cases hne : xs = []
    · subst hne
      refine .loopDone hends (.current fun loc => ?_)
      rw [List.map_nil, commas, List.nil_append, hclose, Bool.true_or, if_pos rfl]
      exact .ret ⟨_, rfl, .nil _⟩
    · refine loopJoined hends (F := fun _ => True) xs hne (fun _ _ _ => trivial) (fun x hx acc tail _ => ?_) (fun x hx acc => ?_) #[]
      · refine hpass x hx acc _ _ _ (.bind (hitem x hx _ (.inl rfl)) fun a ha => ?_)
        exact .ifAccept rfl (.ret ⟨_, rfl, a, rfl, ha⟩)
      · refine hpass x hx acc _ _ _ (.bind (hitem x hx _ (.inr rfl)) fun a ha => ?_)
        exact .ifNotAccept hcomma (.ret ⟨_, rfl, a, rfl, ha⟩)
  exact .bind hloop fun as has => .ret has.forall₂

end lists

/-- Names between commas. -/
theorem names {ns : List Name} (hne : ns ≠ []) (hrest : (nextKind rest).sameKind Punctuation.comma = false) :
    Yields Parse.names (fun r => r.map Name.shape = ns.map Name.shape) (namesWord ns ++ rest) rest := by
  refine .bind (separated Productions.loopsEnd_full.names hrest hne (S := fun a n => a.shape = n.shape) fun n _ tail _ => ?_) ?_
  · exact .last (.name fun loc => .ret rfl)
  · rintro ⟨first, others⟩ h
    exact .ret (map_eq_map_of_forall₂ h)

end Yields

end GoSyntax
