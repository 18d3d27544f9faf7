import GoSyntax.Proofs.Canonical.Yields
import GoSyntax.Proofs.Context.Beside
import GoSyntax.Proofs.Kinds.Shapes
import GoSyntax.Proofs.Recovery.Parting

/-!
# Runs over tokens of the same kinds

What a parser does depends on the kinds of the tokens before it, and not on where they stand or on what has been reported before. To see
this, the tokens are given lines of their own: whatever a run over them gives, any other run over tokens of these kinds gives it as well, at
its own locations. And of the tokens behind a run that has not come to its last token nothing matters at all.
-/

namespace GoSyntax

open Parse

/-- Where two runs pursue each other this parser is pursued by itself. The parsers of the grammar are. -/
def Pursued {α : Type} [Movable α] (f : Parse α) : Prop := ∀ B : Pursuit, Productions.full.Pursued B .full → Follows B f f

namespace Cursor

/-! ## Tokens on lines of their own -/

/-- The location of the token with this number. -/
def place (i : Nat) : Location := { (default : Location) with line := i }

/-- Tokens of these kinds, each on a line of its own, and nothing to report. -/
def numberedFrom (i : Nat) : List TokenKind → Feed Token
  | [] => ⟨[], ⟨⟨.eof, place i⟩, []⟩⟩
  | kind :: kinds => (numberedFrom (i + 1) kinds).cons ⟨⟨kind, place i⟩, []⟩

theorem last_numberedFrom (i : Nat) (kinds : List TokenKind) : (numberedFrom i kinds).last.value.kind = .eof := by
  induction kinds generalizing i with
  | nil => rfl
  | cons kind kinds ih => exact ih (i + 1)

theorem kinds_numberedFrom (i : Nat) (kinds : List TokenKind) : (numberedFrom i kinds).items.map (fun n => n.value.kind) = kinds := by
  induction kinds generalizing i with
  | nil => rfl
  | cons kind kinds ih => exact congrArg (kind :: ·) (ih (i + 1))

theorem scanned_numberedFrom {kinds : List TokenKind} (h : ∀ kind ∈ kinds, kind.IsScanned) (i : Nat) : (numberedFrom i kinds).Scanned := by
  refine ⟨last_numberedFrom i kinds, fun t ht => h _ ?_⟩
  rw [← kinds_numberedFrom i kinds]
  obtain ⟨n, hn, rfl⟩ := List.mem_map.1 ht
  exact List.mem_map_of_mem hn

theorem isScanned_kinds (c : Cursor) : ∀ kind ∈ c.kinds, kind.IsScanned := by
  intro kind hkind
  obtain ⟨t, ht, rfl⟩ := List.mem_map.1 hkind
  exact c.scanned.2 t ht

/-- A cursor in front of the same tokens, on lines of their own. -/
def numbered (c : Cursor) : Cursor := ⟨numberedFrom 0 c.kinds, #[], scanned_numberedFrom c.isScanned_kinds 0⟩

theorem kinds_numbered (c : Cursor) : c.numbered.kinds = c.kinds := by
  rw [kinds, tokens, List.map_map]
  exact kinds_numberedFrom 0 c.kinds

theorem pending_numberedFrom (i : Nat) (kinds : List TokenKind) : (numberedFrom i kinds).pending = [] := by
  induction kinds generalizing i with
  | nil => rfl
  | cons kind kinds ih => exact ih (i + 1)

/-- A feed that reports nothing is that of its tokens on lines of their own, moved to where its tokens are. -/
theorem eq_move_numberedFrom (shift : Location → Location) {items : List (Noted Token)} {last : Noted Token} (i : Nat)
    (hlast : last.value.kind = .eof) (hsilent : (⟨items, last⟩ : Feed Token).pending = [])
    (hshift : ∀ k, k ≤ items.length → shift (place (i + k)) = ((⟨items, last⟩ : Feed Token).peek k).loc) :
    (⟨items, last⟩ : Feed Token) = (numberedFrom i (items.map fun n => n.value.kind)).move shift := by
  induction items generalizing i with
  | nil =>
    obtain ⟨⟨kind, loc⟩, notes⟩ := last
    obtain rfl : kind = .eof := hlast
    obtain rfl : notes = [] := hsilent
    obtain rfl : shift (place i) = loc := hshift 0 le_rfl
    rfl
  | cons n items ih =>
    obtain ⟨⟨kind, loc⟩, notes⟩ := n
    rw [Feed.pending, List.flatMap_cons, List.append_assoc] at hsilent
    obtain ⟨hnotes, hrest⟩ := List.append_eq_nil_iff.1 hsilent
    obtain rfl : notes = [] := hnotes
    obtain rfl : shift (place i) = loc := hshift 0 (Nat.zero_le _)
    have htail := ih (i + 1) hrest fun k hk => by
      rw [Nat.add_assoc, Nat.add_comm 1 k]
      exact hshift (k + 1) (Nat.succ_le_succ hk)
    exact congrArg (Feed.cons ⟨⟨kind, shift (place i)⟩, []⟩) htail

/-- Where the tokens are that are numbered. -/
def placed (c : Cursor) (l : Location) : Location := (c.feed.peek l.line).loc

theorem feed_eq_move (c : Cursor) (h : c.feed.pending = []) : c.feed = c.numbered.feed.move c.placed := by
  have hkinds : c.kinds = c.feed.items.map fun n => n.value.kind := List.map_map
  have heq := eq_move_numberedFrom c.placed 0 c.scanned.1 h fun k _ => by
    rw [placed, Nat.zero_add]
    rfl
  have hfeed : c.numbered.feed = numberedFrom 0 (c.feed.items.map fun n => n.value.kind) := congrArg (numberedFrom 0) hkinds
  rw [hfeed]
  exact heq

theorem numbered_beside (c : Cursor) (h : c.feed.pending = []) : Beside c.placed [] c.log.toList c.numbered c :=
  ⟨c.feed_eq_move h, [], rfl, (List.append_nil _).symm⟩

theorem numbered_eq {c c' : Cursor} (h : c.kinds = c'.kinds) : c.numbered = c'.numbered := by
  have hfeed : c.numbered.feed = c'.numbered.feed := congrArg (numberedFrom 0) h
  exact Cursor.eq_of hfeed rfl

end Cursor

/-! ## Tokens of the same kinds -/

section SameKinds

variable {α β : Type} [Movable α] {f : Parse α} {c c' : Cursor}

/-- Where nothing is left to report, a parser gives what it gives over the numbered tokens, moved to where the tokens are; so is what it
reports. -/
theorem Pursued.numbered (hf : Pursued f) (h : c.feed.pending = []) : (f c).1 = moved c.placed (f c.numbered).1
    ∧ (f c).2.feed = (f c.numbered).2.feed.move c.placed
    ∧ (f c).2.log.toList = c.log.toList ++ moved c.placed (f c.numbered).2.log.toList := by
  have hfollows := hf (.beside c.placed [] c.log.toList) (pursued_beside _ _ _)
  obtain ⟨heq, hfeed, made, hmade, hmade'⟩ := (hfollows.found c.numbered c trivial (c.numbered_beside h)).resolve_left id
  rw [List.nil_append] at hmade
  rw [hmade]
  exact ⟨heq, hfeed, hmade'⟩

theorem Cursor.kinds_of_feed_move {shift : Location → Location} {c d : Cursor} (h : c.feed = d.feed.move shift) : c.kinds = d.kinds := by
  rw [Cursor.kinds, Cursor.tokens, Cursor.kinds, Cursor.tokens, h, Feed.move, Feed.relabel]
  rw [List.map_map, List.map_map, List.map_map]
  rfl

/-- What a parser gives over tokens that report nothing depends only on their kinds, locations aside. It leaves as many of them and reports
the same faults, whatever has been reported before. -/
theorem Pursued.of_kinds (hf : Pursued f) {S : α → β} (hS : ∀ shift a, S (moved shift a) = S a) (h : c.feed.pending = [])
    (h' : c'.feed.pending = []) (hkinds : c.kinds = c'.kinds) : S (f c).1 = S (f c').1 ∧ (f c).2.kinds = (f c').2.kinds
    ∧ ∃ made made', (f c).2.log.toList = c.log.toList ++ made ∧ (f c').2.log.toList = c'.log.toList ++ made'
      ∧ made.map Diagnostic.fault = made'.map Diagnostic.fault := by
  obtain ⟨hresult, hfeed, hlog⟩ := hf.numbered h
  obtain ⟨hresult', hfeed', hlog'⟩ := hf.numbered h'
  have hsame := Cursor.numbered_eq hkinds
  refine ⟨?_, ?_, _, _, hlog, hlog', ?_⟩
  · rw [hresult, hresult', hS, hS, hsame]
  · rw [Cursor.kinds_of_feed_move hfeed, Cursor.kinds_of_feed_move hfeed', hsame]
  · have hfaults : ∀ (shift : Location → Location) (ds : List Diagnostic),
      (moved shift ds).map Diagnostic.fault = ds.map Diagnostic.fault :=
      fun shift ds => List.map_map
    rw [hfaults, hfaults, hsame]

theorem Pursued.pending_eq_nil (hf : Pursued f) (h : c.feed.pending = []) (h' : c'.feed.pending = []) (hkinds : c.kinds = c'.kinds)
    (hpending : (f c).2.feed.pending = []) : (f c').2.feed.pending = [] := by
  obtain ⟨-, hfeed, -⟩ := hf.numbered h
  obtain ⟨-, hfeed', -⟩ := hf.numbered h'
  have hsame := Cursor.numbered_eq hkinds
  rw [hfeed, Feed.move, Feed.pending_relabel, List.map_eq_nil_iff, hsame] at hpending
  rw [hfeed', Feed.move, Feed.pending_relabel, hpending]
  rfl

variable {input rest : List TokenKind}

/-- What one run yields from given tokens every run yields. -/
theorem Pursued.yields (hf : Pursued f) {S : α → β} (hS : ∀ shift a, S (moved shift a) = S a) (hc : c.At input)
    (hend : (f c).2.At rest) : Yields f (fun a => S a = S (f c).1) input rest := by
  intro c' hc'
  have hkinds : c.kinds = c'.kinds := hc.kinds.trans hc'.kinds.symm
  obtain ⟨hresult, hleft, made, made', hlog, hlog', hfaults⟩ := hf.of_kinds hS hc.silent hc'.silent hkinds
  have hmade : made = [] := by
    rw [hend.clean, hc.clean] at hlog
    exact hlog.symm
  have hmade' : made' = [] := by
    rw [hmade, List.map_nil, eq_comm, List.map_eq_nil_iff] at hfaults
    exact hfaults
  rw [hmade', hc'.clean] at hlog'
  exact ⟨hresult.symm, hf.pending_eq_nil hc.silent hc'.silent hkinds hend.silent, Array.toList_eq_nil_iff.1 hlog',
    hleft.symm.trans hend.kinds⟩

theorem Cursor.kinds_take {c : Cursor} {u : List TokenKind} (h : c.kinds = u ++ rest) :
    (c.feed.items.take u.length).map (fun n => n.value.kind) = u
      ∧ (c.feed.items.drop u.length).map (fun n => n.value.kind) = rest := by
  have hkinds : c.feed.items.map (fun n => n.value.kind) = u ++ rest := List.map_map.symm.trans h
  rw [List.map_take, List.map_drop, hkinds]
  exact ⟨List.take_left, List.drop_left⟩

namespace Cursor

/-- Tokens in front of others of these kinds. -/
theorem exists_front {c : Cursor} {u z z' : List TokenKind} (hz : ∀ kind ∈ z, kind.IsScanned) (hc : c.At (u ++ z')) :
    ∃ (d : Cursor) (ts : List Token), d.At (u ++ z) ∧ ts.map Token.kind = u
      ∧ ∀ kind, u.getLast? = some kind → kind.announces = false →
        Parting id (numberedFrom 0 z) (c.feed.drop u.length) [] ts d c := by
  obtain ⟨hfront, -⟩ := kinds_take hc.kinds
  obtain ⟨hfrontSilent, -⟩ : (c.feed.items.take u.length).flatMap Noted.notes = [] ∧ (c.feed.drop u.length).pending = [] := by
    have hpending : c.feed.pending = ((c.feed.drop u.length).behind (c.feed.items.take u.length)).pending := by
      rw [Feed.behind, Feed.drop, List.take_append_drop]
    rw [hc.silent, Feed.pending_behind] at hpending
    exact List.append_eq_nil_iff.1 hpending.symm
  have hscanned : ((numberedFrom 0 z).behind (c.feed.items.take u.length)).Scanned := by
    refine ⟨last_numberedFrom 0 z, fun t ht => ?_⟩
    rw [Feed.behind, List.map_append, List.mem_append] at ht
    rcases ht with ht | ht
    · rw [List.map_take] at ht
      exact c.scanned.2 t (List.mem_of_mem_take ht)
    · exact (scanned_numberedFrom hz 0).2 t ht
  refine ⟨⟨_, #[], hscanned⟩, (c.feed.items.take u.length).map Noted.value, ⟨?_, rfl, ?_⟩, ?_, fun kind hlast hkind => ?_⟩
  · rw [Feed.pending_behind, hfrontSilent, pending_numberedFrom]
    rfl
  · rw [kinds, tokens, List.map_map]
    exact List.map_append.trans (congrArg₂ (· ++ ·) hfront (kinds_numberedFrom 0 z))
  · rw [List.map_map]
    exact hfront
  · have hsame : moved id ((c.feed.items.take u.length).map Noted.value) = (c.feed.items.take u.length).map Noted.value :=
      List.map_id _
    refine ⟨rfl, ⟨_, rfl, rfl⟩, ⟨c.feed.items.take u.length, ?_, hsame.symm⟩, ?_, fun t ht => ?_⟩
    · rw [Feed.behind, Feed.drop, List.take_append_drop]
    · rw [dues, hc.silent, hc.clean]
      rfl
    · have hkindOf : u.getLast? = some t.kind := by
        have hkinds : ((c.feed.items.take u.length).map Noted.value).map Token.kind = u := List.map_map.trans hfront
        rw [← hkinds, List.getLast?_map, ht]
        rfl
      rw [hlast] at hkindOf
      rw [← Option.some.inj hkindOf]
      exact hkind

end Cursor

/-- What a run yields that ends in front of a token behind which nothing is looked at, it yields whatever stands behind this token. -/
theorem Pursued.transplant (hf : Pursued f) {S : α → β} (hS : ∀ shift a, S (moved shift a) = S a) {u z z' : List TokenKind}
    {kind : TokenKind} (hkind : kind.announces = false) (hc : c.At (u ++ kind :: z)) (hend : (f c).2.At (kind :: z)) :
    Yields f (fun a => S a = S (f c).1) (u ++ kind :: z') (kind :: z') := by
  have hyields := hf.yields hS hc hend
  intro c' hc'
  have hz : ∀ k ∈ z, k.IsScanned := by
    intro k hk
    refine c.isScanned_kinds k ?_
    rw [hc.kinds]
    exact List.mem_append_right _ (List.mem_cons_of_mem _ hk)
  have hcons : ∀ tail : List TokenKind, u ++ kind :: tail = u ++ [kind] ++ tail := fun tail => by rw [List.append_assoc]; rfl
  rw [hcons] at hc'
  -- the first run is over the same tokens in front of those behind which the parser is known to end
  obtain ⟨d, ts, hd, hts, hparting⟩ := Cursor.exists_front hz hc'
  have hparting := hparting kind List.getLast?_concat hkind
  have hne : ts ≠ [] := by
    rintro rfl
    simp at hts
  obtain ⟨hresult, hend'⟩ := hyields d (by rwa [hcons])
  have hescaped : ¬(Pursuit.parting id (Cursor.numberedFrom 0 z) (c'.feed.drop (u ++ [kind]).length) []).escaped (f d).2 := by
    have hlength : (f d).2.kinds.length = (Cursor.numberedFrom 0 z).items.length + 1 := by
      have hitems := congrArg List.length (Cursor.kinds_numberedFrom 0 z)
      rw [List.length_map] at hitems
      rw [hend'.kinds, List.length_cons, hitems]
    rintro (hle | hlog)
    · omega
    · exact hlog hend'.clean
  obtain ⟨heq, us, hbehind, -⟩ := ((hf _ (pursued_parting _ _ _ _)).found d c' trivial ⟨ts, hparting, hne⟩).resolve_left hescaped
  refine ⟨(congrArg S heq).trans ((hS _ _).trans hresult), ?_⟩
  have hus : us.map Token.kind = [kind] := by
    refine List.append_cancel_right (hbehind.kinds.symm.trans (hend'.kinds.trans ?_))
    rw [Cursor.kinds_numberedFrom]
    rfl
  obtain ⟨hlog, hpending⟩ := List.append_eq_nil_iff.1 hbehind.due
  refine ⟨hpending, Array.toList_eq_nil_iff.1 hlog, ?_⟩
  have htheirs : (c'.feed.drop (u ++ [kind]).length).items.map (fun n => n.value.kind) = z' := (Cursor.kinds_take hc'.kinds).2
  have hmoved : (moved id us : List Token).map Token.kind = us.map Token.kind := List.map_map
  rw [Cursor.kinds, hbehind.tokens', List.map_append, List.map_map, hmoved, hus]
  exact congrArg (kind :: ·) htheirs

end SameKinds

/-! ## How far a run goes -/

/-- From the first cursor to the second one some tokens have been taken and some reports made. -/
def Cursor.Onward (c d : Cursor) : Prop := ∃ n made, d.feed = c.feed.drop n ∧ d.log.toList = c.log.toList ++ made

namespace Cursor.Onward

variable {c d e : Cursor}

theorem refl (c : Cursor) : c.Onward c := ⟨0, [], rfl, (List.append_nil _).symm⟩

theorem trans (h : c.Onward d) (h' : d.Onward e) : c.Onward e := by
  obtain ⟨n, made, hfeed, hlog⟩ := h
  obtain ⟨m, more, hfeed', hlog'⟩ := h'
  refine ⟨n + m, made ++ more, ?_, ?_⟩
  · rw [hfeed', hfeed, Feed.drop, Feed.drop, Feed.drop, List.drop_drop]
  · rw [hlog', hlog, List.append_assoc]

theorem silent (h : c.Onward d) (hc : c.feed.pending = []) : d.feed.pending = [] := by
  obtain ⟨n, -, hfeed, -⟩ := h
  rw [hfeed]
  exact c.feed.pending_drop_of_pending hc n

theorem clean (h : c.Onward d) (hd : d.log = #[]) : c.log = #[] := by
  obtain ⟨-, made, -, hlog⟩ := h
  rw [hd] at hlog
  exact Array.toList_eq_nil_iff.1 (List.append_eq_nil_iff.1 hlog.symm).1

theorem exists_kinds (h : c.Onward d) : ∃ u, c.kinds = u ++ d.kinds := by
  obtain ⟨n, -, hfeed, -⟩ := h
  refine ⟨c.kinds.take n, ?_⟩
  have hdrop : d.kinds = c.kinds.drop n := by
    rw [kinds, tokens, hfeed, kinds, tokens, Feed.drop, List.map_drop, List.map_drop]
  rw [hdrop, List.take_append_drop]

/-- A look at tokens that report nothing changes nothing. -/
theorem peek (hc : c.feed.pending = []) (k : Nat) : (Parse.peek k c).2 = c := by
  have hlook := c.feed.look_of_pending hc (k + 1)
  refine Cursor.eq_of (congrArg Prod.snd hlook) ?_
  change c.log ++ (c.feed.look (k + 1)).1 = c.log
  rw [hlook]
  exact Array.append_empty

theorem consume (hc : c.feed.pending = []) : c.Onward (Parse.consume c).2 := by
  have hlook := c.feed.look_of_pending hc 1
  refine ⟨1, [], ?_, ?_⟩
  · change (c.feed.look 1).2.tail = _
    rw [hlook]
    obtain ⟨⟨items, last⟩, log, hscanned⟩ := c
    cases items <;> rfl
  · rw [log_consume, hlook]

theorem report (fault : Fault) (loc : Location) (c : Cursor) : c.Onward (Parse.report fault loc c).2 :=
  ⟨0, [⟨fault, loc⟩], rfl, Array.toList_push⟩

theorem reportMissing (n : Nat) (kind : TokenKind) (hc : c.feed.pending = []) : c.Onward (Grammar.reportMissing n kind c).2 := by
  change c.Onward ((if c.log.size == n then Parse.reportExpected kind.display else Pure.pure () : Parse Unit) c).2
  split
  · change c.Onward (Parse.report _ _ (Parse.peek 0 c).2).2
    rw [peek hc 0]
    exact report _ _ c
  · exact refl c

end Cursor.Onward

/-- Where a run escapes from itself: nowhere. -/
def Cursor.Astray (_ : Cursor) : Prop := False

/-- One run, from a cursor where nothing is left to report. -/
def Pursuit.onward (start : Cursor) : Pursuit where
  shift := id
  spare := 0
  escaped := Cursor.Astray
  holds c c' := c = c' ∧ c.feed.pending = [] ∧ start.Onward c
  counts n n' := n = n'
  peek := by
    rintro c _ k ⟨rfl, hc, h⟩ -
    rw [Cursor.Onward.peek hc]
    exact .inr ⟨rfl, rfl, hc, h⟩
  consume := by
    rintro c _ ⟨rfl, hc, h⟩
    have hconsume := Cursor.Onward.consume hc
    exact .inr ⟨rfl, rfl, hconsume.silent hc, h.trans hconsume⟩
  report := by
    rintro c _ ⟨rfl, hc, h⟩ fault loc
    exact .inr ⟨rfl, hc, h.trans (.report fault loc c)⟩
  reports := by
    rintro c _ ⟨rfl, -⟩
    rfl
  countable h := h.elim
  missing := by
    rintro c _ n _ ⟨rfl, hc, h⟩ rfl kind
    have hmissing := Cursor.Onward.reportMissing n kind hc
    exact .inr ⟨rfl, hmissing.silent hc, h.trans hmissing⟩
  room := by
    rintro c _ ⟨rfl, -⟩
    exact Nat.le_refl _
  spared := .inl rfl
  peek_escaped h := h.elim
  consume_escaped h := h.elim
  report_escaped h := h.elim

theorem pursued_onward (start : Cursor) : Productions.full.Pursued (.onward start) .full := by
  have heven : ∀ c c', (Pursuit.onward start).holds c c' → c.feed.items.length = c'.feed.items.length := by
    rintro c _ ⟨rfl, -⟩
    rfl
  have hmissing : Follows (.onward start) Productions.missingOperand Productions.missingOperand :=
    FollowsAt.current.bind fun _ => (FollowsAt.reportHere _).bind fun _ => .pure rfl
  refine pursued_of_even heven ⟨.pure rfl, fun _ => hmissing, fun _ => hmissing, fun _ => hmissing, ?_, .of_even heven _⟩
  exact FollowsAt.current.bind fun _ => (FollowsAt.reportExpected _).bind fun _ => .pure rfl

/-- From where nothing is left to report the parser goes onward. -/
def GoesOnward {α : Type} (f : Parse α) : Prop := ∀ c : Cursor, c.feed.pending = [] → c.Onward (f c).2

namespace GoesOnward

variable {α β : Type} {f : Parse α}

theorem of_pursued [Movable α] (hf : Pursued f) : GoesOnward f := fun c hc =>
  (((hf _ (pursued_onward c)).found c c trivial ⟨rfl, hc, .refl c⟩).resolve_left id).2.2.2

theorem pure (a : α) : GoesOnward (Pure.pure a : Parse α) := fun c _ => .refl c

theorem bind {k : α → Parse β} (h : GoesOnward f) (hk : ∀ a, GoesOnward (k a)) : GoesOnward (f >>= k) := fun c hc =>
  (h c hc).trans (hk _ _ ((h c hc).silent hc))

variable {c : Cursor} {input rest : List TokenKind}

/-- A run that reports nothing has reported nothing on its way. -/
theorem exists_mid {k : α → Parse β} (h : GoesOnward f) (hk : ∀ a, GoesOnward (k a)) (hc : c.At input)
    (hend : ((f >>= k) c).2.At rest) : ∃ u v, input = u ++ (v ++ rest) ∧ (f c).2.At (v ++ rest) ∧ (k (f c).1 (f c).2).2.At rest := by
  have hfirst := h c hc.silent
  have hsecond := hk (f c).1 _ (hfirst.silent hc.silent)
  obtain ⟨u, hu⟩ := hfirst.exists_kinds
  obtain ⟨v, hv⟩ := hsecond.exists_kinds
  have hmid : (f c).2.kinds = v ++ rest := hv.trans (congrArg (v ++ ·) hend.kinds)
  exact ⟨u, v, by rw [← hc.kinds, hu, hmid], ⟨hfirst.silent hc.silent, hsecond.clean hend.clean, hmid⟩, hend⟩

end GoesOnward

end GoSyntax
