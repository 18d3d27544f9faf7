import GoSyntax.Proofs.Junk.Files
import GoSyntax.Proofs.Junk.Gains
import Mathlib.Algebra.Order.BigOperators.Group.List

/-!
# Junk between members

Between the members of a list there may be tokens that do not belong there. If the first of them starts no member and none of them stops
the list, they cost one report, and all members are what they are without them.

The statement is about two sources, one with the junk and one without it. Where a member stands is told by the number of its first token,
and for that the tokens of the first source are put on lines of their own. Those of the second one are put on the same lines, and the junk
behind them all, so that the runs over both can be compared.
-/

namespace GoSyntax

open Parse Cursor Grammar Productions

/-! ## The same tokens at other places -/

/-- Some places may be told where to go; all others go where they go anyway. -/
theorem exists_shift (base : Location → Location) {ps : List (Location × Location)} (h : (ps.map Prod.fst).Nodup) :
    ∃ shift : Location → Location, (∀ p ∈ ps, shift p.1 = p.2) ∧ ∀ l ∉ ps.map Prod.fst, shift l = base l := by
  induction ps with
  | nil => exact ⟨base, fun _ hp => absurd hp List.not_mem_nil, fun _ _ => rfl⟩
  | cons p ps ih =>
    obtain ⟨hp, hps⟩ := List.nodup_cons.1 h
    obtain ⟨shift, hshift, hbase⟩ := ih hps
    refine ⟨Function.update shift p.1 p.2, fun q hq => ?_, fun l hl => ?_⟩
    · rcases List.mem_cons.1 hq with rfl | hq
      · exact Function.update_self ..
      · have hne : q.1 ≠ p.1 := fun heq => hp (heq ▸ List.mem_map_of_mem hq)
        rw [Function.update_of_ne hne, hshift q hq]
    · rw [List.map_cons, List.mem_cons, not_or] at hl
      rw [Function.update_of_ne hl.1, hbase l hl.2]

/-- Tokens may be put at any places, as long as no two of them are at the same one, and reports behind all of these places. -/
theorem Token.exists_shift {ts values : List Token} (hkinds : ts.map Token.kind = values.map Token.kind)
    (hplaces : (ts.map Token.loc).Nodup) :
    ∃ up shift : Location → Location, values = ts.map (Token.move shift) ∧ ∀ d : Diagnostic, (d.move up).move shift = d := by
  have hlength : ts.length = values.length := by
    rw [← List.length_map (f := Token.kind), hkinds, List.length_map]
  have hfst : ((ts.map Token.loc).zip (values.map Token.loc)).map Prod.fst = ts.map Token.loc :=
    List.map_fst_zip (by rw [List.length_map, List.length_map, hlength])
  obtain ⟨lines, hlines⟩ : ∃ lines, ∀ t ∈ ts, t.loc.line < lines :=
    ⟨(ts.map fun t => t.loc.line).sum + 1, fun t ht => Nat.lt_succ_of_le (List.le_sum_of_mem (List.mem_map_of_mem ht))⟩
  obtain ⟨shift, hshift, hbase⟩ := GoSyntax.exists_shift (fun l => ⟨l.path, l.line - lines⟩) (hfst ▸ hplaces)
  refine ⟨Location.down lines, shift, List.ext_getElem (by rw [List.length_map, hlength]) fun k hk hk' => ?_, ?_⟩
  · rw [List.length_map] at hk'
    have hkind : ts[k].kind = values[k].kind := by
      have hget := congrArg (·[k]?) hkinds
      simpa [List.getElem?_eq_getElem hk, List.getElem?_eq_getElem hk'] using hget
    have hloc : shift ts[k].loc = values[k].loc := by
      refine hshift (ts[k].loc, values[k].loc) (List.mem_iff_getElem.2 ⟨k, by simpa using ⟨hk', hk⟩, ?_⟩)
      simp
    rw [List.getElem_map, Token.move, hkind, hloc]
  · rintro ⟨fault, path, line⟩
    have hfar : Location.down lines ⟨path, line⟩ ∉ ((ts.map Token.loc).zip (values.map Token.loc)).map Prod.fst := by
      rw [hfst]
      intro hmem
      obtain ⟨t, ht, heq⟩ := List.mem_map.1 hmem
      have hline := hlines t ht
      rw [heq] at hline
      exact absurd hline (Nat.not_lt.2 (Nat.le_add_left lines line))
    rw [Diagnostic.move, Diagnostic.move, hbase _ hfar]
    simp [Location.down]

section Moved

variable {shift up : Location → Location} (hup : ∀ d : Diagnostic, (d.move up).move shift = d)

include hup

theorem Noted.relabel_moved {n : Noted Token} {t : Token} (h : t.move shift = n.value) :
    (⟨t, n.notes.map (Diagnostic.move up)⟩ : Noted Token).relabel (Token.move shift) (Diagnostic.move shift) = n := by
  have hnotes : (n.notes.map (Diagnostic.move up)).map (Diagnostic.move shift) = n.notes := by
    rw [List.map_map]
    exact List.map_id'' hup _
  rw [Noted.relabel, hnotes, h]

/-- Items whose values stand elsewhere are those of the values at their places, moved; so are their notes. -/
theorem Noted.exists_move {items : List (Noted Token)} {ts : List Token} (h : items.map Noted.value = ts.map (Token.move shift)) :
    ∃ items' : List (Noted Token), items'.map Noted.value = ts
      ∧ items'.map (Noted.relabel (Token.move shift) (Diagnostic.move shift)) = items
      ∧ items'.flatMap Noted.notes = (items.flatMap Noted.notes).map (Diagnostic.move up) := by
  induction items generalizing ts with
  | nil =>
    obtain rfl := List.map_eq_nil_iff.1 h.symm
    exact ⟨[], rfl, rfl, rfl⟩
  | cons n items ih =>
    obtain ⟨t, ts', rfl, ht, hts⟩ := List.map_eq_cons_iff.1 h.symm
    obtain ⟨items', hvalues, hitems, hpending⟩ := ih hts.symm
    refine ⟨⟨t, n.notes.map (Diagnostic.move up)⟩ :: items', by rw [List.map_cons, hvalues], ?_, ?_⟩
    · rw [List.map_cons, hitems, Noted.relabel_moved hup ht]
    · rw [List.flatMap_cons, List.flatMap_cons, hpending, List.map_append]

end Moved

/-- A feed is that of its tokens at other places, moved. -/
theorem Feed.exists_move {f : Feed Token} {ts : List Token} (hkinds : ts.map Token.kind = f.values.map Token.kind)
    (hplaces : (ts.map Token.loc).Nodup) (hlexical : Lexical f.pending) :
    ∃ (g : Feed Token) (shift : Location → Location), f = g.move shift ∧ g.values = ts ∧ Lexical g.pending := by
  obtain ⟨up, shift, hvalues, hup⟩ := Token.exists_shift hkinds hplaces
  obtain ⟨items, last⟩ := f
  obtain ⟨ts₀, ts₁, rfl, hitems, hlast⟩ := List.map_eq_append_iff.1 hvalues.symm
  obtain ⟨t, rfl, ht⟩ := List.map_eq_singleton_iff.1 hlast
  obtain ⟨items', hitems₁, hitems₂, hitems₃⟩ := Noted.exists_move hup hitems.symm
  refine ⟨⟨items', ⟨t, last.notes.map (Diagnostic.move up)⟩⟩, shift, ?_, ?_, ?_⟩
  · rw [Feed.move, Feed.relabel, hitems₂, Noted.relabel_moved hup ht]
  · rw [Feed.values, hitems₁]
  · rw [Feed.pending, hitems₃, ← List.map_append]
    intro d hd
    obtain ⟨d', hd', rfl⟩ := List.mem_map.1 hd
    exact hlexical d' hd'

namespace Cursor

/-- Tokens of these kinds, at consecutive places. -/
def tokensFrom (i : Nat) : List TokenKind → List Token
  | [] => []
  | kind :: kinds => ⟨kind, place i⟩ :: tokensFrom (i + 1) kinds

theorem tokensFrom_append (i : Nat) (kinds kinds' : List TokenKind) :
    tokensFrom i (kinds ++ kinds') = tokensFrom i kinds ++ tokensFrom (i + kinds.length) kinds' := by
  induction kinds generalizing i with
  | nil => rfl
  | cons kind kinds ih =>
    rw [List.cons_append, tokensFrom, ih, tokensFrom, List.length_cons, Nat.add_assoc, Nat.add_comm 1]
    rfl

theorem kinds_tokensFrom (i : Nat) (kinds : List TokenKind) : (tokensFrom i kinds).map Token.kind = kinds := by
  induction kinds generalizing i with
  | nil => rfl
  | cons kind kinds ih => rw [tokensFrom, List.map_cons, ih]

theorem locs_tokensFrom (i : Nat) (kinds : List TokenKind) :
    (tokensFrom i kinds).map Token.loc = (List.range' i kinds.length).map place := by
  induction kinds generalizing i with
  | nil => rfl
  | cons kind kinds ih => rw [tokensFrom, List.map_cons, ih, List.length_cons, List.range'_succ, List.map_cons]

theorem values_numberedFrom (i : Nat) (kinds : List TokenKind) : (numberedFrom i kinds).values = tokensFrom i (kinds ++ [.eof]) := by
  induction kinds generalizing i with
  | nil => rfl
  | cons kind kinds ih =>
    rw [List.cons_append, tokensFrom, ← ih]
    rfl

theorem place_injective : Function.Injective place := fun _ _ h => congrArg Location.line h

theorem loc_ne_of_mem_tokensFrom {i k : Nat} {kinds : List TokenKind} {t : Token} (h : t ∈ tokensFrom i kinds)
    (hk : k < i ∨ i + kinds.length ≤ k) : t.loc ≠ place k := by
  have hloc : t.loc ∈ (tokensFrom i kinds).map Token.loc := List.mem_map_of_mem h
  rw [locs_tokensFrom] at hloc
  obtain ⟨j, hj, heq⟩ := List.mem_map.1 hloc
  rw [List.mem_range'_1] at hj
  rw [← heq]
  exact fun hplace => by have := place_injective hplace; omega

end Cursor

/-! ## Two sources -/

/-- The file that the tokens of a source give if each of them stands on a line of its own: where a node stands tells which is its first
token. -/
def numberedFile (path : SourcePath) (bytes : List UInt8) : SourceFile := (sourceFile full (Cursor.start path bytes).numbered).1

section Numbered

variable {path : SourcePath} {bytes : List UInt8}

/-- A source without a diagnostic has this tree, each node where its first token stands. -/
theorem tree_eq_move_numberedFile (h : (parseFile path bytes).diagnostics = []) :
    (parseFile path bytes).tree = (numberedFile path bytes).move (Cursor.start path bytes).placed :=
  (tree_parseFile path bytes).trans (sourceFile_beside ((Cursor.start path bytes).feed_eq_move (pending_of_clean h))).1

theorem log_numberedFile (h : (parseFile path bytes).diagnostics = []) :
    (sourceFile full (Cursor.start path bytes).numbered).2.log = #[] := by
  obtain ⟨-, made, hmade, hmade'⟩ := sourceFile_beside ((Cursor.start path bytes).feed_eq_move (pending_of_clean h))
  rw [diagnostics_parseFile, hmade'] at h
  rw [← Array.toList_eq_nil_iff, hmade, List.map_eq_nil_iff.1 (List.append_eq_nil_iff.1 h).2]
  rfl

end Numbered

/-- Junk in front of a member of a list: the tokens in front of the member, the junk, the first token of the member, and those behind it.
The token in front of the member is neither a name nor an arrow, since it is the `;` of another member or opens the list. None of the junk
stops the list from skipping it, and its first token starts no member: in front of declarations and clauses that is the same. -/
structure Litter where
  listing : Listing
  front : List TokenKind
  first : TokenKind
  more : List TokenKind
  next : TokenKind
  behind : List TokenKind
  last : ∀ kind, front.getLast? = some kind → kind.announces = false
  stray : listing = .declarations ∨ listing = .clauses ∨ listing.starts first = false
  skipped : ∀ kind ∈ first :: more, listing.stops.contains kind = false

namespace Litter

/-- The tokens without the junk. -/
def tidy (L : Litter) : List TokenKind := L.front ++ L.next :: L.behind

/-- The tokens with the junk, and with a `;` behind it if the members of the list have one. -/
def littered (L : Litter) : List TokenKind := L.front ++ (L.first :: (L.more ++ L.listing.separator) ++ L.next :: L.behind)

/-- One source has the tokens without the junk and is parsed without a diagnostic, a member of a list of this kind starts behind the tokens
in front of it, and the other source has the tokens with the junk. -/
structure In (L : Litter) (path : SourcePath) (tidy littered : List UInt8) : Prop where
  clean : (parseFile path tidy).diagnostics = []
  kinds : (Cursor.start path tidy).kinds = L.tidy
  member : place L.front.length ∈ (numberedFile path tidy).memberPlaces L.listing
  kinds' : (Cursor.start path littered).kinds = L.littered

variable (L : Litter)

/-- What does not stop a list of declarations or clauses starts none of them. -/
theorem starts_first : L.listing.starts L.first = false := by
  have hskipped := L.skipped L.first List.mem_cons_self
  rcases L.stray with hlisting | hlisting | hstray
  · rw [hlisting] at hskipped ⊢
    exact hskipped
  · rw [hlisting] at hskipped ⊢
    exact Bool.eq_false_iff.2 fun hstarts => Bool.false_ne_true (hskipped.symm.trans (contains_clauseEnd_of_starts hstarts))
  · exact hstray

/-- The junk on lines of its own, behind all other tokens. -/
def junk : List Token := tokensFrom (L.tidy.length + 1) (L.first :: (L.more ++ L.listing.separator))

/-- The tokens in front of the junk, on lines of their own. -/
def before : List Token := tokensFrom 0 L.front

/-- The member and what stands behind it, on lines of their own. -/
def after : List Token := tokensFrom L.front.length (L.next :: (L.behind ++ [.eof]))

theorem nodup_places : ((L.before ++ (L.junk ++ L.after)).map Token.loc).Nodup := by
  rw [before, junk, after, List.map_append, List.map_append, locs_tokensFrom, locs_tokensFrom, locs_tokensFrom,
    ← List.map_append, ← List.map_append]
  refine List.Nodup.map place_injective ?_
  rw [List.nodup_append, List.nodup_append]
  refine ⟨List.nodup_range' 1 Nat.one_pos, ⟨List.nodup_range' 1 Nat.one_pos, List.nodup_range' 1 Nat.one_pos, fun i hi j hj => ?_⟩,
    fun i hi j hj => ?_⟩
  · rw [List.mem_range'_1] at hi hj
    simp only [tidy, List.length_append, List.length_cons, List.length_nil] at hi hj
    omega
  · rw [List.mem_append, List.mem_range'_1, List.mem_range'_1] at hj
    rw [List.mem_range'_1] at hi
    simp only [tidy, List.length_append, List.length_cons, List.length_nil] at hi hj
    omega

theorem kinds_values (c : Cursor) : c.feed.values.map Token.kind = c.kinds ++ [.eof] := by
  rw [Feed.values, List.map_append, List.map_singleton, c.scanned.1]
  rfl

variable {L} {path : SourcePath} {tidy littered : List UInt8}

/-- The first source, its tokens numbered. -/
theorem In.values_numbered (h : L.In path tidy littered) : (Cursor.start path tidy).numbered.feed.values = L.before ++ L.after := by
  change (numberedFrom 0 (Cursor.start path tidy).kinds).values = _
  rw [values_numberedFrom, h.kinds, Litter.tidy, List.append_assoc, tokensFrom_append, Nat.zero_add]
  rfl

/-- The second source, its tokens numbered as those of the first one are. -/
theorem In.exists_numbered (h : L.In path tidy littered) : ∃ (c : Cursor) (shift : Location → Location),
    (Cursor.start path littered).feed = c.feed.move shift ∧ c.log = #[] ∧ c.feed.values = L.before ++ (L.junk ++ L.after)
      ∧ Lexical c.feed.pending := by
  have hkinds : (L.before ++ (L.junk ++ L.after)).map Token.kind = (Feed.tokens path littered).values.map Token.kind := by
    have hvalues : (Feed.tokens path littered).values.map Token.kind = L.littered ++ [.eof] := by
      rw [← h.kinds']
      exact kinds_values (.start path littered)
    rw [hvalues, before, junk, after, List.map_append, List.map_append, kinds_tokensFrom, kinds_tokensFrom, kinds_tokensFrom,
      Litter.littered]
    simp
  obtain ⟨g, shift, hmove, hvalues, hlexical⟩ := Feed.exists_move hkinds L.nodup_places (Feed.lexical_tokens path littered)
  have hscanned : g.Scanned := by
    have hstart := (Cursor.start path littered).scanned
    change (Feed.tokens path littered).Scanned at hstart
    rw [hmove] at hstart
    refine ⟨hstart.1, fun t ht => ?_⟩
    obtain ⟨n, hn, rfl⟩ := List.mem_map.1 ht
    exact hstart.2 (n.value.move shift) (List.mem_map.2 ⟨_, List.mem_map_of_mem hn, rfl⟩)
  exact ⟨⟨g, #[], hscanned⟩, shift, hmove, rfl, hvalues, hlexical⟩

theorem In.ne_eof_of_mem (h : L.In path tidy littered) {kind : TokenKind} (hkind : kind ∈ L.first :: L.more) : kind ≠ .eof := by
  have hscanned : kind.IsScanned := by
    refine (Cursor.start path littered).isScanned_kinds kind ?_
    rw [h.kinds', Litter.littered]
    simp only [List.mem_append, List.mem_cons] at hkind ⊢
    tauto
  rintro rfl
  exact hscanned

/-- The tokens of both sources on lines of their own: the junk stands in front of the member in one of two cursors. -/
theorem In.exists_site (h : L.In path tidy littered) {c : Cursor}
    (hvalues : c.feed.values = L.before ++ (L.junk ++ L.after)) (hlexical : Lexical c.feed.pending) :
    ∃ S : Site, S.listing = L.listing ∧ S.next.loc = place L.front.length
      ∧ S.reported = ⟨L.listing.fault L.first.display, place (L.tidy.length + 1)⟩ ∧ S.origin = c
      ∧ ∃ X, S.Before X (Cursor.start path tidy).numbered c := by
  refine ⟨{ listing := L.listing, front := L.before, first := ⟨L.first, place (L.tidy.length + 1)⟩,
            more := tokensFrom (L.tidy.length + 2) L.more
            separator := tokensFrom (L.tidy.length + 2 + L.more.length) L.listing.separator
            next := ⟨L.next, place L.front.length⟩, behind := tokensFrom (L.front.length + 1) (L.behind ++ [.eof]), origin := c
            rest := ?_, fresh := ?_, last := ?_, stray := L.starts_first, skipped := ?_, separates := kinds_tokensFrom _ _ },
    rfl, rfl, rfl, rfl, L.before, ?_⟩
  · intro hnil
    have hkinds := congrArg (List.map Token.kind) hnil
    rw [kinds_tokensFrom, List.map_nil, List.append_eq_nil_iff] at hkinds
    exact List.cons_ne_nil _ _ hkinds.2
  · intro t ht
    rcases List.mem_append.1 ht with ht | ht
    · exact loc_ne_of_mem_tokensFrom ht (.inr (Nat.zero_add _).le)
    · exact loc_ne_of_mem_tokensFrom ht (.inl (Nat.lt_succ_self _))
  · intro t ht
    refine L.last t.kind ?_
    rw [← kinds_tokensFrom 0 L.front, List.getLast?_map]
    exact congrArg (Option.map Token.kind) ht
  · intro t ht
    have hkind : t.kind ∈ L.first :: L.more := by
      rw [← kinds_tokensFrom (L.tidy.length + 1) (L.first :: L.more)]
      exact List.mem_map_of_mem ht
    exact ⟨L.skipped t.kind hkind, h.ne_eof_of_mem hkind⟩
  · refine ⟨List.suffix_refl _, pending_numberedFrom 0 _, h.values_numbered, ?_, .refl hlexical⟩
    rw [hvalues, Litter.junk, tokensFrom, tokensFrom_append]
    rfl

/-- The tree of a source with the junk in it: if the list keeps junk, there is a placeholder in front of the member. -/
def spoil (L : Litter) (loc : Location) (f : SourceFile) : SourceFile :=
  if L.listing.keepsJunk then f.edit (.insert L.listing (place L.front.length) loc) else f

/-- There are no more placeholders in a file than reports about the order of the tokens. -/
theorem length_placeholders_le (c : Cursor) :
    (placeholders (sourceFile full c).1.nodes).length ≤ (syntactic (sourceFile full c).2.log.toList).length := by
  have hreached := (sourceFile_reached c).placeholders
  rw [run_sourceFile] at hreached
  have hcard := Multiset.card_le_card hreached
  rw [Cursor.faults, Multiset.coe_card, List.length_map] at hcard
  exact hcard

theorem In.placeholders_eq_nil (h : L.In path tidy littered) : placeholders (numberedFile path tidy).nodes = [] := by
  have hle := length_placeholders_le (Cursor.start path tidy).numbered
  rw [log_numberedFile h.clean] at hle
  exact List.length_eq_zero_iff.1 (Nat.le_zero.1 hle)

/-- As many placeholders as members start there are put into the tree of the first source. -/
theorem In.placeholders_insert (h : L.In path tidy littered) (loc : Location) :
    (placeholders ((numberedFile path tidy).edit (.insert L.listing (place L.front.length) loc)).nodes).length
      = ((numberedFile path tidy).memberPlaces L.listing).count (place L.front.length) := by
  rw [SourceFile.placeholders_edit, h.placeholders_eq_nil]
  exact Nat.zero_add _

/-- The junk is reported where it stands, and what the second source gives is what the first one gives, spoilt. -/
theorem In.exists_spoilt (h : L.In path tidy littered) : ∃ (c : Cursor) (shift : Location → Location) (loc : Location),
    (Cursor.start path littered).feed = c.feed.move shift ∧ c.log = #[] ∧ shift loc = ((Feed.tokens path littered).peek L.front.length).loc
      ∧ (sourceFile full c).1 = L.spoil loc (numberedFile path tidy)
      ∧ syntactic (sourceFile full c).2.log.toList = [⟨L.listing.fault L.first.display, loc⟩] := by
  obtain ⟨c, shift, hmove, hlog, hvalues, hlexical⟩ := h.exists_numbered
  obtain ⟨S, hlisting, hnext, hreported, rfl, X, hbefore⟩ := h.exists_site hvalues hlexical
  have hmarking : S.marking = .insert L.listing (place L.front.length) (place (L.tidy.length + 1)) := by
    rw [Site.marking, hlisting, hnext, hreported]
  have hloc : shift (place (L.tidy.length + 1)) = ((Feed.tokens path littered).peek L.front.length).loc := by
    have hlength : L.front.length = L.before.length := by
      rw [← List.length_map (f := Token.kind), Litter.before, kinds_tokensFrom]
    have hget : S.origin.feed.values[L.front.length]? = some ⟨L.first, place (L.tidy.length + 1)⟩ := by
      rw [hvalues, hlength, List.getElem?_append_right le_rfl, Nat.sub_self]
      rfl
    have hpeek := Feed.getElem?_values (List.getElem?_eq_some_iff.1 hget).1
    rw [hget] at hpeek
    change shift _ = ((Cursor.start path littered).feed.peek L.front.length).loc
    rw [hmove, Feed.move, Feed.peek_relabel, ← Option.some.inj hpeek]
    rfl
  obtain ⟨htree, ⟨made, hmade, hsyntactic⟩, -⟩ | hsame := sourceFile_junk hbefore (log_numberedFile h.clean)
  · refine ⟨S.origin, shift, _, hmove, hlog, hloc, ?_, ?_⟩
    · rw [htree, Litter.spoil, Site.change, hlisting, hmarking]
      split
      · rfl
      · exact SourceFile.edit_none _
    · rw [hmade.log, hlog, List.nil_append, hsyntactic, hreported]
  -- the member is one of the list, so marks change the tree
  · have hcount := h.placeholders_insert (place (L.tidy.length + 1))
    rw [← hmarking, show (numberedFile path tidy).edit S.marking = numberedFile path tidy from hsame, h.placeholders_eq_nil] at hcount
    exact absurd h.member (List.count_eq_zero.1 hcount.symm)

end Litter

variable {L : Litter} {path : SourcePath} {tidy littered : List UInt8}

/-- Junk in front of a member costs one report, at the line of its first token. The tree is what it is without the junk, lines aside, but
for a placeholder at that line if the list keeps junk: then there is one member that it stands in front of. -/
theorem parseFile_littered (h : L.In path tidy littered) :
    let loc := ((Feed.tokens path littered).peek L.front.length).loc
    (parseFile path littered).diagnostics.filter (fun d => !d.isLexical) = [⟨L.listing.fault L.first.display, loc⟩]
      ∧ (∃ places places' loc', places' loc' = loc ∧ (parseFile path tidy).tree = (numberedFile path tidy).move places
        ∧ (parseFile path littered).tree = (L.spoil loc' (numberedFile path tidy)).move places')
      ∧ (L.listing.keepsJunk = true → ((numberedFile path tidy).memberPlaces L.listing).count (place L.front.length) = 1) := by
  intro loc
  obtain ⟨c, shift, loc', hmove, hlog, hloc, htree, hreported⟩ := h.exists_spoilt
  obtain ⟨htree', made, hmade, hmade'⟩ := sourceFile_beside hmove
  rw [hlog, List.nil_append] at hmade
  refine ⟨?_, ⟨_, shift, loc', hloc, tree_eq_move_numberedFile h.clean, ?_⟩, fun hkeeps => ?_⟩
  · have hmoved : syntactic (made.map (Diagnostic.move shift)) = (syntactic made).map (Diagnostic.move shift) := List.filter_map
    rw [diagnostics_parseFile, hmade']
    change syntactic (made.map (Diagnostic.move shift)) = _
    rw [hmoved, ← hmade, hreported, List.map_singleton, Diagnostic.move, hloc]
  · rw [tree_parseFile, htree', htree]
    rfl
  · have hle := Litter.length_placeholders_le c
    rw [hreported, htree, Litter.spoil, if_pos hkeeps, h.placeholders_insert] at hle
    exact Nat.le_antisymm hle (List.count_pos_iff.2 h.member)

/-- A closing parenthesis and a name between the calls `a()` and `b()` of a function. -/
def Litter.betweenCalls : Litter where
  listing := .statements
  front := [.keyword .package, .ident "p", .punctuation .semicolon, .keyword .func, .ident "f", .punctuation .lParen, .punctuation .rParen,
    .punctuation .lBrace, .ident "a", .punctuation .lParen, .punctuation .rParen, .punctuation .semicolon]
  first := .punctuation .rParen
  more := [.ident "x"]
  next := .ident "b"
  behind := [.punctuation .lParen, .punctuation .rParen, .punctuation .semicolon, .punctuation .rBrace, .punctuation .semicolon]
  last := by simp [TokenKind.announces]
  stray := .inr (.inr rfl)
  skipped := by decide +kernel

/-- It is reported once, in the fourth line, and both calls stay what they are. -/
theorem parseFile_littered_betweenCalls :
    Litter.betweenCalls.In ⟨0, "p.go"⟩ (Utf8.encode "package p\nfunc f() \x7b\na()\nb()\n\x7d\n".toList)
        (Utf8.encode "package p\nfunc f() \x7b\na()\n) x\nb()\n\x7d\n".toList)
      ∧ (parseFile ⟨0, "p.go"⟩ (Utf8.encode "package p\nfunc f() \x7b\na()\n) x\nb()\n\x7d\n".toList)).diagnostics.filter (fun d => !d.isLexical)
        = [⟨.expectedToken "statement" "`)`", ⟨⟨0, "p.go"⟩, 4⟩⟩] := by
  have h : Litter.betweenCalls.In ⟨0, "p.go"⟩ (Utf8.encode "package p\nfunc f() \x7b\na()\nb()\n\x7d\n".toList)
      (Utf8.encode "package p\nfunc f() \x7b\na()\n) x\nb()\n\x7d\n".toList) := {
    clean := by decide +kernel
    kinds := by decide +kernel
    member := by decide +kernel
    kinds' := by decide +kernel }
  exact ⟨h, (parseFile_littered h).1.trans (by decide +kernel)⟩

end GoSyntax
