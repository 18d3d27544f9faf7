import GoSyntax.Proofs.Lexical.Inline
import GoSyntax.Proofs.Lexical.Lines

/-!
# Literals in front of other bytes

A literal that is written out in a source is one token, whatever the source is before it and behind it, as long as the scan of the literal
does not look at more of what is behind than is known of it. The token stands on the line on which the literal starts, what is wrong with
the literal is reported there, and the scan goes on behind it, on the line that it reaches.
-/

namespace GoSyntax

namespace Feed

/-! ## Looking at silent items -/

/-- Who may look so far and meets nothing meets nothing on a shorter look either. -/
theorem look_of_le {α : Type} {f : Feed α} {j k : Nat} (h : f.look k = ([], f)) (hj : j ≤ k) : f.look j = ([], f) := by
  obtain ⟨ns, last⟩ := f
  change lookItems k ns last = _ at h
  change lookItems j ns last = _
  induction ns generalizing j k with
  | nil =>
    cases j with
    | zero => rfl
    | succ j =>
      cases k with
      | zero => omega
      | succ k => exact h
  | cons n ns ih =>
    cases j with
    | zero => rfl
    | succ j =>
      cases k with
      | zero => omega
      | succ k =>
        rw [lookItems] at h
        obtain ⟨hdue, hfeed⟩ := Prod.mk.inj h
        obtain ⟨hn, hrest⟩ := List.append_eq_nil_iff.1 hdue
        obtain ⟨hitems, hlast⟩ := Feed.mk.inj hfeed
        obtain ⟨hsilent, htail⟩ := List.cons.inj hitems
        have hlook : lookItems j ns last = ([], ⟨ns, last⟩) :=
          ih (Nat.le_of_succ_le_succ hj) (Prod.ext hrest (congrArg₂ Feed.mk htail hlast))
        rw [lookItems, hlook, hn]
        exact congrArg (fun m => ([], (⟨m :: ns, last⟩ : Feed α))) hsilent

/-- Where nothing is due before the end of some silent items, nor in the first items behind them, nothing is due to who looks as far. -/
theorem look_behind_of_look {α : Type} {f : Feed α} {ahead : Nat} (hf : f.look ahead = ([], f)) {ns : List (Noted α)}
    (hns : ∀ n ∈ ns, n.notes = []) {k : Nat} (hk : k ≤ ns.length + ahead) : (f.behind ns).look k = ([], f.behind ns) := by
  have hfeed : f.look (k - ns.length) = ([], f) := look_of_le hf (by omega)
  have hsame : ((f.behind ns).look k).2 = f.behind ns := by rw [look_behind_silent f hns, hfeed]
  have hnone : ((f.behind ns).look k).1 ++ (f.behind ns).pending = [] ++ (f.behind ns).pending := by
    have happend := look_append_pending (f.behind ns) k
    rw [hsame] at happend
    exact happend
  exact Prod.ext (List.append_cancel_right hnone) hsame

/-! ## Characters on their lines -/

/-- The places of characters, the first of which is on this line. -/
def placesFrom (line : Nat) : List Char → List (Noted Place)
  | [] => []
  | c :: cs => ⟨⟨some c, line⟩, []⟩ :: placesFrom (lineAfter c line) cs

theorem length_placesFrom (line : Nat) (text : List Char) : (placesFrom line text).length = text.length := by
  induction text generalizing line with
  | nil => rfl
  | cons c text ih => rw [placesFrom, List.length_cons, List.length_cons, ih]

theorem notes_of_mem_placesFrom {line : Nat} {text : List Char} : ∀ n ∈ placesFrom line text, n.notes = [] := by
  induction text generalizing line with
  | nil => exact fun _ hn => absurd hn List.not_mem_nil
  | cons c text ih =>
    intro n hn
    rcases List.mem_cons.1 hn with rfl | hn
    · rfl
    · exact ih n hn

/-- A line feed ends its line. -/
theorem lineAfter_add_count (c : Char) (text : List Char) (line : Nat) :
    lineAfter c line + text.count '\n' = line + (c :: text).count '\n' := by
  by_cases hc : c = '\n'
  · rw [lineAfter, if_pos hc, hc, List.count_cons_self]
    omega
  · rw [lineAfter, if_neg hc, List.count_cons_of_ne hc]

variable (path : SourcePath) (line : Nat) (text : List Char) (bytes : List UInt8)

/-- The places of characters that stand in front of other bytes. -/
theorem ofUndecoded_text : ofUndecoded ⟨path, Utf8.encode text ++ bytes, line, false⟩
    = (ofUndecoded ⟨path, bytes, line + text.count '\n', false⟩).behind (placesFrom line text) := by
  induction text generalizing line with
  | nil => rfl
  | cons c text ih =>
    obtain ⟨b, tail, hbytes, -⟩ := Utf8.encode_eq_cons c
    have hread := Utf8.readScalar_encode c (Utf8.encode text ++ bytes)
    rw [hbytes, List.cons_append] at hread
    rw [Utf8.encode_cons, List.append_assoc, hbytes, List.cons_append, ofUndecoded_of_read path hread, ih, lineAfter_add_count]
    rfl

theorem chars_text : (ofUndecoded ⟨path, Utf8.encode text ++ bytes, line, false⟩).chars
    = text ++ (ofUndecoded ⟨path, bytes, line + text.count '\n', false⟩).chars := by
  have hplaces : (placesFrom line text).filterMap (fun n => n.value.char) = text := by
    induction text generalizing line with
    | nil => rfl
    | cons c text ih => exact congrArg (c :: ·) (ih _)
  rw [ofUndecoded_text, chars, behind, List.filterMap_append, hplaces]
  rfl

/-- Characters that are read without a refusal are those that the bytes spell. -/
theorem exists_encode_of_look {path : SourcePath} {bytes : List UInt8} {line n : Nat}
    (h : ((ofUndecoded ⟨path, bytes, line, false⟩).look n).1 = []) (hn : n ≤ (ofUndecoded ⟨path, bytes, line, false⟩).chars.length) :
    ∃ rest, bytes = Utf8.encode ((ofUndecoded ⟨path, bytes, line, false⟩).chars.take n) ++ rest := by
  induction n generalizing bytes line with
  | zero => exact ⟨bytes, rfl⟩
  | succ n ih =>
    rcases hnext : Undecoded.nextRune ⟨path, bytes, line, false⟩ with ⟨refused, _ | ⟨c, rest⟩⟩
    · rw [ofUndecoded_of_none hnext] at hn
      nomatch hn
    · have hfeed := ofUndecoded_of_some hnext
      rw [hfeed] at h hn
      obtain ⟨hnotes, hlook⟩ := List.append_eq_nil_iff.1 h
      obtain rfl : refused = 0 := (List.replicate_eq_nil_iff _).1 hnotes
      obtain ⟨more, hmore⟩ := ih hlook (Nat.le_of_succ_le_succ hn)
      rw [Undecoded.nextRune_behind] at hnext
      have hchars : (ofUndecoded ⟨path, bytes, line, false⟩).chars = c :: (ofUndecoded ⟨path, rest, lineAfter c line, false⟩).chars :=
        congrArg chars hfeed
      refine ⟨more, ?_⟩
      rw [hchars, List.take_succ_cons, Utf8.encode_cons, List.append_assoc, ← hmore]
      exact Utf8.eq_encode_of_next hnext

/-- The token of a lexeme that is one. -/
theorem ofLexemes_token (path : SourcePath) (armed : Bool) (text : Feed Place) {l : Lexeme} {kind : TokenKind} (hl : l.kind = .token kind)
    (ls : List Lexeme) : ofLexemes path armed text (l :: ls)
      = (ofLexemes path kind.endsStatement (l.take path text).2 ls).cons ⟨⟨kind, ⟨path, (text.peek 0).line⟩⟩, (l.take path text).1⟩ := by
  have htoken : l.token? armed = some kind := by
    rw [Lexeme.token?, hl]
  rw [ofLexemes, htoken]

end Feed

/-- A lexeme in front of which nothing is due, as far as its scan looks, has its findings, and no more, to report. -/
theorem Lexeme.take_of_look (path : SourcePath) {l : Lexeme} {text : Feed Place} {n : Nat} (hlook : ∀ k ≤ n, text.look k = ([], text))
    (hseen : l.seen ≤ n) (hfindings : ∀ f ∈ l.findings, f.seen ≤ n) :
    l.take path text = (l.findings.map fun f => ⟨f.fault, ⟨path, (text.peek f.offset).line⟩⟩, text.drop l.width) := by
  have hfound : ∀ fs : List Finding, (∀ f ∈ fs, f.seen ≤ n) →
      lookFindings path fs text = (fs.map fun f => ⟨f.fault, ⟨path, (text.peek f.offset).line⟩⟩, text) := by
    intro fs hfs
    induction fs with
    | nil => rfl
    | cons f fs ih =>
      obtain ⟨hf, hfs⟩ := List.forall_mem_cons.1 hfs
      simp only [lookFindings, hlook f.seen hf, ih hfs, List.nil_append, List.map_cons]
  simp only [take, hfound l.findings hfindings, hlook l.seen hseen, List.append_nil]

/-- What is met while a lexeme is read that looks farthest at its end is what is refused so far and what is found in it. -/
theorem Lexeme.take_perm_look (path : SourcePath) (text : Feed Place) {l : Lexeme} (hfindings : ∀ f ∈ l.findings, f.seen ≤ l.seen)
    (hwidth : l.width ≤ l.seen) :
    (l.take path text).1.Perm ((text.look l.seen).1 ++ l.findings.map fun f => ⟨f.fault, ⟨path, (text.peek f.offset).line⟩⟩)
      ∧ (l.take path text).2 = (text.look l.seen).2.drop l.width := by
  have hreach : ∀ fs : List Finding, (∀ f ∈ fs, f.seen ≤ l.seen) → reach fs ≤ l.seen := by
    intro fs hfs
    induction fs with
    | nil => exact Nat.zero_le _
    | cons f fs ih =>
      obtain ⟨hf, hfs⟩ := List.forall_mem_cons.1 hfs
      exact Nat.max_le.2 ⟨hf, ih hfs⟩
  have hrest : (l.take path text).2 = (text.look l.seen).2.drop l.width := by
    rw [take_snd, Nat.max_eq_right (hreach l.findings hfindings)]
  refine ⟨?_, hrest⟩
  have hperm := take_perm path text hwidth
  rw [hrest, Feed.pending_drop_look _ hwidth, ← text.look_append_pending l.seen] at hperm
  refine (List.perm_append_right_iff (text.look l.seen).2.pending).1 (hperm.trans ?_)
  rw [List.append_assoc, List.append_assoc]
  exact List.perm_append_comm.append_left _

/-! ## Literals -/

/-- Wherever the text stands in a source, in front of bytes with `p`, it is one token, a literal of this value; these faults are reported
of it on its line, and what stands behind it is scanned as if the token stood alone in front of it. -/
def ReadsBefore (p : List UInt8 → Prop) (text : List Char) (value : Constant) (faults : List Fault) : Prop :=
  ∀ (path : SourcePath) (bytes : List UInt8) (line : Nat) (armed atStart : Bool), p bytes →
    Undecoded.tokensFrom armed ⟨path, Utf8.encode text ++ bytes, line, atStart⟩
      = (Undecoded.tokensFrom true ⟨path, bytes, line + text.count '\n', false⟩).cons
        ⟨⟨.literal value, ⟨path, line⟩⟩, faults.map fun f => ⟨f, ⟨path, line⟩⟩⟩

/-- Of bytes with `p` the characters have `q`, and nothing is due to who looks so far ahead. -/
def Known (p : List UInt8 → Prop) (q : List Char → Prop) (ahead : Nat) : Prop :=
  ∀ (bytes : List UInt8), p bytes → ∀ (path : SourcePath) (line : Nat),
    (Feed.ofUndecoded ⟨path, bytes, line, false⟩).look ahead = ([], Feed.ofUndecoded ⟨path, bytes, line, false⟩)
      ∧ q (Feed.ofUndecoded ⟨path, bytes, line, false⟩).chars

/-- Nothing is known of any bytes, and so nothing may be looked at. -/
theorem known_any : Known (fun _ => True) (fun _ => True) 0 := fun _ _ _ _ => ⟨rfl, trivial⟩

/-- The line feed comes next, or nothing does. -/
def StartsLine (bytes : List UInt8) : Prop := ∀ b ∈ bytes.head?, b = 10

theorem known_startsLine : Known StartsLine (fun rest => ∀ a ∈ rest.head?, a = '\n') 1 := by
  intro bytes hbytes path line
  cases bytes with
  | nil =>
    have hnone : Undecoded.nextRune ⟨path, [], line, false⟩ = (0, none) := (Undecoded.nextRune_behind _ _ _).trans Utf8.next_nil
    rw [Feed.ofUndecoded_of_none hnone]
    exact ⟨rfl, fun a ha => absurd ha (Option.not_mem_none a)⟩
  | cons b bytes =>
    obtain rfl : b = 10 := hbytes b rfl
    have hread : Utf8.readScalar (10 :: bytes) = (some '\n', bytes) := rfl
    rw [Feed.ofUndecoded_of_read path hread]
    refine ⟨rfl, fun a ha => ?_⟩
    exact (Option.some.inj ha).symm

/-- No character but a byte order mark makes a difference at the start of a source. -/
theorem Utf8.next_encode_ne_mark {c : Char} (hc : c ≠ byteOrderMark) (text : List Char) (bytes : List UInt8) :
    (next (encode (c :: text) ++ bytes)).2.map Prod.fst ≠ some byteOrderMark := by
  obtain ⟨b, tail, hencode, -⟩ := encode_eq_cons c
  have hscalar := readScalar_encode c (encode text ++ bytes)
  rw [hencode, List.cons_append] at hscalar
  rw [encode_cons, List.append_assoc, hencode, List.cons_append, next_cons_of_some hscalar]
  intro heq
  exact hc (Option.some.inj heq)

/-- What a lexeme reads as a literal, whatever is behind it of which no more is known than this, is read as this literal anywhere. -/
theorem readsBefore_of_read {p : List UInt8 → Prop} {q : List Char → Prop} {ahead : Nat} (hknown : Known p q ahead) {c : Char}
    {cs : List Char}
    {value : Constant} {found : List Finding} (hc : c ≠ byteOrderMark)
    (hread : ∀ rest, q rest → ∃ seen ≤ cs.length + 1 + ahead, Lexeme.read c (cs ++ rest)
      = ⟨.token (.literal value), cs.length, seen, found⟩)
    (hfound : ∀ f ∈ found, f.seen ≤ cs.length + 1 + ahead ∧ f.offset ≤ cs.length + 1 ∧ '\n' ∉ (c :: cs).take f.offset) :
    ReadsBefore p (c :: cs) value (found.map Finding.fault) := by
  intro path bytes line armed atStart hbytes
  obtain ⟨hahead, hq⟩ := hknown bytes hbytes path (line + (c :: cs).count '\n')
  obtain ⟨seen, hseen, hlexeme⟩ := hread _ hq
  have hplaces : (Feed.placesFrom line (c :: cs)).length = cs.length + 1 := Feed.length_placesFrom line (c :: cs)
  have htake := Lexeme.take_of_look path (l := ⟨.token (.literal value), cs.length, seen, found⟩)
    (fun k hk => Feed.look_behind_of_look hahead Feed.notes_of_mem_placesFrom (by rwa [hplaces])) hseen fun f hf => (hfound f hf).1
  have hline : ∀ f ∈ found, (((Feed.ofUndecoded ⟨path, bytes, line + (c :: cs).count '\n', false⟩).behind
      (Feed.placesFrom line (c :: cs))).peek f.offset).line = line := by
    intro f hf
    obtain ⟨-, hoffset, hbreak⟩ := hfound f hf
    have hcount : ((c :: cs).take f.offset).count '\n' = 0 := List.count_eq_zero_of_not_mem hbreak
    rw [← Feed.ofUndecoded_text, Feed.line_peek_ofUndecoded, Feed.chars_text, List.take_append_of_le_length (by simpa using hoffset),
      hcount]
    rfl
  have hdrop : (cs ++ (Feed.ofUndecoded ⟨path, bytes, line + (c :: cs).count '\n', false⟩).chars).drop cs.length
      = (Feed.ofUndecoded ⟨path, bytes, line + (c :: cs).count '\n', false⟩).chars := List.drop_left
  simp only [Undecoded.tokensFrom]
  rw [Feed.ofUndecoded_atStart path (Utf8.next_encode_ne_mark hc cs bytes), Feed.chars_text, Feed.ofUndecoded_text, List.cons_append,
    lexemes_cons,
    hlexeme, Feed.ofLexemes, htake, List.map_congr_left fun f hf => by rw [hline f hf]]
  rw [Feed.drop_behind _ (by simp [Lexeme.width, hplaces]), List.drop_of_length_le (by simp [Lexeme.width, hplaces]), List.map_map]
  simp only [hdrop]
  rfl

end GoSyntax
