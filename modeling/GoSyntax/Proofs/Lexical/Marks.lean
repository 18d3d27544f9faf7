import GoSyntax.Proofs.Lexical.Decoding
import GoSyntax.Proofs.Lexical.Lines

/-!
# Byte order marks

A reader withholds the first character that it decodes if it is a byte order mark, and no other character. What is refused before that
character does not count: a mark behind bytes that are no character is still the first one decoded, so it is withheld although it does not
stand at the very start. Any other mark is handed on where it stands, and there it belongs nowhere: unless it stands in a literal or a
comment, it is reported as an illegal character.
-/

namespace GoSyntax

namespace Utf8

/-! ## Characters behind each other -/

/-- The characters that bytes spell, whatever is refused between them. -/
def runes (bytes : List UInt8) : List Char := (segments bytes).filterMap rune?

/-- Bytes are cut in front of each byte that may start a character. -/
theorem segments_append_leading (bytes : List UInt8) {rest : List UInt8} (hrest : ∀ b ∈ rest.head?, isLeading b = true) :
    segments (bytes ++ rest) = segments bytes ++ segments rest := by
  induction hn : bytes.length using Nat.strongRecOn generalizing bytes with
  | ind n ih =>
    subst hn
    cases bytes with
    | nil => rw [segments_nil, List.nil_append, List.nil_append]
    | cons b bytes =>
      obtain ⟨tail, more, rfl, htail, hmore, hsegments⟩ := exists_segment b bytes
      have hhead : ∀ b ∈ (more ++ rest).head?, isLeading b = true := by
        cases more with
        | nil => exact hrest
        | cons b' more => exact hmore
      have hshort : more.length < (b :: (tail ++ more)).length := by
        simp only [List.length_cons, List.length_append]
        omega
      rw [hsegments, List.cons_append, List.append_assoc, ← List.cons_append, segments_append htail hhead, ih _ hshort more rfl,
        List.cons_append]

/-- The bytes of a character give that character wherever they stand. -/
theorem runes_around (front : List UInt8) (c : Char) (rest : List UInt8) :
    runes (front ++ (String.utf8EncodeChar c ++ rest)) = runes front ++ c :: runes rest := by
  have hleading : ∀ b ∈ (String.utf8EncodeChar c ++ rest).head?, isLeading b = true := by
    obtain ⟨b, tail, hbytes, hb, -⟩ := encode_eq_cons c
    rw [hbytes]
    rintro _ ⟨⟩
    exact hb
  rw [runes, segments_append_leading front hleading, List.filterMap_append, (segments_encode c rest).1]
  rfl

/-- The first character stands behind bytes that spell none. -/
theorem exists_of_runes_cons {bytes : List UInt8} {c : Char} {cs : List Char} (h : runes bytes = c :: cs) :
    ∃ junk rest, bytes = junk ++ (String.utf8EncodeChar c ++ rest) ∧ runes junk = [] := by
  induction hn : bytes.length using Nat.strongRecOn generalizing bytes with
  | ind n ih =>
    subst hn
    cases bytes with
    | nil =>
      rw [runes, segments_nil] at h
      exact absurd h.symm (List.cons_ne_nil c cs)
    | cons b bytes =>
      rcases hread : readScalar (b :: bytes) with ⟨_ | c', rest⟩
      · -- No character starts here: the segment is refused as a whole, and the character comes in a later one.
        have hnone := rune?_segment b bytes (congrArg Prod.fst hread)
        rw [runes, segments_cons, List.filterMap_cons_none hnone] at h
        obtain ⟨junk, rest', hrest, hjunk⟩ := ih _ (Nat.lt_succ_of_le (length_resync_le bytes)) h rfl
        have hhead : ∀ b ∈ junk.head?, isLeading b = true := fun b' hb' => by
          have hfirst := List.head?_dropWhile_not (fun b => !isLeading b) bytes
          rw [← resync, hrest] at hfirst
          cases junk with
          | nil => exact absurd hb' (Option.not_mem_none b')
          | cons b'' junk =>
            obtain rfl : b'' = b' := Option.some.inj hb'
            simpa using hfirst
        refine ⟨b :: (bytes.takeWhile fun b => !isLeading b) ++ junk, rest', ?_, ?_⟩
        · rw [List.append_assoc, ← hrest, List.cons_append]
          exact congrArg (b :: ·) List.takeWhile_append_dropWhile.symm
        · rw [runes, segments_append (fun b hb => by simpa using List.all_eq_true.1 List.all_takeWhile b hb) hhead,
            List.filterMap_cons_none hnone]
          exact hjunk
      · have hbytes := eq_encode_of_readScalar hread
        rw [hbytes, runes, (segments_encode c' rest).1] at h
        obtain ⟨rfl, -⟩ := List.cons.inj h
        refine ⟨[], rest, hbytes, ?_⟩
        rw [runes, segments_nil]
        rfl

end Utf8

/-! ## Characters that belong nowhere -/

/-- A character that is no line break and no blank, and that no word and no symbol can hold. -/
structure Foreign (a : Char) : Prop where
  lineBreak : a ≠ '\n'
  blank : isBlank a = false
  part : Identifier.isPart a = false
  symbol : ∀ s ∈ Symbol.all, a ∉ s.spelling.toList

theorem foreign_mark : Foreign byteOrderMark := ⟨by decide, by decide, by decide +kernel, by decide +kernel⟩

/-- A lexeme that may hold any character: a literal or a comment. -/
def LexemeKind.isVerbatim : LexemeKind → Bool
  | .comment _ | .token (.literal _) => true
  | _ => false

/-- The places of a text that neither literals nor comments take, if lexemes stand behind so many characters. -/
def openPlaces : Nat → List Lexeme → List Nat
  | _, [] => []
  | n, l :: ls => (if l.kind.isVerbatim then [] else List.range' n l.width) ++ openPlaces (n + l.width) ls

namespace Lexeme

variable {a c : Char} {cs : List Char}

/-- A lexeme finds that a character is illegal wherever it stands in the lexeme, unless it is a literal or a comment. -/
def Exposes (a : Char) (l : Lexeme) (cs : List Char) : Prop :=
  (l.findings.filter (·.fault == .illegalCharacter a)).map Finding.offset
    = if l.kind.isVerbatim then [] else (List.range l.width).filter (cs[·]? == some a)

theorem Exposes.ite {φ : Prop} [Decidable φ] {l l' : Lexeme} (h : φ → l.Exposes a cs) (h' : ¬φ → l'.Exposes a cs) :
    (if φ then l else l').Exposes a cs := by
  split
  · next hφ => exact h hφ
  · next hφ => exact h' hφ

theorem exposes_of_notMem {l : Lexeme} (hfindings : l.findings = []) (h : a ∉ cs.take l.width) : l.Exposes a cs := by
  have hnone : (List.range l.width).filter (cs[·]? == some a) = [] := List.filter_eq_nil_iff.2 fun i hi hat => by
    refine h (List.mem_of_getElem? (i := i) ?_)
    rw [List.getElem?_take_of_lt (List.mem_range.1 hi)]
    exact eq_of_beq hat
  rw [Exposes, hfindings, hnone, ite_self]
  rfl

theorem exposes_of_verbatim {l : Lexeme} (hkind : l.kind.isVerbatim = true) (h : ∀ f ∈ l.findings, f.fault ≠ .illegalCharacter a) :
    l.Exposes a cs := by
  rw [Exposes, if_pos hkind, List.filter_eq_nil_iff.2 fun f hf hfault => h f hf (eq_of_beq hfault)]
  rfl

theorem exposes_blockComment (ds : List Char) : (blockComment ds).Exposes a cs := by
  unfold blockComment
  split
  · exact exposes_of_verbatim rfl fun _ h => absurd h List.not_mem_nil
  · exact exposes_of_verbatim rfl fun f hf => by rw [List.mem_singleton.1 hf]; exact Fault.noConfusion

theorem exposes_numeral (ds : List Char) : (Numeral.lexeme ds).Exposes a cs := by
  refine exposes_of_verbatim rfl fun f hf => ?_
  rcases List.mem_append.1 hf with hf | hf
  · unfold Numeral.findings at hf
    grind
  · grind

theorem fault_ne_of_mem_quoted {n : Nat} {items : List QuotedItem} {f : Finding} (h : f ∈ QuotedItem.findings n items) :
    f.fault ≠ .illegalCharacter a := by
  fun_induction QuotedItem.findings n items with
  | case1 => exact absurd h List.not_mem_nil
  | case2 n width seen items ih =>
    rcases List.mem_cons.1 h with rfl | h
    · exact Fault.noConfusion
    · exact ih h
  | case3 n item items hitem ih => exact ih h

theorem fault_ne_of_mem_runeCount {count inside : Nat} {f : Finding} (h : f ∈ Quoted.runeCount count inside) :
    f.fault ≠ .illegalCharacter a := by
  unfold Quoted.runeCount at h
  split at h
  · rw [List.mem_singleton.1 h]
    exact Fault.noConfusion
  · exact absurd h List.not_mem_nil
  · rw [List.mem_singleton.1 h]
    exact Fault.noConfusion

theorem exposes_quoted (value : Constant) (items : List QuotedItem) (closed : Bool) {ends : List Finding}
    (hends : ∀ f ∈ ends, f.fault ≠ .illegalCharacter a) :
    (Quoted.lexeme value (QuotedItem.totalWidth items) closed (QuotedItem.findings 1 items) ends).Exposes a cs :=
  exposes_of_verbatim rfl fun f hf => (List.mem_append.1 hf).elim fault_ne_of_mem_quoted (hends f)

theorem exposes_symbol (ha : Foreign a) (c : Char) (cs : List Char) : (symbol c cs).Exposes a (c :: cs) := by
  unfold symbol
  cases hlongest : Symbol.longest? (c :: cs) with
  | some found =>
    obtain ⟨s, length⟩ := found
    obtain ⟨rfl, hbegins, -⟩ := Symbol.longest?_eq_some_iff.1 hlongest
    refine exposes_of_notMem rfl fun hmem => ha.symbol s s.mem_all ?_
    rwa [width, Nat.sub_add_cancel s.length_spelling_pos, hbegins.take_eq] at hmem
  | none =>
    by_cases hc : c = a
    · subst hc
      simp [Exposes, LexemeKind.isVerbatim, width]
    · simp [Exposes, LexemeKind.isVerbatim, width, hc]

theorem notMem_takeWhile {p : Char → Bool} (hp : p a = false) (cs : List Char) : a ∉ cs.takeWhile p := fun hmem => by
  rw [List.all_eq_true.1 List.all_takeWhile a hmem] at hp
  exact Bool.false_ne_true hp.symm

/-- What takes a character and others of a kind holds no other character. -/
theorem notMem_take_succ {p : Char → Bool} (hp : p a = false) (hc : c ≠ a) (cs : List Char) :
    a ∉ (c :: cs).take ((cs.takeWhile p).length + 1) := by
  rw [List.take_succ_cons, List.mem_cons, not_or, ← List.prefix_iff_eq_take.1 (List.takeWhile_prefix p)]
  exact ⟨hc.symm, notMem_takeWhile hp cs⟩

/-- Whatever a text starts with, its first lexeme exposes a character that belongs nowhere. -/
theorem exposes_read (ha : Foreign a) (c : Char) (cs : List Char) : (read c cs).Exposes a (c :: cs) := by
  unfold read
  refine .ite (fun hline => ?_) fun _ => .ite (fun hblank => ?_) fun _ =>
    .ite (fun _ => exposes_of_verbatim rfl fun _ h => absurd h List.not_mem_nil) fun _ =>
    .ite (fun _ => exposes_blockComment _) fun _ => .ite (fun hstart => ?_) fun _ => .ite (fun _ => exposes_numeral _) fun _ =>
    .ite (fun _ => ?_) fun _ => .ite (fun _ => ?_) fun _ => .ite (fun _ => ?_) fun _ => exposes_symbol ha c cs
  · refine exposes_of_notMem rfl fun hmem => ha.lineBreak ?_
    rw [← hline]
    exact List.mem_singleton.1 hmem
  · refine exposes_of_notMem rfl (notMem_take_succ ha.blank ?_ cs)
    rintro rfl
    exact Bool.false_ne_true (ha.blank.symm.trans hblank)
  · refine exposes_of_notMem rfl (notMem_take_succ ha.part ?_ cs)
    rintro rfl
    exact Bool.false_ne_true (ha.part.symm.trans (Identifier.isPart_of_isStart hstart))
  · exact exposes_quoted _ _ _ (by grind [Quoted.cutOff])
  · exact exposes_of_verbatim rfl (by grind [Quoted.rawString, Quoted.lexeme, Quoted.cutOff])
  · refine exposes_quoted _ _ _ fun f hf => ?_
    split at hf
    · exact fault_ne_of_mem_runeCount hf
    · rw [List.mem_singleton.1 hf]
      exact Fault.noConfusion

end Lexeme

/-! ## Reports of a character that belongs nowhere -/

section Reports

variable {a : Char} (path : SourcePath)

/-- The places of a text at which a character stands outside literals and comments. -/
def barePlaces (a : Char) (text : List Char) : List Nat := (openPlaces 0 (lexemes text)).filter (text[·]? == some a)

theorem filter_map_findings (text : List Char) (n : Nat) (fs : List Finding) :
    (fs.map fun f => (⟨f.fault, lineAt path text (n + f.offset)⟩ : Diagnostic)).filter (·.fault == .illegalCharacter a)
      = ((fs.filter (·.fault == .illegalCharacter a)).map Finding.offset).map fun i => ⟨.illegalCharacter a, lineAt path text (n + i)⟩ := by
  rw [List.filter_map, List.map_map]
  refine List.map_congr_left fun f hf => ?_
  have hfault : f.fault = .illegalCharacter a := eq_of_beq (List.mem_filter.1 hf).2
  exact congrArg (Diagnostic.mk · _) hfault

/-- The places that so many characters take in a text, from the first of them on. -/
theorem filter_range' (before cs : List Char) (width : Nat) :
    (List.range' before.length width).filter ((before ++ cs)[·]? == some a)
      = ((List.range width).filter (cs[·]? == some a)).map (before.length + ·) := by
  rw [List.range'_eq_map_range, List.filter_map]
  refine congrArg (List.map _) (List.filter_congr fun i _ => ?_)
  rw [Function.comp_apply, List.getElem?_append_right (Nat.le_add_right _ i), Nat.add_sub_cancel_left]

/-- Of what is found in lexemes, a character that belongs nowhere is found at each of its bare places and no other. -/
theorem filter_found (ha : Foreign a) (before cs : List Char) :
    (found path (before ++ cs) before.length (lexemes cs)).filter (·.fault == .illegalCharacter a)
      = ((openPlaces before.length (lexemes cs)).filter ((before ++ cs)[·]? == some a)).map
        fun i => ⟨.illegalCharacter a, lineAt path (before ++ cs) i⟩ := by
  fun_induction lexemes cs generalizing before with
  | case1 => rfl
  | case2 c cs ih =>
    have hwidth : (Lexeme.read c cs).width ≤ (c :: cs).length := Nat.succ_le_succ Lexeme.fits_read.more_le
    have hrest := ih (before ++ (c :: cs).take (Lexeme.read c cs).width)
    rw [List.length_append, List.length_take, Nat.min_eq_left hwidth, List.append_assoc,
      show cs.drop (Lexeme.read c cs).more = (c :: cs).drop (Lexeme.read c cs).width from rfl, List.take_append_drop] at hrest
    have hexposes := Lexeme.exposes_read ha c cs
    rw [found, openPlaces, List.filter_append, List.filter_append, List.map_append, filter_map_findings, hexposes]
    refine congrArg₂ (· ++ ·) ?_ hrest
    split
    · rfl
    · rw [filter_range', List.map_map]
      rfl

/-- The reports that a character is illegal are as many as its places outside literals and comments, one on the line of each. -/
theorem filter_tokenize_perm (ha : Foreign a) (bytes : List UInt8) :
    ((tokenize path bytes).2.filter (·.fault == .illegalCharacter a)).Perm ((barePlaces a (Feed.ofBytes path bytes).chars).map
      fun i => ⟨.illegalCharacter a, lineAt path (Feed.ofBytes path bytes).chars i⟩) := by
  have hrefusals : (Feed.ofBytes path bytes).pending.filter (·.fault == .illegalCharacter a) = [] := by
    rw [(Feed.ofBytes_segments path bytes).2, List.filter_eq_nil_iff]
    intro d hd
    obtain ⟨before, -, rfl⟩ := List.mem_map.1 hd
    exact fun hfault => Fault.noConfusion (eq_of_beq hfault)
  have hperm := (Feed.pending_tokens_perm path bytes).filter (·.fault == .illegalCharacter a)
  rw [List.filter_append, hrefusals, List.nil_append] at hperm
  refine hperm.trans (List.Perm.of_eq ?_)
  exact filter_found path ha [] (Feed.ofBytes path bytes).chars

end Reports

/-! ## The first character and all others -/

open Utf8

theorem dropMark_append {cs : List Char} (h : cs ≠ []) (ds : List Char) : dropMark (cs ++ ds) = dropMark cs ++ ds := by
  cases cs with
  | nil => exact absurd rfl h
  | cons c cs =>
    rw [List.cons_append, dropMark, dropMark]
    split <;> rfl

/-- Which byte order marks are withheld, and what becomes of the others. A mark behind bytes that spell no character is withheld, and all
characters behind it are handed on, marks among them. A mark behind a character is handed on where it stands. If no mark comes first, all
characters are handed on. Each mark that is handed on and stands outside literals and comments is reported as an illegal character, once,
on its line. -/
theorem first_mark_withheld (path : SourcePath) :
    (∀ junk rest, runes junk = [] → (Feed.ofBytes path (junk ++ (String.utf8EncodeChar byteOrderMark ++ rest))).chars = runes rest)
      ∧ (∀ front rest, runes front ≠ [] → (Feed.ofBytes path (front ++ (String.utf8EncodeChar byteOrderMark ++ rest))).chars
        = (Feed.ofBytes path front).chars ++ byteOrderMark :: runes rest)
      ∧ (∀ bytes, (¬∃ junk rest, bytes = junk ++ (String.utf8EncodeChar byteOrderMark ++ rest) ∧ runes junk = []) →
        (Feed.ofBytes path bytes).chars = runes bytes)
      ∧ ∀ bytes, ((tokenize path bytes).2.filter (·.fault == .illegalCharacter byteOrderMark)).Perm
        ((barePlaces byteOrderMark (Feed.ofBytes path bytes).chars).map
          fun i => ⟨.illegalCharacter byteOrderMark, lineAt path (Feed.ofBytes path bytes).chars i⟩) := by
  have hchars : ∀ bytes, (Feed.ofBytes path bytes).chars = dropMark (runes bytes) := fun bytes => (Feed.ofBytes_segments path bytes).1
  refine ⟨fun junk rest hjunk => ?_, fun front rest hfront => ?_, fun bytes hnone => ?_, filter_tokenize_perm path foreign_mark⟩
  · rw [hchars, runes_around, hjunk]
    rfl
  · rw [hchars, hchars, runes_around, dropMark_append hfront]
  · rw [hchars]
    cases hrunes : runes bytes with
    | nil => rfl
    | cons c cs =>
      refine if_neg fun hc => hnone ?_
      rw [hc] at hrunes
      exact exists_of_runes_cons hrunes

/-- A mark behind a byte that is refused, with another mark behind it: the first one is withheld, and the second one is handed on and
reported. -/
theorem first_mark_withheld_twice :
    runes [0xFF] = []
      ∧ (Feed.ofBytes ⟨0, "p.go"⟩ ([0xFF] ++ (String.utf8EncodeChar byteOrderMark ++ [0xEF, 0xBB, 0xBF]))).chars = runes [0xEF, 0xBB, 0xBF]
      ∧ runes ([0xFF] ++ String.utf8EncodeChar byteOrderMark) ≠ []
      ∧ (Feed.ofBytes ⟨0, "p.go"⟩ ([0xFF] ++ String.utf8EncodeChar byteOrderMark ++ (String.utf8EncodeChar byteOrderMark ++ []))).chars
        = (Feed.ofBytes ⟨0, "p.go"⟩ ([0xFF] ++ String.utf8EncodeChar byteOrderMark)).chars ++ byteOrderMark :: runes []
      ∧ (¬∃ junk rest, ([] : List UInt8) = junk ++ (String.utf8EncodeChar byteOrderMark ++ rest) ∧ runes junk = [])
      ∧ (Feed.ofBytes ⟨0, "p.go"⟩ []).chars = runes [] := by
  obtain ⟨hwithheld, hdelivered, hall, -⟩ := first_mark_withheld ⟨0, "p.go"⟩
  have hjunk : runes [0xFF] = [] := by decide +kernel
  have hfront : runes ([0xFF] ++ String.utf8EncodeChar byteOrderMark) ≠ [] := by decide +kernel
  have hnone : ¬∃ junk rest, ([] : List UInt8) = junk ++ (String.utf8EncodeChar byteOrderMark ++ rest) ∧ runes junk = [] := by
    rintro ⟨junk, rest, hbytes, -⟩
    have hlength := congrArg List.length hbytes
    rw [List.length_append, List.length_append, show (String.utf8EncodeChar byteOrderMark).length = 3 by decide, List.length_nil] at hlength
    omega
  exact ⟨hjunk, hwithheld [0xFF] _ hjunk, hfront, hdelivered _ [] hfront, hnone, hall [] hnone⟩

/-- A mark may be withheld that does not stand at the very start: here behind a byte that is refused. Nothing is reported of it. -/
theorem exists_mark_withheld_behind : ∃ (path : SourcePath) (bytes : List UInt8), ¬String.utf8EncodeChar byteOrderMark <+: bytes
    ∧ runes bytes = [byteOrderMark, 'x'] ∧ (Feed.ofBytes path bytes).chars = ['x'] ∧ (tokenize path bytes).2 = [⟨.illegalUtf8, ⟨path, 1⟩⟩] :=
  ⟨⟨0, "<input>"⟩, [0xFF, 0xEF, 0xBB, 0xBF, 0x78], by decide, by decide +kernel, by decide +kernel, by decide +kernel⟩

end GoSyntax
