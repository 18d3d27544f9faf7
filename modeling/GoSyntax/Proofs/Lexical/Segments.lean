import GoSyntax.Proofs.Lexical.Encoding

/-!
# Bytes cut into segments

Bytes can be cut before each byte that may start a character. Such a segment gives at most one character, and it gives it if it starts with
the bytes of one. Whatever else it holds is refused, once: the bytes behind its character, or all of it. Since a refusal is skipped up to
the next byte that may start a character, a reader gives the characters of the segments one after the other and refuses a sequence once for
each segment that is not the bytes of a character and nothing else.
-/

namespace GoSyntax

namespace Utf8

/-- Bytes cut before each byte that may start a character. Only the first segment may start with another byte. -/
def segments : List UInt8 → List (List UInt8)
  | [] => []
  | b :: bytes => (b :: bytes.takeWhile fun b => !isLeading b) :: segments (resync bytes)
termination_by bytes => bytes.length
decreasing_by exact Nat.lt_succ_of_le (length_resync_le bytes)

/-- The character of a segment, if it starts with the bytes of one. -/
def rune? (seg : List UInt8) : Option Char := (readScalar seg).1

/-- The bytes of the character of a segment. -/
def spelled (seg : List UInt8) : List UInt8 := (rune? seg).elim [] String.utf8EncodeChar

/-- The bytes of a segment that are refused. -/
def refused (seg : List UInt8) : List UInt8 := seg.drop (spelled seg).length

/-- For each segment of which bytes are refused, the bytes in front of these. -/
def beforeRefused : List UInt8 → List (List UInt8) → List (List UInt8)
  | _, [] => []
  | before, seg :: segs =>
    (if refused seg = [] then [] else [before ++ spelled seg]) ++ beforeRefused (before ++ seg) segs

/-- Characters without a byte order mark at their start. -/
def dropMark : List Char → List Char
  | [] => []
  | c :: cs => if c = byteOrderMark then cs else c :: cs

/-! ## Segments -/

section Segments

variable {b : UInt8} {bytes seg rest : List UInt8} {c : Char}

theorem segments_nil : segments [] = [] := by rw [segments]

theorem segments_cons (b : UInt8) (bytes : List UInt8) :
    segments (b :: bytes) = (b :: bytes.takeWhile fun b => !isLeading b) :: segments (resync bytes) := by
  rw [segments]

/-- What a segment starts with does not matter, if the others may not start a character, but what stands behind it may. -/
theorem segments_append {tail : List UInt8} (htail : ∀ b ∈ tail, isLeading b = false) (hrest : ∀ b ∈ rest.head?, isLeading b = true) :
    segments (b :: tail ++ rest) = (b :: tail) :: segments rest := by
  have htake : (tail ++ rest).takeWhile (fun b => !isLeading b) = tail := by
    rw [List.takeWhile_append_of_pos fun b hb => by rw [htail b hb]; rfl]
    cases rest with
    | nil => exact List.append_nil _
    | cons b' rest => rw [List.takeWhile_cons_of_neg (by rw [hrest b' rfl]; decide), List.append_nil]
  have hdrop : resync (tail ++ rest) = rest := by
    rw [resync, List.dropWhile_append_of_pos fun b hb => by rw [htail b hb]; rfl]
    cases rest with
    | nil => rfl
    | cons b' rest => rw [List.dropWhile_cons_of_neg (by rw [hrest b' rfl]; decide)]
  rw [List.cons_append, segments_cons, htake, hdrop]

/-- The first segment and what stands behind it. -/
theorem exists_segment (b : UInt8) (bytes : List UInt8) : ∃ tail rest, bytes = tail ++ rest ∧ (∀ b ∈ tail, isLeading b = false)
    ∧ (∀ b ∈ rest.head?, isLeading b = true) ∧ segments (b :: bytes) = (b :: tail) :: segments rest := by
  refine ⟨bytes.takeWhile fun b => !isLeading b, resync bytes, List.takeWhile_append_dropWhile.symm, fun b hb => ?_, fun b hb => ?_, ?_⟩
  · simpa using List.all_eq_true.1 List.all_takeWhile b hb
  · have hhead := List.head?_dropWhile_not (fun b => !isLeading b) bytes
    rw [← resync, Option.mem_def.1 hb] at hhead
    simpa using hhead
  · rw [segments_cons]

/-- Nothing is lost by cutting. -/
theorem flatten_segments (bytes : List UInt8) : (segments bytes).flatten = bytes := by
  fun_induction segments bytes with
  | case1 => rfl
  | case2 b bytes ih =>
    rw [List.flatten_cons, ih, List.cons_append]
    exact congrArg (b :: ·) List.takeWhile_append_dropWhile

theorem rune?_eq_some_iff : rune? seg = some c ↔ String.utf8EncodeChar c <+: seg := by
  constructor
  · intro h
    exact ⟨(readScalar seg).2, (eq_encode_of_readScalar (Prod.ext h rfl)).symm⟩
  · rintro ⟨rest, rfl⟩
    rw [rune?, readScalar_encode]

/-- The bytes of the character come first. -/
theorem spelled_append_refused (seg : List UInt8) : spelled seg ++ refused seg = seg := by
  rw [refused, spelled]
  cases h : rune? seg with
  | none => rfl
  | some c =>
    obtain ⟨rest, rfl⟩ := rune?_eq_some_iff.1 h
    rw [Option.elim_some, List.drop_left]

theorem refused_eq_nil_iff : refused seg = [] ↔ seg = [] ∨ ∃ c, seg = String.utf8EncodeChar c := by
  constructor
  · intro h
    have hseg := spelled_append_refused seg
    rw [h, List.append_nil, spelled] at hseg
    cases hrune : rune? seg with
    | none =>
      rw [hrune] at hseg
      exact .inl hseg.symm
    | some c =>
      rw [hrune] at hseg
      exact .inr ⟨c, hseg.symm⟩
  · rintro (rfl | ⟨c, rfl⟩)
    · exact List.drop_nil
    · rw [refused, spelled, rune?_eq_some_iff.2 List.prefix_rfl, Option.elim_some, List.drop_length]

theorem isLeading_of_lead? {lead : Lead} (h : lead? b = some lead) : isLeading b = true := by
  rw [isLeading_eq]
  have hb := lead?_eq_some_iff.1 h
  exact decide_eq_true (by omega)

theorem isLeading_of_isContinuation (h : isContinuation b = true) : isLeading b = false := by
  rw [isContinuation_eq] at h
  have hb := of_decide_eq_true h
  rw [isLeading_eq]
  exact decide_eq_false (by omega)

/-- The bytes of a character: one that may start a character and others that may not. -/
theorem encode_eq_cons (c : Char) :
    ∃ b tail, String.utf8EncodeChar c = b :: tail ∧ isLeading b = true ∧ ∀ b ∈ tail, isLeading b = false := by
  have hread := readScalar_encode c []
  rw [List.append_nil] at hread
  obtain ⟨b, tail, lead, hbytes, hlead, -, htail, -⟩ := readScalar_eq_some.1 hread
  exact ⟨b, tail, hbytes.trans (List.append_nil _), isLeading_of_lead? hlead, fun b hb => isLeading_of_isContinuation (htail b hb)⟩

/-- A segment that starts with no character is refused as a whole. -/
theorem refused_of_none (h : rune? seg = none) : spelled seg = [] ∧ refused seg = seg := by
  have hspelled : spelled seg = [] := by rw [spelled, h]; rfl
  rw [refused, hspelled]
  exact ⟨rfl, rfl⟩

/-- What stands behind the character of a segment is refused. -/
theorem refused_encode (c : Char) (stray : List UInt8) : rune? (String.utf8EncodeChar c ++ stray) = some c
    ∧ spelled (String.utf8EncodeChar c ++ stray) = String.utf8EncodeChar c ∧ refused (String.utf8EncodeChar c ++ stray) = stray := by
  have hrune : rune? (String.utf8EncodeChar c ++ stray) = some c := rune?_eq_some_iff.2 ⟨stray, rfl⟩
  have hspelled : spelled (String.utf8EncodeChar c ++ stray) = String.utf8EncodeChar c := by rw [spelled, hrune]; rfl
  refine ⟨hrune, hspelled, ?_⟩
  rw [refused, hspelled, List.drop_left]

/-- No character starts with a byte that may not start one. -/
theorem rune?_of_not_leading (h : isLeading b = false) (bytes : List UInt8) : rune? (b :: bytes) = none := by
  refine Option.eq_none_iff_forall_ne_some.2 fun c hc => ?_
  obtain ⟨rest, hrest⟩ := rune?_eq_some_iff.1 hc
  obtain ⟨b', tail, hbytes, hleading, -⟩ := encode_eq_cons c
  rw [hbytes] at hrest
  rw [(List.cons.inj hrest).1, h] at hleading
  nomatch hleading

theorem segments_of_not_leading {stray : List UInt8} (hstray : ∀ b ∈ stray, isLeading b = false)
    (hrest : ∀ b ∈ rest.head?, isLeading b = true) :
    segments (stray ++ rest) = if stray = [] then segments rest else stray :: segments rest := by
  cases stray with
  | nil => rfl
  | cons b stray => exact segments_append (fun b hb => hstray b (List.mem_cons_of_mem _ hb)) hrest

/-- The bytes of a character and others behind them: the first segment is longer by bytes that are refused, or it is none the longer. -/
theorem segments_encode (c : Char) (bytes : List UInt8) :
    (segments (String.utf8EncodeChar c ++ bytes)).filterMap rune? = c :: (segments bytes).filterMap rune?
      ∧ ∀ before, beforeRefused before (segments (String.utf8EncodeChar c ++ bytes))
        = beforeRefused (before ++ String.utf8EncodeChar c) (segments bytes) := by
  obtain ⟨stray, rest, rfl, hstray, hrest⟩ : ∃ stray rest, bytes = stray ++ rest ∧ (∀ b ∈ stray, isLeading b = false)
      ∧ ∀ b ∈ rest.head?, isLeading b = true := by
    obtain ⟨stray, rest, h⟩ := exists_segment 0 bytes
    exact ⟨stray, rest, h.1, h.2.1, h.2.2.1⟩
  obtain ⟨b, tail, hbytes, hleading, htail⟩ := encode_eq_cons c
  obtain ⟨hrune, hspelled, hrefused⟩ := refused_encode c stray
  have hseg : segments (String.utf8EncodeChar c ++ (stray ++ rest)) = (String.utf8EncodeChar c ++ stray) :: segments rest := by
    rw [← List.append_assoc, hbytes, List.cons_append]
    refine segments_append (fun b hb => ?_) hrest
    exact (List.mem_append.1 hb).elim (htail b) (hstray b)
  rw [hseg, List.filterMap_cons_some hrune, segments_of_not_leading hstray hrest]
  simp only [beforeRefused, hspelled, hrefused]
  cases stray with
  | nil => simp
  | cons b' stray =>
    have hnone := rune?_of_not_leading (hstray b' List.mem_cons_self) stray
    obtain ⟨hspelled', hrefused'⟩ := refused_of_none hnone
    simp only [if_neg (List.cons_ne_nil b' stray)]
    rw [List.filterMap_cons_none hnone]
    refine ⟨rfl, fun before => ?_⟩
    rw [beforeRefused, hspelled', hrefused', if_neg (List.cons_ne_nil _ _), List.append_nil, List.append_assoc]

end Segments

/-! ## Reading segments -/

section Reading

variable {b : UInt8} {bytes rest : List UInt8} {c : Char}

/-- A byte and the bytes of a sequence that are read before it is refused: none of those behind the first may start a character. -/
theorem exists_of_readTail_none {n bits : Nat} (h : readTail n bits bytes = (none, rest)) :
    ∃ tail, bytes = tail ++ rest ∧ ∀ b ∈ tail, isLeading b = false := by
  induction n generalizing bits bytes with
  | zero => nomatch h
  | succ n ih =>
    cases bytes with
    | nil =>
      obtain ⟨-, rfl⟩ := Prod.mk.inj h
      exact ⟨[], rfl, nofun⟩
    | cons b bytes =>
      rw [readTail] at h
      split at h
      · next hb =>
        obtain ⟨tail, rfl, htail⟩ := ih h
        exact ⟨b :: tail, rfl, List.forall_mem_cons.2 ⟨isLeading_of_isContinuation hb, htail⟩⟩
      · obtain ⟨-, rfl⟩ := Prod.mk.inj h
        exact ⟨[], rfl, nofun⟩

/-- A sequence that is refused is skipped up to the end of its segment. -/
theorem resync_of_readScalar (h : readScalar (b :: bytes) = (none, rest)) : resync rest = resync bytes := by
  have hskip : ∀ {tail : List UInt8}, (∀ b ∈ tail, isLeading b = false) → bytes = tail ++ rest → resync rest = resync bytes := by
    rintro tail htail rfl
    rw [resync, resync, List.dropWhile_append_of_pos fun b hb => by rw [htail b hb]; rfl]
  rw [readScalar] at h
  cases hlead : lead? b with
  | none =>
    rw [hlead] at h
    obtain ⟨-, rfl⟩ := Prod.mk.inj h
    rfl
  | some lead =>
    rw [hlead] at h
    dsimp only at h
    split at h
    · next value rest' hread =>
      obtain ⟨-, rfl⟩ := Prod.mk.inj h
      obtain ⟨tail, -, htail, hbytes, -⟩ := readTail_eq_some_iff.1 hread
      exact hskip (fun b hb => isLeading_of_isContinuation (htail b hb)) hbytes
    · next rest' hread =>
      obtain ⟨-, rfl⟩ := Prod.mk.inj h
      obtain ⟨tail, hbytes, htail⟩ := exists_of_readTail_none hread
      exact hskip htail hbytes

theorem rune?_segment (b : UInt8) (bytes : List UInt8) (h : (readScalar (b :: bytes)).1 = none) :
    rune? (b :: bytes.takeWhile fun b => !isLeading b) = none := by
  refine Option.eq_none_iff_forall_ne_some.2 fun c hc => ?_
  obtain ⟨rest, hrest⟩ := rune?_eq_some_iff.1 hc
  have hbytes : b :: bytes = String.utf8EncodeChar c ++ (rest ++ resync bytes) := by
    rw [← List.append_assoc, hrest, List.cons_append]
    exact congrArg (b :: ·) List.takeWhile_append_dropWhile.symm
  rw [hbytes, readScalar_encode] at h
  nomatch h

end Reading

/-! ## Texts and ASCII -/

theorem encode_cons (c : Char) (text : List Char) : encode (c :: text) = String.utf8EncodeChar c ++ encode text := List.flatMap_cons

/-- The bytes of a text have its characters as their segments. -/
theorem segments_text (text : List Char) :
    (segments (encode text)).filterMap rune? = text ∧ ∀ before, beforeRefused before (segments (encode text)) = [] := by
  induction text with
  | nil =>
    rw [show encode [] = [] from rfl, segments_nil]
    exact ⟨rfl, fun _ => rfl⟩
  | cons c text ih =>
    obtain ⟨hrunes, hbefore⟩ := segments_encode c (encode text)
    rw [encode_cons, hrunes, ih.1]
    exact ⟨rfl, fun before => (hbefore before).trans (ih.2 _)⟩

/-- Segments of which nothing is refused are the bytes of their characters. -/
theorem flatten_of_beforeRefused {before : List UInt8} {segs : List (List UInt8)} (h : beforeRefused before segs = []) :
    segs.flatten = encode (segs.filterMap rune?) := by
  induction segs generalizing before with
  | nil => rfl
  | cons seg segs ih =>
    obtain ⟨hseg, hsegs⟩ := List.append_eq_nil_iff.1 h
    have hrefused : refused seg = [] := Decidable.byContradiction fun hne => by
      rw [if_neg hne] at hseg
      nomatch hseg
    have hspelled := spelled_append_refused seg
    rw [hrefused, List.append_nil, spelled] at hspelled
    rw [List.flatten_cons, ih hsegs]
    cases hrune : rune? seg with
    | none =>
      rw [hrune] at hspelled
      rw [List.filterMap_cons_none hrune, ← hspelled]
      rfl
    | some c =>
      rw [hrune] at hspelled
      rw [List.filterMap_cons_some hrune, encode_cons, ← hspelled]
      rfl

/-- Bytes are those of a text exactly if nothing of them is refused, and then the text is what is read from them. -/
theorem eq_encode_iff {bytes : List UInt8} {text : List Char} :
    bytes = encode text ↔ beforeRefused [] (segments bytes) = [] ∧ (segments bytes).filterMap rune? = text := by
  constructor
  · rintro rfl
    exact ⟨(segments_text text).2 [], (segments_text text).1⟩
  · rintro ⟨hbefore, rfl⟩
    rw [← flatten_of_beforeRefused hbefore, flatten_segments]

/-- An ASCII character is one byte. -/
theorem encode_of_lt {c : Char} (h : c.toNat < 0x80) : String.utf8EncodeChar c = [UInt8.ofNat c.toNat] := by
  rcases utf8EncodeChar_cases c with ⟨-, hbytes⟩ | hle | hle | hle
  · exact hbytes
  all_goals omega

/-- Of the bytes of any other character none is ASCII. -/
theorem le_of_mem_encode {c : Char} (h : 0x80 ≤ c.toNat) {b : UInt8} (hb : b ∈ String.utf8EncodeChar c) : 0x80 ≤ b.toNat := by
  have hbyte : ∀ {n}, 0x80 ≤ n → n < 256 → b = UInt8.ofNat n → 0x80 ≤ b.toNat := by
    rintro n hn hlt rfl
    rwa [toNat_ofNat hlt]
  rcases utf8EncodeChar_cases c with hlt | ⟨-, hlt, hbytes⟩ | ⟨-, hlt, hbytes⟩ | ⟨-, hlt, hbytes⟩
  · omega
  all_goals
    rw [hbytes] at hb
    simp only [List.mem_cons, List.not_mem_nil, or_false] at hb
  · rcases hb with hb | hb <;> exact hbyte (by omega) (by omega) hb
  · rcases hb with hb | hb | hb <;> exact hbyte (by omega) (by omega) hb
  · rcases hb with hb | hb | hb | hb <;> exact hbyte (by omega) (by omega) hb

/-- The ASCII bytes, as characters. -/
def asciiOf (bytes : List UInt8) : List Char := (bytes.filter (· < 0x80)).map Char.ofUInt8

theorem asciiOf_append (bytes rest : List UInt8) : asciiOf (bytes ++ rest) = asciiOf bytes ++ asciiOf rest := by
  rw [asciiOf, List.filter_append, List.map_append]
  rfl

theorem asciiOf_eq_nil {bytes : List UInt8} (h : ∀ b ∈ bytes, 0x80 ≤ b.toNat) : asciiOf bytes = [] := by
  rw [asciiOf, List.filter_eq_nil_iff.2 fun b hb hlt => ?_]
  · rfl
  · exact absurd (UInt8.lt_iff_toNat_lt.1 (of_decide_eq_true hlt)) (Nat.not_lt.2 (h b hb))

theorem asciiOf_encode (c : Char) : asciiOf (String.utf8EncodeChar c) = [c].filter (·.toNat < 0x80) := by
  by_cases h : c.toNat < 0x80
  · have hbyte : UInt8.ofNat c.toNat < 0x80 := UInt8.lt_iff_toNat_lt.2 (by rw [toNat_ofNat (by omega)]; exact h)
    have hchar : Char.ofUInt8 (UInt8.ofNat c.toNat) = c := by
      refine Char.ext (UInt32.toNat_inj.1 ?_)
      change (UInt8.ofNat c.toNat).toUInt32.toNat = c.toNat
      rw [UInt8.toNat_toUInt32, toNat_ofNat (by omega)]
    rw [encode_of_lt h, asciiOf]
    simp only [List.filter_cons, decide_eq_true hbyte, decide_eq_true h, if_true, List.filter_nil, List.map_cons, List.map_nil, hchar]
  · rw [asciiOf_eq_nil fun b hb => le_of_mem_encode (Nat.le_of_not_lt h) hb]
    simp [h]

/-- A byte that may not start a character is not ASCII. -/
theorem le_of_not_leading {b : UInt8} (h : isLeading b = false) : 0x80 ≤ b.toNat := by
  rw [isLeading_eq] at h
  have hb := of_decide_eq_false h
  omega

/-- A segment without a character has no ASCII byte: it would be its character. -/
theorem asciiOf_of_none {b : UInt8} {tail : List UInt8} (h : rune? (b :: tail) = none) (htail : ∀ b ∈ tail, isLeading b = false) :
    asciiOf (b :: tail) = [] := by
  refine asciiOf_eq_nil fun x hx => ?_
  rcases List.mem_cons.1 hx with rfl | hx
  · refine Nat.le_of_not_lt fun hlt => ?_
    have hchar : String.utf8EncodeChar (Char.ofUInt8 x) = [x] :=
      (encode_of_lt (c := Char.ofUInt8 x) hlt).trans (congrArg (List.cons · []) UInt8.ofNat_toNat)
    have hnoMark : String.utf8EncodeChar (Char.ofUInt8 x) <+: x :: tail := by
      rw [hchar]
      exact ⟨tail, rfl⟩
    rw [rune?_eq_some_iff.2 hnoMark] at h
    nomatch h
  · exact le_of_not_leading (htail x hx)

/-- What the segments give of ASCII is what there is of it. -/
theorem ascii_segments (bytes : List UInt8) : ((segments bytes).filterMap rune?).filter (·.toNat < 0x80) = asciiOf bytes := by
  induction hn : bytes.length using Nat.strongRecOn generalizing bytes with
  | ind n ih =>
    subst hn
    cases bytes with
    | nil =>
      rw [segments_nil]
      rfl
    | cons b bytes =>
      rcases hread : readScalar (b :: bytes) with ⟨_ | c, rest⟩
      · have hnone := rune?_segment b bytes (congrArg Prod.fst hread)
        have hascii := asciiOf_of_none hnone fun b hb => by simpa using List.all_eq_true.1 List.all_takeWhile b hb
        have hsplit : b :: bytes = (b :: bytes.takeWhile fun b => !isLeading b) ++ resync bytes :=
          congrArg (b :: ·) List.takeWhile_append_dropWhile.symm
        rw [segments_cons, List.filterMap_cons_none hnone, ih _ (Nat.lt_succ_of_le (length_resync_le bytes)) _ rfl, hsplit, asciiOf_append,
          hascii, List.nil_append]
      · have hshort : rest.length < (b :: bytes).length := length_lt_of_next (congrArg Prod.snd (next_cons_of_some hread))
        rw [eq_encode_of_readScalar hread, (segments_encode c rest).1, asciiOf_append, asciiOf_encode, ← ih _ hshort _ rfl]
        exact List.filter_append [c] _

end Utf8

end GoSyntax
