import GoSyntax.Proofs.Lexical.Quotes

/-!
# Strings denote their bytes

A string of items between double quotes is one token, and its value are the bytes that the items stand for; a string of which nothing is
reported is of this kind. Any other string ends where its content does as well, with the quote or in front of the end of the line, and
what is reported of it is what is refused of its bytes, an illegal escape for each pair that is none, and the missing quote. A raw string
ends with the next backquote, and its value are the bytes of its text without the carriage returns.
-/

namespace GoSyntax

open Undecoded (tokensFrom)

/-! ## Strings of items -/

theorem QuotedItem.flatMap_bytes {quote : Char} (ws : List (WrittenItem quote)) :
    (ws.map WrittenItem.item).flatMap bytes = ws.flatMap fun w => w.denotes.bytes := by
  rw [List.flatMap_map]
  exact List.flatMap_congr fun w _ => w.bytes_item

/-- A string of items is a literal of their bytes, and nothing is found in it. -/
theorem readsBefore_string (ws : List (WrittenItem '"')) :
    ReadsBefore (fun _ => True) (quoted '"' ws) (.string (ws.flatMap fun w => w.denotes.bytes)) [] := by
  have hreads : ReadsBefore (fun _ => True) (quoted '"' ws) (.string (ws.flatMap fun w => w.denotes.bytes))
      (([] : List Finding).map Finding.fault) := by
    refine readsBefore_of_read known_any (by decide) (fun rest _ => ?_) fun f hf => absurd hf List.not_mem_nil
    refine ⟨(ws.flatMap WrittenItem.text).length + 2, by rw [List.length_append]; exact Nat.le_refl _, ?_⟩
    rw [Lexeme.read_doubleQuote, Quoted.string, List.append_assoc, List.singleton_append, QuotedItem.read_closed (.inl rfl)]
    dsimp only
    rw [QuotedItem.flatMap_bytes, QuotedItem.findings_items, QuotedItem.totalWidth_items, List.length_append]
    rfl
  exact hreads

/-! ## Strings of any content -/

/-- The bytes start with a string of this value: it takes so many characters behind its first quote, and looks at so many of them, these
faults and what is refused of the bytes it looks at are reported with it, and the scan goes on behind it. -/
def StringAt (path : SourcePath) (more : List UInt8) (line : Nat) (armed atStart : Bool) (width seen : Nat) (value : List UInt8)
    (faults : List Fault) : Prop :=
  ∃ notes, tokensFrom armed ⟨path, 34 :: more, line, atStart⟩
      = (Feed.ofLexemes path true (((Feed.ofUndecoded ⟨path, more, line, false⟩).look seen).2.drop width)
          (lexemes ((Feed.ofUndecoded ⟨path, more, line, false⟩).chars.drop width))).cons ⟨⟨.literal (.string value), ⟨path, line⟩⟩, notes⟩
    ∧ notes.Perm (((Feed.ofUndecoded ⟨path, more, line, false⟩).look seen).1 ++ faults.map fun f => ⟨f, ⟨path, line⟩⟩)

variable {path : SourcePath} {more : List UInt8} {line : Nat} {content : List Char} {closed : Bool}

theorem ofUndecoded_doubleQuote (path : SourcePath) (more : List UInt8) (line : Nat) (atStart : Bool) :
    Feed.ofUndecoded ⟨path, 34 :: more, line, atStart⟩ = (Feed.ofUndecoded ⟨path, more, line, false⟩).cons ⟨⟨some '"', line⟩, []⟩ := by
  have hread : Utf8.readScalar (34 :: more) = (some '"', more) := rfl
  have hmark : (Utf8.next (34 :: more)).2.map Prod.fst ≠ some byteOrderMark := by
    rw [Utf8.next_cons_of_some hread]
    exact fun h => absurd (Option.some.inj h : '"' = byteOrderMark) (by decide)
  rw [Feed.ofUndecoded_atStart path hmark, Feed.ofUndecoded_of_read path hread]
  rfl

/-- What a string is as a lexeme, and how far its findings reach. -/
theorem Quoted.string_of_read {cs : List Char} {items : List QuotedItem} {closed : Bool} (h : QuotedItem.read '"' cs = (items, closed)) :
    string cs = lexeme (.string (items.flatMap QuotedItem.bytes)) (QuotedItem.totalWidth items) closed (QuotedItem.findings 1 items)
        (if closed then [] else [cutOff "string" (QuotedItem.totalWidth items)])
      ∧ (string cs).width ≤ (string cs).seen ∧ (∀ f ∈ (string cs).findings, f.seen ≤ (string cs).seen)
      ∧ (∀ f ∈ (string cs).findings, f.offset ≤ QuotedItem.totalWidth items + 1)
      ∧ (string cs).findings.map Finding.fault
        = List.replicate (QuotedItem.illegals items) .illegalEscape ++ if closed then [] else [.unterminatedLiteral "string"] := by
  have hlexeme : string cs = lexeme (.string (items.flatMap QuotedItem.bytes))
    (QuotedItem.totalWidth items) closed (QuotedItem.findings 1 items)
      (if closed then [] else [cutOff "string" (QuotedItem.totalWidth items)]) := by
    rw [string, h]
  have hends : ∀ f ∈ (if closed then [] else [cutOff "string" (QuotedItem.totalWidth items)]), f = cutOff "string" (QuotedItem.totalWidth items) := by
    intro f hf
    cases closed with
    | true => exact absurd hf List.not_mem_nil
    | false => exact List.mem_singleton.1 hf
  rw [hlexeme]
  refine ⟨rfl, ?_, fun f hf => ?_, fun f hf => ?_, ?_⟩
  · cases closed
    · exact Nat.le_succ _
    · exact Nat.le_refl _
  · rcases List.mem_append.1 hf with hf | hf
    · have hle := QuotedItem.seen_le_of_mem_findings (fun e he => QuotedItem.seen_le_of_mem_read (.inl rfl) (by rwa [h])) hf
      change f.seen ≤ QuotedItem.totalWidth items + 2
      omega
    · rw [hends f hf]
      exact Nat.le_refl _
  · rcases List.mem_append.1 hf with hf | hf
    · have hle := QuotedItem.offset_le_of_mem_findings hf
      omega
    · rw [hends f hf]
      exact Nat.zero_le _
  · change (_ ++ _ : List Finding).map _ = _
    rw [List.map_append, QuotedItem.faults_findings]
    cases closed <;> rfl

/-- What is found in a string is found on the line of its first quote. -/
theorem line_of_mem_findings {chars : List Char} {items : List QuotedItem} (hline : '\n' ∉ chars.take (QuotedItem.totalWidth items))
    {n : Nat}
    (hn : n ≤ QuotedItem.totalWidth items + 1) : (('"' :: chars).take n).count '\n' = 0 := by
  refine List.count_eq_zero_of_not_mem fun hmem => ?_
  have hmem : '\n' ∈ '"' :: chars.take (QuotedItem.totalWidth items) := List.take_subset_take_left _ hn hmem
  rcases List.mem_cons.1 hmem with heq | hmem
  · nomatch heq
  · exact hline hmem

theorem stringAt_of_read (armed atStart : Bool) {items : List QuotedItem} {closed : Bool}
    (hread : QuotedItem.read '"' (Feed.ofUndecoded ⟨path, more, line, false⟩).chars = (items, closed))
    (hline : '\n' ∉ (Feed.ofUndecoded ⟨path, more, line, false⟩).chars.take (QuotedItem.totalWidth items)) :
    StringAt path more line armed atStart (QuotedItem.totalWidth items + if closed then 1 else 0) (QuotedItem.totalWidth items + 1)
      (items.flatMap QuotedItem.bytes)
      (List.replicate (QuotedItem.illegals items) .illegalEscape ++ if closed then [] else [.unterminatedLiteral "string"]) := by
  have hfeed := ofUndecoded_doubleQuote path more line atStart
  have hlines := Feed.line_peek_ofUndecoded ⟨path, 34 :: more, line, atStart⟩
  rw [hfeed] at hlines
  unfold StringAt tokensFrom
  dsimp only
  rw [hfeed]
  generalize Feed.ofUndecoded ⟨path, more, line, false⟩ = behind at *
  have hchars : (behind.cons ⟨⟨some '"', line⟩, []⟩).chars = '"' :: behind.chars := rfl
  obtain ⟨hlexeme, hwidth, hseen, hoffset, hfaults⟩ := Quoted.string_of_read hread
  obtain ⟨hperm, hrest⟩ := Lexeme.take_perm_look path (behind.cons ⟨⟨some '"', line⟩, []⟩) hseen hwidth
  have hfound : (Quoted.string behind.chars).findings.map
      (fun f => (⟨f.fault, ⟨path, ((behind.cons ⟨⟨some '"', line⟩, []⟩).peek f.offset).line⟩⟩ : Diagnostic))
      = ((Quoted.string behind.chars).findings.map Finding.fault).map fun f => ⟨f, ⟨path, line⟩⟩ := by
    rw [List.map_map]
    refine List.map_congr_left fun f hf => ?_
    rw [hlines, hchars, line_of_mem_findings hline (hoffset f hf)]
    rfl
  rw [hfound, hfaults, hlexeme] at hperm
  rw [hchars, lexemes_cons, Lexeme.read_doubleQuote]
  refine ⟨_, ?_, hperm⟩
  rw [Feed.ofLexemes_token path armed _ (by rw [hlexeme]; rfl), hrest, hlexeme]
  cases closed <;> rfl

/-- Whatever stands behind a quote, a string ends in it where the content does, and each pair in it that is no escape is reported once. -/
theorem stringAt_of_extent (armed atStart : Bool) (h : Extent '"' (Feed.ofUndecoded ⟨path, more, line, false⟩).chars content closed) :
    ∃ value, StringAt path more line armed atStart (content.length + if closed then 1 else 0) (content.length + 1) value
      (List.replicate ((backslashed content).countP (Illegal '"' ·)) .illegalEscape
        ++ if closed then [] else [.unterminatedLiteral "string"]) := by
  obtain ⟨items, hread, hwidth, hcount⟩ := QuotedItem.read_extent (.inl rfl) h
  have hline := h.lineFeed_notMem
  rw [← hwidth] at hline
  have hstring := stringAt_of_read armed atStart hread hline
  rw [hwidth, hcount] at hstring
  exact ⟨_, hstring⟩

/-- A string of which nothing is reported is one of items. -/
theorem exists_quoted_of_notes (armed atStart : Bool) (h : (tokensFrom armed ⟨path, 34 :: more, line, atStart⟩).head.notes = []) :
    ∃ (ws : List (WrittenItem '"')) (rest : List UInt8), 34 :: more = Utf8.encode (quoted '"' ws) ++ rest := by
  obtain ⟨content, closed, hextent⟩ := exists_extent '"' (Feed.ofUndecoded ⟨path, more, line, false⟩).chars
  obtain ⟨items, hread, hwidth, -⟩ := QuotedItem.read_extent (.inl rfl) hextent
  have hline := hextent.lineFeed_notMem
  rw [← hwidth] at hline
  obtain ⟨notes, htokens, hperm⟩ := stringAt_of_read armed atStart hread hline
  rw [htokens] at h
  obtain rfl : notes = [] := h
  obtain ⟨hlook, hfaults⟩ := List.append_eq_nil_iff.1 hperm.nil_eq.symm
  obtain ⟨hillegal, hclosed⟩ := List.append_eq_nil_iff.1 (List.map_eq_nil_iff.1 hfaults)
  obtain rfl : closed = true := by
    cases closed with
    | true => rfl
    | false => nomatch hclosed
  have hlegal : ∀ i ∈ items, i.rune? ≠ none := by
    intro i hi hnone
    have hzero : QuotedItem.illegals items = 0 := (List.replicate_eq_nil_iff _).1 hillegal
    have hno := List.countP_eq_zero.1 hzero i hi
    rw [hnone] at hno
    exact hno rfl
  have hitems := congrArg Prod.fst hread
  obtain ⟨ws, rest, hsplit, hwritten, hquote⟩ := QuotedItem.exists_items (.inl rfl) (by rwa [hitems])
  obtain ⟨tail, rfl⟩ := hquote (congrArg Prod.snd hread)
  have hcount : QuotedItem.totalWidth items = (ws.flatMap WrittenItem.text).length := by
    rw [← QuotedItem.totalWidth_items, ← hwritten, hitems]
  have htake : (Feed.ofUndecoded ⟨path, more, line, false⟩).chars.take (QuotedItem.totalWidth items + 1)
      = ws.flatMap WrittenItem.text ++ ['"'] := by
    rw [hsplit, hcount, List.take_length_add_append]
    rfl
  obtain ⟨bytes, hbytes⟩ := Feed.exists_encode_of_look hlook (by rw [hsplit, hcount, List.length_append]; exact Nat.add_le_add_left (Nat.succ_le_succ (Nat.zero_le _)) _)
  rw [htake] at hbytes
  refine ⟨ws, bytes, ?_⟩
  rw [quoted, Utf8.encode_cons, hbytes, List.append_assoc]
  rfl

/-! ## Raw strings -/

theorem Lexeme.read_backquote (cs : List Char) : read '\x60' cs = Quoted.rawString cs := by
  have hstart : Identifier.isStart '\x60' = false := by decide +kernel
  simp [read, hstart, show isBlank '\x60' = false by decide, show Char.isDigit '\x60' = false by decide]

/-- The carriage return is the one character that has its byte. -/
theorem Utf8.encode_filter (text : List Char) : encode (text.filter (· != '\r')) = (encode text).filter (· != 13) := by
  induction text with
  | nil => rfl
  | cons c text ih =>
    rw [encode_cons, List.filter_append, ← ih]
    by_cases hc : c = '\r'
    · rw [hc]
      rfl
    · have hbytes : (String.utf8EncodeChar c).filter (· != 13) = String.utf8EncodeChar c := by
        refine List.filter_eq_self.2 fun b hb => ?_
        refine bne_iff_ne.2 ?_
        rintro rfl
        by_cases hascii : c.toNat < 0x80
        · rw [encode_of_lt hascii] at hb
          have hbyte := congrArg UInt8.toNat (List.mem_singleton.1 hb)
          rw [toNat_ofNat (by omega)] at hbyte
          exact hc (Char.toNat_inj.1 hbyte.symm)
        · exact absurd (le_of_mem_encode (Nat.le_of_not_lt hascii) hb) (by decide)
      rw [List.filter_cons_of_pos (by simpa using hc), encode_cons, hbytes]

/-- A raw string of a text is a literal of its bytes without the carriage returns, and nothing is found in it. -/
theorem readsBefore_rawString {text : List Char} (htext : '\x60' ∉ text) :
    ReadsBefore (fun _ => True) ('\x60' :: (text ++ ['\x60'])) (.string ((Utf8.encode text).filter (· != 13))) [] := by
  have hreads : ReadsBefore (fun _ => True) ('\x60' :: (text ++ ['\x60'])) (.string ((Utf8.encode text).filter (· != 13)))
      (([] : List Finding).map Finding.fault) := by
    refine readsBefore_of_read known_any (by decide) (fun rest _ => ?_) fun f hf => absurd hf List.not_mem_nil
    have hcontent : (text ++ '\x60' :: rest).takeWhile (· != '\x60') = text := by
      rw [List.takeWhile_append_of_pos, List.takeWhile_cons_of_neg (by decide), List.append_nil]
      intro c hc
      exact bne_iff_ne.2 fun h => htext (h ▸ hc)
    have hclosed : text.length < (text ++ '\x60' :: rest).length := by
      rw [List.length_append, List.length_cons]
      omega
    refine ⟨text.length + 2, by rw [List.length_append]; exact Nat.le_refl _, ?_⟩
    rw [Lexeme.read_backquote, List.append_assoc, List.singleton_append, Quoted.rawString, hcontent]
    have hlength : (text ++ ['\x60']).length = text.length + 1 := List.length_append
    rw [decide_eq_true hclosed, if_pos hclosed, Utf8.encode_filter, hlength]
    rfl
  exact hreads

/-! ## All strings -/

/-- Strings denote exactly their bytes. A string of items is one literal, of the bytes that the items stand for, with which nothing is
wrong, and a string with which nothing is wrong is one of items. Whatever stands behind a double quote, a content does, which ends in
front of the first quote that is no part of a pair or in front of the end of the line; the literal ends with that quote or there, and it
is reported of it once for each pair that begins no escape, and else only if no quote closes it. A raw string of a text denotes the bytes
of the text without the carriage returns. -/
theorem strings_exact :
    (∀ ws : List (WrittenItem '"'), ReadsBefore (fun _ => True) (quoted '"' ws) (.string (ws.flatMap fun w => w.denotes.bytes)) [])
      ∧ (∀ (path : SourcePath) (more : List UInt8) (line : Nat) (armed atStart : Bool),
        (tokensFrom armed ⟨path, 34 :: more, line, atStart⟩).head.notes = [] →
          ∃ (ws : List (WrittenItem '"')) (rest : List UInt8), 34 :: more = Utf8.encode (quoted '"' ws) ++ rest
            ∧ (tokensFrom armed ⟨path, 34 :: more, line, atStart⟩).head.value
              = ⟨.literal (.string (ws.flatMap fun w => w.denotes.bytes)), ⟨path, line⟩⟩)
      ∧ (∀ cs, ∃ content closed, Extent '"' cs content closed)
      ∧ (∀ (path : SourcePath) (more : List UInt8) (line : Nat) (armed atStart : Bool) (content : List Char) (closed : Bool),
        Extent '"' (Feed.ofUndecoded ⟨path, more, line, false⟩).chars content closed →
          ∃ value, StringAt path more line armed atStart (content.length + if closed then 1 else 0) (content.length + 1) value
            (List.replicate ((backslashed content).countP (Illegal '"' ·)) .illegalEscape
              ++ if closed then [] else [.unterminatedLiteral "string"]))
      ∧ ∀ text : List Char, '\x60' ∉ text →
        ReadsBefore (fun _ => True) ('\x60' :: (text ++ ['\x60'])) (.string ((Utf8.encode text).filter (· != 13))) [] := by
  refine ⟨readsBefore_string, ?_, exists_extent '"', fun _ _ _ armed atStart _ _ h => stringAt_of_extent armed atStart h,
    fun _ => readsBefore_rawString⟩
  intro path more line armed atStart h
  obtain ⟨ws, rest, hbytes⟩ := exists_quoted_of_notes armed atStart h
  refine ⟨ws, rest, hbytes, ?_⟩
  rw [hbytes, readsBefore_string ws path rest line armed atStart trivial]
  rfl

/-- `"\n"`, by its items and by its bytes, a string with an escape that is none and no closing quote, and a raw string. -/
theorem strings_exact_samples :
    (∃ ws : List (WrittenItem '"'), ReadsBefore (fun _ => True) ['"', '\\', 'n', '"'] (.string (ws.flatMap fun w => w.denotes.bytes)) []
        ∧ (ws.flatMap fun w => w.denotes.bytes) = [10])
      ∧ (∃ (ws : List (WrittenItem '"')) (rest : List UInt8), [34, 92, 110, 34] = Utf8.encode (quoted '"' ws) ++ rest
        ∧ (tokensFrom true ⟨⟨0, ""⟩, [34, 92, 110, 34], 1, false⟩).head.value = ⟨.literal (.string (ws.flatMap fun w => w.denotes.bytes)), ⟨⟨0, ""⟩, 1⟩⟩)
      ∧ (∃ value, StringAt ⟨0, ""⟩ [92, 113, 10] 1 true false 2 3 value [.illegalEscape, .unterminatedLiteral "string"])
      ∧ ReadsBefore (fun _ => True) ['\x60', '\r', 'a', '\x60'] (.string [97]) [] := by
  obtain ⟨hitems, hnotes, -, hextents, hraw⟩ := strings_exact
  have hescape := hitems [.escape ['n'] (.char '\n') (.letter (by simp [Escape.letters]))]
  refine ⟨⟨_, hescape, rfl⟩, hnotes ⟨0, ""⟩ [92, 110, 34] 1 true false (by decide +kernel), ?_, ?_⟩
  · have hextent : Extent '"' (Feed.ofUndecoded ⟨⟨0, ""⟩, [92, 113, 10], 1, false⟩).chars ['\\', 'q'] false := by
      have hchars : (Feed.ofUndecoded ⟨⟨0, ""⟩, [92, 113, 10], 1, false⟩).chars = ['\\', 'q'] ++ ['\n'] := by decide +kernel
      rw [hchars]
      exact .cut (.pair (by decide) .nil) fun a ha => (Option.some.inj ha).symm
    exact hextents ⟨0, ""⟩ [92, 113, 10] 1 true false ['\\', 'q'] false hextent
  · exact hraw ['\r', 'a'] (by decide)

end GoSyntax
