import GoSyntax.Proofs.Lexical.Escapes
import GoSyntax.Proofs.Lexical.Relexing

/-!
# What stands between quotes

The text between two quotes, written down by itself: the items of a literal with which nothing is wrong, and the content of any literal,
which goes up to the first quote that is no part of a pair of a backslash and a character, or up to the end of the line. Items are read as
they are written, and items that all stand for something are written ones. A content is read up to its end, since no escape takes more
than its pair and some digits, and every pair that is no escape is an item that stands for nothing.
-/

namespace GoSyntax

variable {quote : Char}

/-! ## Items with which nothing is wrong -/

namespace Escaped

/-- What a character or a byte adds to a string. -/
def bytes : Escaped → List UInt8
  | char c => String.utf8EncodeChar c
  | byte b => [b]

/-- The value of a rune, which says whether it was written as a byte. -/
def rune : Escaped → Constant
  | char c => .rune c.toNat false
  | byte b => .rune b.toNat true

end Escaped

/-- An item as it is written between quotes: a character that stands for itself, or an escape. -/
inductive WrittenItem (quote : Char) where
  | plain (c : Char) (hline : c ≠ '\n') (hquote : c ≠ quote) (hbackslash : c ≠ '\\')
  | escape (text : List Char) (v : Escaped) (h : IsEscape quote text v)

namespace WrittenItem

/-- The characters of an item. -/
def text : WrittenItem quote → List Char
  | plain c _ _ _ => [c]
  | escape text _ _ => '\\' :: text

/-- What an item stands for. -/
def denotes : WrittenItem quote → Escaped
  | plain c _ _ _ => .char c
  | escape _ v _ => v

/-- The item as it is read. -/
def item : WrittenItem quote → QuotedItem
  | plain c _ _ _ => .plain c
  | escape text v _ => .escape ⟨some v, text.length, text.length⟩

theorem bytes_item (w : WrittenItem quote) : w.item.bytes = w.denotes.bytes := by
  cases w with
  | plain => rfl
  | escape text v h => cases v <;> rfl

theorem isNone_item (w : WrittenItem quote) : w.item.rune?.isNone = false := by
  cases w with
  | plain => rfl
  | escape text v h => cases v <;> rfl

theorem width_item (w : WrittenItem quote) : w.item.width = w.text.length := by
  cases w <;> rfl

theorem lineFeed_notMem_text (hq : IsQuote quote) (w : WrittenItem quote) : '\n' ∉ w.text := by
  cases w with
  | plain c hline =>
    intro hmem
    exact hline (List.mem_singleton.1 hmem).symm
  | escape text v h =>
    intro hmem
    rcases List.mem_cons.1 hmem with heq | hmem
    · nomatch heq
    · exact h.lineFeed_notMem hq hmem

end WrittenItem

/-- The line ends here: a line feed comes next, or nothing does. -/
def EndsLine (rest : List Char) : Prop := ∀ a ∈ rest.head?, a = '\n'

theorem EndsLine.noDigit {rest : List Char} (h : EndsLine rest) : NoDigit rest := fun a ha => by
  obtain rfl := h a ha
  decide

/-- Items between quotes. -/
def quoted (quote : Char) (ws : List (WrittenItem quote)) : List Char := quote :: (ws.flatMap WrittenItem.text ++ [quote])

namespace QuotedItem

theorem read_plain {c : Char} (hline : c ≠ '\n') (hquote : c ≠ quote) (hbackslash : c ≠ '\\') (cs : List Char) :
    read quote (c :: cs) = (plain c :: (read quote cs).1, (read quote cs).2) := by
  rw [read, if_neg hline, if_neg hquote, if_neg hbackslash]

theorem read_item (hq : IsQuote quote) (w : WrittenItem quote) (rest : List Char) :
    read quote (w.text ++ rest) = (w.item :: (read quote rest).1, (read quote rest).2) := by
  cases w with
  | plain c hline hquote hbackslash => exact read_plain hline hquote hbackslash rest
  | escape text v h =>
    rw [WrittenItem.text, List.cons_append, read_escape hq.ne_backslash, Escape.read_of_isEscape hq h, List.drop_left]
    rfl

/-- Items are read as they are written, and what stands behind them is read as if it stood alone. -/
theorem read_items (hq : IsQuote quote) (ws : List (WrittenItem quote)) (rest : List Char) :
    read quote (ws.flatMap WrittenItem.text ++ rest) = (ws.map WrittenItem.item ++ (read quote rest).1, (read quote rest).2) := by
  induction ws with
  | nil => rfl
  | cons w ws ih =>
    rw [List.flatMap_cons, List.append_assoc, read_item hq, ih]
    rfl

theorem read_closed (hq : IsQuote quote) (ws : List (WrittenItem quote)) (rest : List Char) :
    read quote (ws.flatMap WrittenItem.text ++ quote :: rest) = (ws.map WrittenItem.item, true) := by
  rw [read_items hq, read_quote hq.ne_lineFeed, List.append_nil]

/-- The end of the line ends what stands between quotes. -/
theorem read_endsLine {rest : List Char} (h : EndsLine rest) : read quote rest = ([], false) := by
  cases rest with
  | nil => rw [read]
  | cons c rest =>
    obtain rfl : c = '\n' := h c rfl
    rw [read, if_pos rfl]

theorem read_cut (hq : IsQuote quote) (ws : List (WrittenItem quote)) {rest : List Char} (hrest : EndsLine rest) :
    read quote (ws.flatMap WrittenItem.text ++ rest) = (ws.map WrittenItem.item, false) := by
  rw [read_items hq, read_endsLine hrest, List.append_nil]

theorem totalWidth_items (ws : List (WrittenItem quote)) : totalWidth (ws.map WrittenItem.item) = (ws.flatMap WrittenItem.text).length := by
  induction ws with
  | nil => rfl
  | cons w ws ih =>
    rw [List.flatMap_cons, List.length_append, ← w.width_item, ← ih]
    rfl

theorem findings_items (n : Nat) (ws : List (WrittenItem quote)) : findings n (ws.map WrittenItem.item) = [] := by
  induction ws generalizing n with
  | nil => rfl
  | cons w ws ih => cases w <;> exact ih _

/-- Items that all stand for something are written ones. -/
theorem exists_items (hq : IsQuote quote) {cs : List Char} (h : ∀ i ∈ (read quote cs).1, i.rune? ≠ none) : ∃ (ws : List (WrittenItem quote))
    (rest : List Char), cs = ws.flatMap WrittenItem.text ++ rest ∧ (read quote cs).1 = ws.map WrittenItem.item
      ∧ ((read quote cs).2 = true → ∃ more, rest = quote :: more) := by
  fun_induction read quote cs with
  | case1 => exact ⟨[], [], rfl, rfl, fun hno => absurd hno Bool.false_ne_true⟩
  | case2 cs => exact ⟨[], _, rfl, rfl, fun hno => absurd hno Bool.false_ne_true⟩
  | case3 cs hline => exact ⟨[], _, rfl, rfl, fun _ => ⟨cs, rfl⟩⟩
  | case4 cs e items closed hitems hbackslash hquote ih =>
    obtain ⟨hhead, htail⟩ := List.forall_mem_cons.1 h
    cases hvalue : e.value with
    | none =>
      obtain ⟨value, width, seen⟩ := e
      obtain rfl : value = none := hvalue
      exact absurd rfl hhead
    | some v =>
      obtain ⟨text, ⟨tail, hcs⟩, hescape⟩ := Escape.exists_isEscape hq hvalue
      have hread : e = ⟨some v, text.length, text.length⟩ := by
        rw [← Escape.read_of_isEscape hq hescape tail, hcs]
      have hdrop : cs.drop e.width = tail := by
        rw [hread, ← hcs, List.drop_left]
      rw [hitems] at ih
      obtain ⟨ws, rest, hsplit, hmap, hclosed⟩ := ih htail
      refine ⟨.escape text v hescape :: ws, rest, ?_, ?_, hclosed⟩
      · rw [← hcs, ← hdrop, hsplit, List.flatMap_cons, List.append_assoc]
        rfl
      · rw [hread, List.map_cons, ← hmap]
        rfl
  | case5 c cs hline hquote hbackslash items closed hitems ih =>
    rw [hitems] at ih
    obtain ⟨ws, rest, hsplit, hmap, hclosed⟩ := ih (List.forall_mem_cons.1 h).2
    refine ⟨.plain c hline hquote hbackslash :: ws, rest, ?_, ?_, hclosed⟩
    · rw [hsplit]
      rfl
    · rw [List.map_cons, ← hmap]
      rfl

theorem rune?_isNone_iff {e : Escape} : (escape e).rune?.isNone = true ↔ e.value = none := by
  obtain ⟨_ | v, width, seen⟩ := e
  · exact ⟨fun _ => rfl, fun _ => rfl⟩
  · refine ⟨fun h => ?_, nofun⟩
    cases v <;> exact absurd h Bool.false_ne_true

theorem totalWidth_append (items items' : List QuotedItem) : totalWidth (items ++ items') = totalWidth items + totalWidth items' := by
  induction items with
  | nil => exact (Nat.zero_add _).symm
  | cons item items ih =>
    have htotal : ∀ item items, totalWidth (item :: items) = item.width + totalWidth items := fun _ _ => rfl
    rw [List.cons_append, htotal, htotal, ih, Nat.add_assoc]

/-! ## What is found -/

/-- The items that stand for nothing. -/
def illegals (items : List QuotedItem) : Nat := items.countP fun i => i.rune?.isNone

theorem illegals_cons (item : QuotedItem) (items : List QuotedItem) :
    illegals (item :: items) = illegals items + if item.rune?.isNone then 1 else 0 := List.countP_cons

theorem illegals_append (items items' : List QuotedItem) : illegals (items ++ items') = illegals items + illegals items' :=
  List.countP_append

/-- What is found between quotes are illegal escapes, one for each item that stands for nothing. -/
theorem faults_findings (n : Nat) (items : List QuotedItem) :
    (findings n items).map Finding.fault = List.replicate (illegals items) .illegalEscape := by
  fun_induction findings n items with
  | case1 => rfl
  | case2 n width seen items ih =>
    rw [List.map_cons, ih, illegals_cons]
    rfl
  | case3 n item items hitem ih =>
    have hrune : ¬item.rune?.isNone = true := by
      cases item with
      | plain => exact Bool.false_ne_true
      | escape e =>
        obtain ⟨_ | v, width, seen⟩ := e
        · exact absurd rfl (hitem width seen)
        · cases v <;> exact Bool.false_ne_true
    rw [ih, illegals_cons, if_neg hrune, Nat.add_zero]

/-- An escape looks at one character more than it takes, at most. -/
theorem seen_le_of_mem_read (hq : IsQuote quote) {cs : List Char} {e : Escape} (h : escape e ∈ (read quote cs).1) :
    e.seen ≤ e.width + 1 := by
  fun_induction read quote cs with
  | case1 => exact absurd h List.not_mem_nil
  | case2 => exact absurd h List.not_mem_nil
  | case3 => exact absurd h List.not_mem_nil
  | case4 cs e' items closed hitems hbackslash hquote ih =>
    rw [hitems] at ih
    rcases List.mem_cons.1 h with heq | h
    · obtain rfl := QuotedItem.escape.inj heq
      exact Escape.seen_le hq cs
    · exact ih h
  | case5 c cs hline hquote hbackslash items closed hitems ih =>
    rw [hitems] at ih
    rcases List.mem_cons.1 h with heq | h
    · cases heq
    · exact ih h

theorem seen_le_of_mem_findings {n : Nat} {items : List QuotedItem} (hitems : ∀ e, escape e ∈ items → e.seen ≤ e.width + 1) {f : Finding}
    (h : f ∈ findings n items) : f.seen ≤ n + totalWidth items + 1 := by
  have htotal : ∀ item items, totalWidth (item :: items) = item.width + totalWidth items := fun _ _ => rfl
  fun_induction findings n items with
  | case1 => exact absurd h List.not_mem_nil
  | case2 n width seen items ih =>
    have hseen : seen ≤ width + 1 := hitems _ List.mem_cons_self
    rw [htotal, QuotedItem.width]
    rcases List.mem_cons.1 h with rfl | h
    · dsimp only
      omega
    · have := ih (fun e he => hitems e (List.mem_cons_of_mem _ he)) h
      dsimp only
      omega
  | case3 n item items hitem ih =>
    rw [htotal]
    have := ih (fun e he => hitems e (List.mem_cons_of_mem _ he)) h
    omega

end QuotedItem

/-! ## Where a literal ends -/

/-- No quote, but behind a backslash, no line feed, and no backslash with nothing behind it. -/
inductive Enclosed (quote : Char) : List Char → Prop
  | nil : Enclosed quote []
  | plain {c : Char} {cs : List Char} (hline : c ≠ '\n') (hquote : c ≠ quote) (hbackslash : c ≠ '\\') (h : Enclosed quote cs) :
    Enclosed quote (c :: cs)
  | pair {c : Char} {cs : List Char} (hline : c ≠ '\n') (h : Enclosed quote cs) : Enclosed quote ('\\' :: c :: cs)

/-- The text behind each backslash, but for a backslash behind a backslash. -/
def backslashed : List Char → List (List Char)
  | [] => []
  | ['\\'] => [[]]
  | '\\' :: c :: cs => (c :: cs) :: backslashed cs
  | _ :: cs => backslashed cs

/-- In a text that stands behind a quote the literal has this content, and either the next quote closes it, or it is cut off. -/
inductive Extent (quote : Char) : List Char → List Char → Bool → Prop
  | closed {content : List Char} (h : Enclosed quote content) (rest : List Char) : Extent quote (content ++ quote :: rest) content true
  | cut {content rest : List Char} (h : Enclosed quote content) (hrest : EndsLine rest) : Extent quote (content ++ rest) content false
  | cutPair {content rest : List Char} (h : Enclosed quote content) (hrest : EndsLine rest) :
    Extent quote (content ++ '\\' :: rest) (content ++ ['\\']) false

theorem Enclosed.lineFeed_notMem {content : List Char} (h : Enclosed quote content) : '\n' ∉ content := by
  induction h with
  | nil => exact List.not_mem_nil
  | plain hline _ _ _ ih => exact List.not_mem_cons_of_ne_of_not_mem hline.symm ih
  | pair hline _ ih => exact List.not_mem_cons_of_ne_of_not_mem (by decide) (List.not_mem_cons_of_ne_of_not_mem hline.symm ih)

namespace Extent

theorem plain {c : Char} {cs content : List Char} {closed : Bool} (hline : c ≠ '\n') (hquote : c ≠ quote) (hbackslash : c ≠ '\\')
    (h : Extent quote cs content closed) : Extent quote (c :: cs) (c :: content) closed := by
  cases h with
  | closed h rest => exact .closed (.plain hline hquote hbackslash h) rest
  | cut h hrest => exact .cut (.plain hline hquote hbackslash h) hrest
  | cutPair h hrest => exact .cutPair (.plain hline hquote hbackslash h) hrest

theorem pair {c : Char} {cs content : List Char} {closed : Bool} (hline : c ≠ '\n') (h : Extent quote cs content closed) :
    Extent quote ('\\' :: c :: cs) ('\\' :: c :: content) closed := by
  cases h with
  | closed h rest => exact .closed (.pair hline h) rest
  | cut h hrest => exact .cut (.pair hline h) hrest
  | cutPair h hrest => exact .cutPair (.pair hline h) hrest

/-- A literal does not go beyond its line. -/
theorem lineFeed_notMem {cs content : List Char} {closed : Bool} (h : Extent quote cs content closed) : '\n' ∉ cs.take content.length := by
  cases h with
  | closed h rest =>
    rw [List.take_left]
    exact h.lineFeed_notMem
  | cut h =>
    rw [List.take_left]
    exact h.lineFeed_notMem
  | @cutPair content rest h =>
    have hsplit : content ++ '\\' :: rest = content ++ ['\\'] ++ rest := by rw [List.append_assoc, List.singleton_append]
    rw [hsplit, List.take_left]
    intro hmem
    rcases List.mem_append.1 hmem with hmem | hmem
    · exact h.lineFeed_notMem hmem
    · nomatch List.mem_singleton.1 hmem

end Extent

/-- Whatever stands behind a quote, a literal ends in it. -/
theorem exists_extent (quote : Char) (cs : List Char) : ∃ content closed, Extent quote cs content closed := by
  fun_induction backslashed cs with
  | case1 => exact ⟨[], false, .cut .nil nofun⟩
  | case2 => exact ⟨['\\'], false, .cutPair .nil nofun⟩
  | case3 c cs ih =>
    by_cases hline : c = '\n'
    · refine ⟨['\\'], false, .cutPair .nil fun a ha => ?_⟩
      rw [← hline]
      exact (Option.some.inj ha).symm
    · obtain ⟨content, closed, h⟩ := ih
      exact ⟨_, closed, h.pair hline⟩
  | case4 c cs hsingle hpair ih =>
    by_cases hline : c = '\n'
    · refine ⟨[], false, .cut .nil fun a ha => ?_⟩
      rw [← hline]
      exact (Option.some.inj ha).symm
    · by_cases hquote : c = quote
      · rw [hquote]
        exact ⟨[], true, .closed .nil cs⟩
      · have hbackslash : c ≠ '\\' := by
          rintro rfl
          cases cs with
          | nil => exact hsingle rfl rfl
          | cons d cs => exact hpair d cs rfl rfl
        obtain ⟨content, closed, h⟩ := ih
        exact ⟨_, closed, h.plain hline hquote hbackslash⟩

theorem backslashed_cons_of_ne {c : Char} (hc : c ≠ '\\') (cs : List Char) : backslashed (c :: cs) = backslashed cs := by
  rw [backslashed]
  · exact fun h => absurd h hc
  · exact fun _ _ h => absurd h hc

/-- Digits are no part of a pair. -/
theorem Enclosed.behind_digits {ds cs : List Char} (hds : ∀ d ∈ ds, isDigitOf 16 d = true) (h : Enclosed quote (ds ++ cs)) :
    Enclosed quote cs ∧ backslashed (ds ++ cs) = backslashed cs := by
  induction ds with
  | nil => exact ⟨h, rfl⟩
  | cons d ds ih =>
    obtain ⟨hd, hds⟩ := List.forall_mem_cons.1 hds
    have hbackslash : d ≠ '\\' := by
      rintro rfl
      exact absurd hd (by decide)
    have htail : Enclosed quote (ds ++ cs) := by
      rw [List.cons_append] at h
      generalize ds ++ cs = more at h
      cases h with
      | plain _ _ _ h => exact h
      | pair => exact absurd rfl hbackslash
    obtain ⟨hrest, heq⟩ := ih hds htail
    exact ⟨hrest, (backslashed_cons_of_ne hbackslash _).trans heq⟩

variable [DecidablePred (Illegal quote)]

/-- A backslash with nothing behind it begins one more illegal escape, and the others are not changed by it. -/
theorem Enclosed.countP_concat {content : List Char} (h : Enclosed quote content) :
    (backslashed (content ++ ['\\'])).countP (Illegal quote ·) = (backslashed content).countP (Illegal quote ·) + 1 := by
  induction h with
  | nil =>
    have hlone : backslashed ([] ++ ['\\']) = [[]] := rfl
    rw [hlone, List.countP_cons, if_pos (decide_eq_true (illegal_nil quote))]
    rfl
  | plain _ _ hbackslash _ ih => rw [List.cons_append, backslashed_cons_of_ne hbackslash, backslashed_cons_of_ne hbackslash, ih]
  | @pair c cs hline _ ih =>
    have hno : NoDigit ['\\'] := fun a ha => by
      obtain rfl := Option.some.inj ha
      decide
    have hsame : Illegal quote (c :: (cs ++ ['\\'])) ↔ Illegal quote (c :: cs) := illegal_append_iff hno
    rw [List.cons_append, List.cons_append, backslashed, backslashed, List.countP_cons, List.countP_cons, ih]
    simp only [hsame]
    omega

namespace QuotedItem

/-- Content is read up to its end, and what stands behind it is read as if it stood alone. -/
theorem read_enclosed (hq : IsQuote quote) {content rest : List Char} (h : Enclosed quote content) (hrest : NoDigit rest) : ∃ items,
    read quote (content ++ rest) = (items ++ (read quote rest).1, (read quote rest).2) ∧ totalWidth items = content.length
      ∧ illegals items = (backslashed content).countP (Illegal quote ·) := by
  induction hlength : content.length using Nat.strongRecOn generalizing content with
  | ind n ih =>
    cases h with
    | nil => exact ⟨[], rfl, hlength, rfl⟩
    | @plain c cs hline hquote hbackslash h =>
      obtain ⟨items, hread, hwidth, hcount⟩ := ih cs.length (by rw [← hlength]; exact Nat.lt_succ_self _) h rfl
      refine ⟨QuotedItem.plain c :: items, ?_, ?_, ?_⟩
      · rw [List.cons_append, read_plain hline hquote hbackslash, hread]
        rfl
      · rw [← hlength, List.length_cons, ← hwidth, Nat.add_comm]
        rfl
      · rw [backslashed_cons_of_ne hbackslash, ← hcount]
        rfl
    | @pair c cs hline h =>
      obtain ⟨ds, more, hsplit, hds, htaken, -⟩ := Escape.exists_taken hq hline (cs ++ rest)
      obtain ⟨cs', rfl, rfl⟩ := exists_of_append_eq hsplit hrest hds
      have hshort : cs'.length < n := by
        rw [← hlength, List.length_cons, List.length_cons, List.length_append]
        omega
      obtain ⟨henclosed, hbehind⟩ := h.behind_digits hds
      obtain ⟨items, hread, hwidth, hcount⟩ := ih cs'.length hshort henclosed rfl
      have hdrop : (c :: (ds ++ cs' ++ rest)).drop (ds.length + 1) = cs' ++ rest := by
        rw [List.drop_succ_cons, List.append_assoc, List.drop_left]
      refine ⟨escape (Escape.read quote (c :: (ds ++ cs' ++ rest))) :: items, ?_, ?_, ?_⟩
      · rw [List.cons_append, List.cons_append, read_escape hq.ne_backslash, htaken, hdrop, hread]
        rfl
      · have htotal : totalWidth (escape (Escape.read quote (c :: (ds ++ cs' ++ rest))) :: items) = ds.length + 1 + 1 + totalWidth items :=
          congrArg (· + 1 + totalWidth items) htaken
        rw [htotal, hwidth, ← hlength, List.length_cons, List.length_cons, List.length_append]
        omega
      · have hillegal : Illegal quote (c :: (ds ++ cs')) ↔ (escape (Escape.read quote (c :: (ds ++ cs' ++ rest)))).rune?.isNone = true := by
          rw [rune?_isNone_iff, Escape.value_eq_none_iff hq]
          exact (illegal_append_iff hrest).symm
        rw [illegals, List.countP_cons, backslashed, List.countP_cons, hbehind, ← hcount]
        simp only [hillegal, decide_eq_true_eq]
        rfl

/-- A literal is read up to its end, and each pair that is no escape is an item that stands for nothing. -/
theorem read_extent (hq : IsQuote quote) {cs content : List Char} {closed : Bool} (h : Extent quote cs content closed) : ∃ items,
    read quote cs = (items, closed) ∧ totalWidth items = content.length
    ∧ illegals items = (backslashed content).countP (Illegal quote ·) := by
  cases h with
  | closed h rest =>
    have hno : NoDigit (quote :: rest) := fun a ha => by
      obtain rfl := Option.some.inj ha
      exact hq.isDigitOf
    obtain ⟨items, hread, hwidth, hcount⟩ := read_enclosed hq h hno
    rw [read_quote hq.ne_lineFeed, List.append_nil] at hread
    exact ⟨items, hread, hwidth, hcount⟩
  | @cut _ rest h hrest =>
    obtain ⟨items, hread, hwidth, hcount⟩ := read_enclosed hq h hrest.noDigit
    rw [read_endsLine hrest, List.append_nil] at hread
    exact ⟨items, hread, hwidth, hcount⟩
  | @cutPair content rest h hrest =>
    have hno : NoDigit ('\\' :: rest) := fun a ha => by
      obtain rfl := Option.some.inj ha
      decide
    obtain ⟨items, hread, hwidth, hcount⟩ := read_enclosed hq h hno
    have hescape : Escape.read quote rest = ⟨none, 0, 1⟩ := by
      cases rest with
      | nil => rfl
      | cons c rest =>
        obtain rfl : c = '\n' := hrest c rfl
        rw [Escape.read, if_pos rfl]
    rw [read_escape hq.ne_backslash, hescape, List.drop_zero, read_endsLine hrest] at hread
    refine ⟨items ++ [escape ⟨none, 0, 1⟩], hread, ?_, ?_⟩
    · rw [totalWidth_append, hwidth, List.length_append]
      rfl
    · rw [illegals_append, h.countP_concat, hcount]
      rfl

end QuotedItem

end GoSyntax
