import GoSyntax.Proofs.Lexical.Relexing

/-!
# Scanning undoes printing

The tokens of a source can be printed: each is written out, and between two neighbours stand blanks and comments, a blank first. Scanning
the print gives the same kinds of token, with the same names and values, and reports nothing, whatever was reported of the source. No two
tokens are glued together, since there is a blank behind each; none is cut; and no `;` is put in, since the print has no line break and
its last token is none at which a line can end.
-/

namespace GoSyntax

/-- Blanks and comments, each closed and within its line. -/
inductive Gap : List Char → Prop
  | nil : Gap []
  | blank {a : Char} {cs : List Char} (ha : isBlank a = true) (hcs : Gap cs) : Gap (a :: cs)
  | comment {body cs : List Char} (hclosed : ¬['*', '/'] <:+: body) (hline : '\n' ∉ body) (hcs : Gap cs) :
    Gap ('/' :: '*' :: (body ++ '*' :: '/' :: cs))

/-- The lexemes of a text make these tokens; nothing is found in them, and no line ends. -/
structure ScansTo (cs : List Char) (kinds : List TokenKind) : Prop where
  kinds : (lexemes cs).filterMap (Lexeme.token? false) = kinds
  quiet : ∀ l ∈ lexemes cs, l.findings = [] ∧ l.kind.breaksLine = false

namespace ScansTo

variable {cs : List Char} {kinds : List TokenKind}

theorem nil : ScansTo [] [] := by
  constructor
  · rw [lexemes_nil]
    rfl
  · rw [lexemes_nil]
    nofun

/-- A lexeme in front. -/
theorem cons {c : Char} {more : List Char} {l : Lexeme} (hread : Lexeme.read c (more ++ cs) = l) (hmore : l.more = more.length)
    (hquiet : l.findings = [] ∧ l.kind.breaksLine = false) (h : ScansTo cs kinds) :
    ScansTo (c :: (more ++ cs)) ((l.token? false).toList ++ kinds) := by
  have hlexemes : lexemes (c :: (more ++ cs)) = l :: lexemes cs := by rw [lexemes_cons, hread, hmore, List.drop_left]
  constructor
  · rw [hlexemes, List.filterMap_cons, h.kinds]
    cases l.token? false <;> rfl
  · rw [hlexemes]
    exact List.forall_mem_cons.2 ⟨hquiet, h.quiet⟩

theorem token {sp : List Char} {kind : TokenKind} (hsp : ReadsAs sp kind) (hcs : Bounded cs) (h : ScansTo cs kinds) :
    ScansTo (sp ++ cs) (kind :: kinds) := by
  obtain ⟨c, more, rfl, hread⟩ := hsp
  obtain ⟨seen, hread⟩ := hread cs hcs
  exact cons hread rfl ⟨rfl, rfl⟩ h

/-- A run of blanks is one lexeme. -/
theorem lexemes_blank {a : Char} (ha : isBlank a = true) (cs : List Char) :
    lexemes (a :: cs) = Lexeme.blanks cs :: lexemes (cs.dropWhile isBlank) := by
  have hread : Lexeme.read a cs = Lexeme.blanks cs := by
    rcases isBlank_cases ha with rfl | rfl | rfl <;> rfl
  have hdrop : cs.drop (cs.takeWhile isBlank).length = cs.dropWhile isBlank := by
    have hsplit := List.takeWhile_append_dropWhile (p := isBlank) (l := cs)
    calc cs.drop (cs.takeWhile isBlank).length
        = (cs.takeWhile isBlank ++ cs.dropWhile isBlank).drop (cs.takeWhile isBlank).length := by rw [hsplit]
      _ = cs.dropWhile isBlank := List.drop_left
  rw [lexemes_cons, hread, ← hdrop]
  rfl

theorem dropBlanks (h : ScansTo cs kinds) : ScansTo (cs.dropWhile isBlank) kinds := by
  cases cs with
  | nil => exact h
  | cons a cs =>
    cases ha : isBlank a with
    | false => rwa [List.dropWhile_cons_of_neg (by rw [ha]; exact Bool.false_ne_true)]
    | true =>
      obtain ⟨hkinds, hquiet⟩ := h
      rw [lexemes_blank ha] at hkinds hquiet
      rw [List.dropWhile_cons_of_pos ha]
      exact ⟨hkinds, fun l hl => hquiet l (List.mem_cons_of_mem _ hl)⟩

theorem blank {a : Char} (ha : isBlank a = true) (h : ScansTo cs kinds) : ScansTo (a :: cs) kinds := by
  obtain ⟨hkinds, hquiet⟩ := h.dropBlanks
  constructor
  · rw [lexemes_blank ha]
    exact hkinds
  · rw [lexemes_blank ha]
    exact List.forall_mem_cons.2 ⟨⟨rfl, rfl⟩, hquiet⟩

/-- A comment ends where it is closed first. -/
theorem toCommentEnd?_closed {body : List Char} (hclosed : ¬['*', '/'] <:+: body) (cs : List Char) :
    Lexeme.toCommentEnd? (body ++ '*' :: '/' :: cs) = some (body.length + 2) := by
  induction body with
  | nil => rfl
  | cons c body ih =>
    have hrest := ih fun hwithin => hclosed (hwithin.trans (List.suffix_cons c body).isInfix)
    rw [List.cons_append, Lexeme.toCommentEnd?, hrest]
    · rfl
    · rintro rest rfl hslash
      cases body with
      | nil => cases hslash
      | cons d body =>
        obtain rfl : d = '/' := (List.cons.inj hslash).1
        exact hclosed ⟨[], body, rfl⟩

theorem comment {body : List Char} (hclosed : ¬['*', '/'] <:+: body) (hline : '\n' ∉ body) (h : ScansTo cs kinds) :
    ScansTo ('/' :: '*' :: (body ++ '*' :: '/' :: cs)) kinds := by
  have hline : ((body ++ '*' :: '/' :: cs).take (body.length + 2)).contains '\n' = false := by
    have htake : (body ++ '*' :: '/' :: cs).take (body.length + 2) = body ++ ['*', '/'] := by
      rw [List.take_length_add_append]
      rfl
    rw [htake]
    simpa using hline
  have hread : Lexeme.read '/' ('*' :: (body ++ '*' :: '/' :: cs)) = ⟨.comment false, body.length + 3, body.length + 4, []⟩ := by
    change Lexeme.blockComment (body ++ '*' :: '/' :: cs) = _
    rw [Lexeme.blockComment, toCommentEnd?_closed hclosed]
    simp only [hline]
  have hread : Lexeme.read '/' ('*' :: (body ++ ['*', '/']) ++ cs) = ⟨.comment false, body.length + 3, body.length + 4, []⟩ := by
    simpa using hread
  have hreads := h.cons hread (by simp) ⟨rfl, rfl⟩
  simpa [Lexeme.token?] using hreads

theorem gap {gap : List Char} (hgap : Gap gap) (h : ScansTo cs kinds) : ScansTo (gap ++ cs) kinds := by
  induction hgap with
  | nil => exact h
  | blank ha _ ih => exact ih.blank ha
  | comment hclosed hline _ ih =>
    have := ih.comment hclosed hline
    simpa using this

end ScansTo

/-- All tokens of a scan, the end of the input apart, have what its lexemes' kinds have, and a `;` has. -/
theorem Feed.forall_kind_ofLexemes {P : TokenKind → Prop} (path : SourcePath) (hsemicolon : P (.punctuation .semicolon)) {ls : List Lexeme}
    (hls : ∀ l ∈ ls, ∀ kind, l.kind = .token kind → P kind) (armed : Bool) (text : Feed Place) :
    ∀ t ∈ (ofLexemes path armed text ls).items.map Noted.value, P t.kind := by
  induction ls generalizing armed text with
  | nil =>
    cases armed with
    | true => exact fun t ht => List.mem_singleton.1 ht ▸ hsemicolon
    | false => exact fun t ht => nomatch ht
  | cons l ls ih =>
    have ih := fun armed text => ih (fun l' hl' => hls l' (List.mem_cons_of_mem l hl')) armed text
    simp only [ofLexemes]
    split
    · next kind hkind =>
      refine List.forall_mem_cons.2 ⟨?_, ih _ _⟩
      cases hl : l.kind <;> grind [Lexeme.token?]
    · rw [map_value_noteFirst]
      exact ih _ _

/-- The kinds of the tokens at the end of the input: a `;` if a line could end there, and the end itself. -/
def lastKinds (ends : Bool) : List TokenKind := if ends then [.punctuation .semicolon, .eof] else [.eof]

/-- If no line ends, the tokens of a scan are those its lexemes make, and a `;` behind the last of them if a line could end there. -/
theorem Feed.kinds_ofLexemes (path : SourcePath) {ls : List Lexeme} (hls : ∀ l ∈ ls, l.kind.breaksLine = false) (armed : Bool)
    (text : Feed Place)
    {ends : Bool} (hlast : (armed :: (ls.filterMap (Lexeme.token? false)).map TokenKind.endsStatement).getLast? = some ends) :
    (ofLexemes path armed text ls).values.map Token.kind = ls.filterMap (Lexeme.token? false) ++ lastKinds ends := by
  induction ls generalizing armed text with
  | nil =>
    obtain rfl : armed = ends := Option.some.inj hlast
    cases armed <;> rfl
  | cons l ls ih =>
    have ih := fun armed text => ih (fun l' hl' => hls l' (List.mem_cons_of_mem l hl')) armed text
    have hsame : l.token? armed = l.token? false := by
      have := hls l List.mem_cons_self
      cases armed <;> cases hl : l.kind <;> grind [Lexeme.token?, LexemeKind.breaksLine]
    simp only [ofLexemes, hsame]
    split
    · next kind hkind =>
      rw [List.filterMap_cons_some hkind, List.map_cons, List.getLast?_cons_cons] at hlast
      rw [values_cons, List.map_cons, List.filterMap_cons_some hkind, ih _ _ hlast]
      rfl
    · next hkind =>
      rw [List.filterMap_cons_none hkind] at hlast
      rw [values_noteFirst, List.filterMap_cons_none hkind, ih _ _ hlast]

/-- A byte order mark is no part of a token. -/
theorem Lexeme.findings_mark (cs : List Char) : (read byteOrderMark cs).findings ≠ [] := by
  have hread : read byteOrderMark cs = symbol byteOrderMark cs := by
    have hstart : Identifier.isStart '\uFEFF' = false := by decide +kernel
    simp [read, hstart, byteOrderMark, show isBlank '\uFEFF' = false by decide]
  have hlongest : Symbol.longest? (byteOrderMark :: cs) = none := Symbol.longest?_append_cons (by decide +kernel) []
  rw [hread, symbol, hlongest]
  exact List.cons_ne_nil _ _

/-- What is read without a fault starts with no byte order mark. -/
theorem ScansTo.dropMark_eq {text : List Char} {kinds : List TokenKind} (h : ScansTo text kinds) : Utf8.dropMark text = text := by
  cases text with
  | nil => rfl
  | cons c cs =>
    refine if_neg fun hmark => ?_
    have hfound := (h.quiet (Lexeme.read c cs) (by rw [lexemes_cons]; exact List.mem_cons_self)).1
    rw [hmark] at hfound
    exact Lexeme.findings_mark cs hfound

theorem ScansTo.tokenize {text : List Char} {kinds : List TokenKind} {ends : Bool} (h : ScansTo text kinds)
    (hlast : (false :: kinds.map TokenKind.endsStatement).getLast? = some ends) (path : SourcePath) :
    (GoSyntax.tokenize path (Utf8.encode text)).2 = []
      ∧ (GoSyntax.tokenize path (Utf8.encode text)).1.map Token.kind = kinds ++ lastKinds ends := by
  obtain ⟨hchars, hrefused⟩ := Feed.ofBytes_segments path (Utf8.encode text)
  obtain ⟨hrunes, hnone⟩ := Utf8.segments_text text
  rw [hrunes, h.dropMark_eq] at hchars
  rw [Feed.refusals, hnone] at hrefused
  have hlexemes : ∀ l ∈ lexemes (Feed.ofBytes path (Utf8.encode text)).chars, l.findings = [] ∧ l.kind.breaksLine = false := by
    rw [hchars]
    exact h.quiet
  have hkinds : (lexemes (Feed.ofBytes path (Utf8.encode text)).chars).filterMap (Lexeme.token? false) = kinds := by
    rw [hchars]
    exact h.kinds
  constructor
  · exact (Undecoded.pending_tokens (.ofBytes path (Utf8.encode text))).2 ⟨hrefused, fun l hl => (hlexemes l hl).1⟩
  · rw [← hkinds] at hlast ⊢
    exact Feed.kinds_ofLexemes path (fun l hl => (hlexemes l hl).2) false _ hlast

end GoSyntax
