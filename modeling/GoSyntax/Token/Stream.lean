import GoSyntax.Lexeme.Text
import GoSyntax.Rune

/-!
# Token streams

The tokens of a source are those among its lexemes, and a `;` where a line break ends a statement: at a line break, a comment
that spans one, or the end of the text, if the token before it can end a statement and nothing has ended it yet. The `;` stands
where the line break, the comment or the end stands. After it the next break ends nothing.

The diagnostics of a token are those met on the way from the token before it: findings of the lexemes and faults of the encoding,
in the order in which they are met. The encoding is read as far as the lexemes look and no farther. The stream ends with one
token for the end of the input, which repeats.
-/

namespace GoSyntax

namespace Lexeme

/-- The diagnostics of findings, with the faults of the encoding met before each, and the text after it has been looked at. -/
def lookFindings (path : SourcePath) : List Finding → Feed Place → List Diagnostic × Feed Place
  | [], text => ([], text)
  | f :: fs, text =>
    let (due, looked) := text.look f.seen
    let (rest, looked) := lookFindings path fs looked
    (due ++ ⟨f.fault, ⟨path, (text.peek f.offset).line⟩⟩ :: rest, looked)

/-- The diagnostics met while a lexeme is read at the start of a text, and the text after it. -/
def take (path : SourcePath) (l : Lexeme) (text : Feed Place) : List Diagnostic × Feed Place :=
  let (found, looked) := lookFindings path l.findings text
  let (due, looked) := looked.look l.seen
  (found ++ due, looked.drop l.width)

/-- The token a lexeme makes, if any. `armed` says that the token before it can end a statement. -/
def token? (armed : Bool) (l : Lexeme) : Option TokenKind :=
  match l.kind with
  | .token kind => some kind
  | .lineBreak | .comment true => if armed then some (.punctuation .semicolon) else none
  | .blank | .comment false | .stray => none

end Lexeme

/-- A source between two tokens: the lexemes to come, the text they are cut from, and whether the last token can end a
statement. -/
structure Unscanned where
  path : SourcePath
  lexemes : List Lexeme
  text : Feed Place
  armed : Bool

namespace Unscanned

/-- A whole source. -/
def ofBytes (path : SourcePath) (bytes : List UInt8) : Unscanned :=
  let text := Feed.ofBytes path bytes
  ⟨path, GoSyntax.lexemes text.chars, text, false⟩

/-- The next token at the end of the text: a `;` if the last token can end a statement, else the end of the input. -/
def nextAtEnd (path : SourcePath) (armed : Bool) (text : Feed Place) : Noted Token × Unscanned :=
  let (due, looked) := text.look 1
  let kind := if armed then .punctuation .semicolon else .eof
  (⟨⟨kind, ⟨path, (text.peek 0).line⟩⟩, due⟩, ⟨path, [], looked, false⟩)

/-- The next token of lexemes that a text is cut into. -/
def nextAmong (path : SourcePath) : Bool → Feed Place → List Lexeme → Noted Token × Unscanned
  | armed, text, [] => nextAtEnd path armed text
  | armed, text, l :: ls =>
    let (due, rest) := l.take path text
    match l.token? armed with
    | some kind => (⟨⟨kind, ⟨path, (text.peek 0).line⟩⟩, due⟩, ⟨path, ls, rest, kind.endsStatement⟩)
    | none =>
      let (made, u) := nextAmong path armed rest ls
      (⟨made.value, due ++ made.notes⟩, u)

/-- The next token; at the end there is one for the end of the input, however often it is asked for. -/
def next (u : Unscanned) : Noted Token × Unscanned := nextAmong u.path u.armed u.text u.lexemes

end Unscanned

/-- The tokens of lexemes that a text is cut into. -/
def Feed.ofLexemes (path : SourcePath) : Bool → Feed Place → List Lexeme → Feed Token
  | armed, text, [] =>
    let due := (text.look 1).1
    let loc := ⟨path, (text.peek 0).line⟩
    if armed then ⟨[⟨⟨.punctuation .semicolon, loc⟩, due⟩], ⟨⟨.eof, loc⟩, []⟩⟩
    else ⟨[], ⟨⟨.eof, loc⟩, due⟩⟩
  | armed, text, l :: ls =>
    let (due, rest) := l.take path text
    match l.token? armed with
    | some kind =>
      (Feed.ofLexemes path kind.endsStatement rest ls).cons ⟨⟨kind, ⟨path, (text.peek 0).line⟩⟩, due⟩
    | none => (Feed.ofLexemes path armed rest ls).noteFirst due

/-- The tokens of a source. -/
def Feed.tokens (path : SourcePath) (bytes : List UInt8) : Feed Token :=
  let text := Feed.ofBytes path bytes
  Feed.ofLexemes path false text (lexemes text.chars)

/-- The tokens of a source, the end of the input last, and all lexical diagnostics. -/
def tokenize (path : SourcePath) (bytes : List UInt8) : List Token × List Diagnostic :=
  let f := Feed.tokens path bytes
  (f.values, f.pending)

/-! ## The tokens that stand for text -/

/-- The kind of a token that stands for characters of the text: it is not the end of the input, and a name starts as names do. -/
def TokenKind.IsScanned : TokenKind → Prop
  | .eof => False
  | .ident name => ∃ c cs, Identifier.isStart c = true ∧ name = String.ofList (c :: cs)
  | _ => True

/-- A name starts as names do, so none of them is the dot of an import. -/
theorem TokenKind.ne_dot_of_isScanned {name : String} (h : (ident name).IsScanned) : name ≠ "." := by
  obtain ⟨c, cs, hc, rfl⟩ := h
  intro heq
  have hlist : c :: cs = ['.'] := by simpa using congrArg String.toList heq
  obtain ⟨rfl, _⟩ := List.cons.inj hlist
  exact absurd hc (by decide)

/-- The last token, and no other, is the end of the input. -/
def Feed.Scanned (f : Feed Token) : Prop :=
  f.last.value.kind = .eof ∧ ∀ t ∈ f.items.map Noted.value, t.kind.IsScanned

theorem Feed.Scanned.look {f : Feed Token} (h : f.Scanned) (k : Nat) : (f.look k).2.Scanned := by
  rw [Scanned, map_value_look, last_value_look]
  exact h

theorem Feed.Scanned.tail {f : Feed Token} (h : f.Scanned) : f.tail.Scanned := by
  obtain ⟨items, last⟩ := f
  cases items with
  | nil => exact h
  | cons n ns => exact ⟨h.1, fun t ht => h.2 t (List.mem_cons_of_mem _ ht)⟩

theorem Feed.Scanned.noteFirst {f : Feed Token} (h : f.Scanned) (due : List Diagnostic) : (f.noteFirst due).Scanned := by
  obtain ⟨items, last⟩ := f
  cases items with
  | nil => exact h
  | cons n ns => exact h

theorem Feed.Scanned.cons {f : Feed Token} (h : f.Scanned) {n : Noted Token} (hn : n.value.kind.IsScanned) :
    (f.cons n).Scanned := by
  refine ⟨h.1, fun t ht => ?_⟩
  rcases List.mem_cons.1 ht with rfl | ht
  · exact hn
  · exact h.2 t ht

/-- The kind of token that a lexeme makes, if it makes one, stands for its characters. -/
def Lexeme.IsScanned (l : Lexeme) : Prop := ∀ kind, l.kind = .token kind → kind.IsScanned

theorem Lexeme.isScanned_word {c : Char} (hc : Identifier.isStart c = true) (cs : List Char) : (word c cs).IsScanned := by
  rintro kind ⟨⟩
  rw [wordKind]
  split
  · trivial
  · exact ⟨c, _, hc, rfl⟩

theorem Lexeme.isScanned_symbol (c : Char) (cs : List Char) : (symbol c cs).IsScanned := by
  intro kind h
  unfold symbol at h
  split at h
  · next s _ _ =>
    obtain rfl := LexemeKind.token.inj h
    cases s <;> trivial
  · nomatch h

theorem Lexeme.IsScanned.ite {φ : Prop} [Decidable φ] {l l' : Lexeme} (h : φ → l.IsScanned) (h' : l'.IsScanned) :
    (if φ then l else l').IsScanned := by
  split
  · next hφ => exact h hφ
  · exact h'

theorem Lexeme.isScanned_blockComment (cs : List Char) : (blockComment cs).IsScanned := by
  rw [blockComment]
  split <;> exact fun _ h => nomatch h

theorem Lexeme.isScanned_of_literal {l : Lexeme} {value : Constant} (h : l.kind = .token (.literal value)) :
    l.IsScanned := by
  intro kind hk
  obtain rfl := LexemeKind.token.inj (h.symm.trans hk)
  trivial

/-- Whatever a text starts with, its first lexeme makes no end of the input, and names start as names do. -/
theorem Lexeme.isScanned_read (c : Char) (cs : List Char) : (read c cs).IsScanned := by
  unfold read
  refine .ite (fun _ _ h => nomatch h) (.ite (fun _ _ h => nomatch h) (.ite (fun _ _ h => nomatch h)
    (.ite (fun _ => isScanned_blockComment _) (.ite (fun h => isScanned_word h cs) ?_))))
  exact .ite (fun _ => isScanned_of_literal rfl) (.ite (fun _ => isScanned_of_literal rfl)
    (.ite (fun _ => isScanned_of_literal rfl) (.ite (fun _ => isScanned_of_literal rfl) (isScanned_symbol c cs))))

theorem isScanned_of_mem_lexemes (text : List Char) : ∀ l ∈ lexemes text, l.IsScanned := by
  fun_induction lexemes text with
  | case1 => exact fun _ h => nomatch h
  | case2 c cs ih =>
    intro l hl
    rcases List.mem_cons.1 hl with rfl | hl
    · exact Lexeme.isScanned_read c cs
    · exact ih l hl

theorem Feed.scanned_ofLexemes (path : SourcePath) (armed : Bool) (text : Feed Place) (ls : List Lexeme)
    (h : ∀ l ∈ ls, l.IsScanned) : (Feed.ofLexemes path armed text ls).Scanned := by
  induction ls generalizing armed text with
  | nil =>
    unfold ofLexemes
    cases armed with
    | true => exact ⟨rfl, fun t ht => by obtain rfl := List.mem_singleton.1 ht; trivial⟩
    | false => exact ⟨rfl, fun _ ht => nomatch ht⟩
  | cons l ls ih =>
    have hls := fun armed text => ih armed text fun l' hl' => h l' (List.mem_cons_of_mem l hl')
    simp only [ofLexemes]
    split
    · next kind hk =>
      refine (hls _ _).cons ?_
      cases hkind : l.kind with
      | token kind' =>
        rw [Lexeme.token?, hkind] at hk
        obtain rfl := Option.some.inj hk
        exact h l List.mem_cons_self _ hkind
      | _ => grind [Lexeme.token?, TokenKind.IsScanned]
    · exact (hls _ _).noteFirst _

/-- The last token of a source is the end of the input, and the others stand for its text. -/
theorem Feed.scanned_tokens (path : SourcePath) (bytes : List UInt8) : (Feed.tokens path bytes).Scanned :=
  scanned_ofLexemes path false _ _ (isScanned_of_mem_lexemes _)

/-- A source read token by token. -/
abbrev TokenReader := Lookahead Unscanned Token

namespace TokenReader

/-- A reader at the start of a source. -/
def ofBytes (path : SourcePath) (bytes : List UInt8) : TokenReader := .start (.ofBytes path bytes)

/-- The token `k` places ahead; past the end, the end of the input. -/
def peek (r : TokenReader) (k : Nat) : Token × TokenReader := Lookahead.peek Unscanned.next k r

/-- Takes the next token. -/
def consume (r : TokenReader) : Token × TokenReader := Lookahead.consume Unscanned.next r

end TokenReader

end GoSyntax
