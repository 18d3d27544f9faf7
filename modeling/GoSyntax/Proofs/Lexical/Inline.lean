import GoSyntax.Proofs.Lexical.Printing

/-!
# Tokens in front of a text on its line

A token that is written out in front of a text, with a blank between them, comes in front of the tokens of the text, and a blank in front of
a text makes no difference. This is for a text with which nothing is wrong; then nothing depends on how far the scan looks ahead.
-/

namespace GoSyntax

namespace Feed

variable (path : SourcePath) (line : Nat)

/-- Characters of one line in front of other bytes. -/
theorem ofUndecoded_encode {text : List Char} (hline : '\n' ∉ text) (bytes : List UInt8) :
    ofUndecoded ⟨path, Utf8.encode text ++ bytes, line, false⟩
      = (ofUndecoded ⟨path, bytes, line, false⟩).behind (text.map fun c => ⟨⟨some c, line⟩, []⟩) := by
  induction text with
  | nil => rfl
  | cons c text ih =>
    obtain ⟨b, tail, hbytes, -⟩ := Utf8.encode_eq_cons c
    have hread := Utf8.readScalar_encode c (Utf8.encode text ++ bytes)
    have hafter : lineAfter c line = line := if_neg fun hc => hline (by rw [hc]; exact List.mem_cons_self)
    rw [hbytes, List.cons_append] at hread
    rw [Utf8.encode_cons, List.append_assoc, hbytes, List.cons_append, ofUndecoded_of_read path hread, hafter,
      ih fun hmem => hline (List.mem_cons_of_mem c hmem)]
    rfl

theorem chars_encode {text : List Char} (hline : '\n' ∉ text) (bytes : List UInt8) :
    (ofUndecoded ⟨path, Utf8.encode text ++ bytes, line, false⟩).chars = text ++ (ofUndecoded ⟨path, bytes, line, false⟩).chars := by
  rw [ofUndecoded_encode path line hline, chars, behind, List.filterMap_append, List.filterMap_map]
  simp [chars]

theorem pending_encode {text : List Char} (hline : '\n' ∉ text) (bytes : List UInt8) :
    (ofUndecoded ⟨path, Utf8.encode text ++ bytes, line, false⟩).pending = (ofUndecoded ⟨path, bytes, line, false⟩).pending := by
  rw [ofUndecoded_encode path line hline, pending_behind, List.flatMap_map]
  simp

end Feed

theorem Lexeme.take_of_pending {path : SourcePath} {l : Lexeme} {text : Feed Place} (htext : text.pending = []) (h : l.findings = []) :
    l.take path text = ([], text.drop l.width) := by
  rw [take_of_findings path text h, text.look_of_pending htext]

namespace Undecoded

open Feed

/-- The tokens of bytes that stand somewhere in a source; `armed` says that the token in front of them can end a statement. -/
def tokensFrom (armed : Bool) (u : Undecoded) : Feed Token := .ofLexemes u.path armed (.ofUndecoded u) (lexemes (Feed.ofUndecoded u).chars)

variable {path : SourcePath} {bytes : List UInt8} {line : Nat} (armed : Bool)

/-- A token in front of a text in which nothing is refused, with a blank behind the token. -/
theorem tokensFrom_token {text : List Char} {kind : TokenKind} (htext : ReadsAs text kind) (hline : '\n' ∉ text)
    (hbounded : Bounded (ofUndecoded ⟨path, bytes, line, false⟩).chars) (hpending : (ofUndecoded ⟨path, bytes, line, false⟩).pending = []) :
    tokensFrom armed ⟨path, Utf8.encode text ++ bytes, line, false⟩
      = (tokensFrom kind.endsStatement ⟨path, bytes, line, false⟩).cons ⟨⟨kind, ⟨path, line⟩⟩, []⟩ := by
  have hsilent := (pending_encode path line hline bytes).trans hpending
  obtain ⟨c, more, rfl, hread⟩ := htext
  obtain ⟨seen, hread⟩ := hread _ hbounded
  simp only [tokensFrom]
  rw [chars_encode path line hline, List.cons_append, lexemes_cons, hread, List.drop_left, ofLexemes, Lexeme.take_of_pending hsilent rfl,
    ofUndecoded_encode path line hline, drop_behind _ (by simp [Lexeme.width]), List.drop_of_length_le (by simp [Lexeme.width])]
  rfl

/-- Blanks at the start of a text in which nothing is refused make no token. -/
theorem ofLexemes_dropBlanks {f : Feed Place} (hpending : f.pending = []) (cs : List Char) : ofLexemes path armed f (lexemes cs)
    = ofLexemes path armed (f.drop (cs.takeWhile isBlank).length) (lexemes (cs.dropWhile isBlank)) := by
  cases cs with
  | nil => rfl
  | cons a cs =>
    cases ha : isBlank a with
    | false =>
      have hno : ¬isBlank a = true := by rw [ha]; exact Bool.false_ne_true
      rw [List.takeWhile_cons_of_neg hno, List.dropWhile_cons_of_neg hno]
      rfl
    | true =>
      rw [ScansTo.lexemes_blank ha, List.takeWhile_cons_of_pos ha, List.dropWhile_cons_of_pos ha, ofLexemes,
        Lexeme.take_of_pending hpending rfl]
      exact noteFirst_nil _

theorem tokensFrom_blank {a : Char} (ha : isBlank a = true) (hline : '\n' ∉ [a])
    (hpending : (ofUndecoded ⟨path, bytes, line, false⟩).pending = []) :
    tokensFrom armed ⟨path, Utf8.encode [a] ++ bytes, line, false⟩ = tokensFrom armed ⟨path, bytes, line, false⟩ := by
  have hsilent := (pending_encode path line hline bytes).trans hpending
  simp only [tokensFrom]
  rw [chars_encode path line hline, List.singleton_append, ofLexemes_dropBlanks armed hsilent, ofLexemes_dropBlanks armed hpending,
    List.takeWhile_cons_of_pos ha, List.dropWhile_cons_of_pos ha, ofUndecoded_encode path line hline]
  rfl

/-- A token and a blank in front of a text in which nothing is refused. -/
theorem tokensFrom_cons {text : List Char} {kind : TokenKind} (htext : ReadsAs text kind) {a : Char} (ha : isBlank a = true)
    (hline : '\n' ∉ text ++ [a]) (hpending : (ofUndecoded ⟨path, bytes, line, false⟩).pending = []) :
    tokensFrom armed ⟨path, Utf8.encode (text ++ [a]) ++ bytes, line, false⟩
      = (tokensFrom kind.endsStatement ⟨path, bytes, line, false⟩).cons ⟨⟨kind, ⟨path, line⟩⟩, []⟩ := by
  rw [List.mem_append, not_or] at hline
  have hencode : Utf8.encode (text ++ [a]) = Utf8.encode text ++ Utf8.encode [a] := List.flatMap_append
  have hbounded : Bounded (ofUndecoded ⟨path, Utf8.encode [a] ++ bytes, line, false⟩).chars := by
    rw [chars_encode path line hline.2]
    intro b hb
    obtain rfl : a = b := Option.some.inj hb
    exact ha
  rw [hencode, List.append_assoc, tokensFrom_token armed htext hline.1 hbounded ((pending_encode path line hline.2 bytes).trans hpending),
    tokensFrom_blank _ ha hline.2 hpending]

/-- Tokens with a blank behind each of them in front of a text in which nothing is refused. -/
theorem tokensFrom_append {ts : List (List Char × TokenKind)} (hts : ∀ t ∈ ts, ReadsAs t.1 t.2 ∧ '\n' ∉ t.1)
    (hpending : (ofUndecoded ⟨path, bytes, line, false⟩).pending = []) :
    tokensFrom armed ⟨path, Utf8.encode (ts.flatMap fun t => t.1 ++ [' ']) ++ bytes, line, false⟩
      = (tokensFrom (ts.foldl (fun _ t => t.2.endsStatement) armed) ⟨path, bytes, line, false⟩).behind
        (ts.map fun t => ⟨⟨t.2, ⟨path, line⟩⟩, []⟩) := by
  induction ts generalizing armed with
  | nil => rfl
  | cons t ts ih =>
    obtain ⟨⟨htext, hline⟩, hts⟩ := List.forall_mem_cons.1 hts
    have hlines : '\n' ∉ ts.flatMap fun t => t.1 ++ [' '] := by
      simpa [List.mem_flatMap] using fun text kind hmem => (hts _ hmem).2
    have hencode : Utf8.encode ((t :: ts).flatMap fun t => t.1 ++ [' '])
        = Utf8.encode (t.1 ++ [' ']) ++ Utf8.encode (ts.flatMap fun t => t.1 ++ [' ']) := List.flatMap_append
    rw [hencode, List.append_assoc, tokensFrom_cons armed htext (by decide +kernel) (by simpa using hline)
      ((pending_encode path line hlines bytes).trans hpending), ih _ hts]
    rfl

end Undecoded

end GoSyntax
