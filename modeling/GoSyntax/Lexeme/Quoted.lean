import GoSyntax.Text.Utf8
import GoSyntax.Lexeme.Basic

/-!
# Quoted literals: strings and runes

The inside of an interpreted string or of a rune is a list of items: characters that stand for themselves and escapes. The list
ends at the enclosing quote, or is cut off before a line break or the end of the text. An escape is a backslash and a letter, the
backslash again or the enclosing quote; three octal digits or `x` and two hexadecimal ones, for one byte; or `u` and four or `U`
and eight hexadecimal digits, for one character. An escape that is none of these is dropped: it takes the characters that were
right and, if its first character is no escape at all, that one; it never takes a line break. A raw string has no items: all up
to the next backquote belongs to it, carriage returns apart.
-/

namespace GoSyntax

/-- What a legal escape stands for: a character, or a single byte. -/
inductive Escaped where
  | char (c : Char)
  | byte (b : UInt8)
  deriving DecidableEq, Repr

/-- An escape: what it stands for, none if it is illegal, and the number of characters it takes and looks at after the
backslash. -/
structure Escape where
  value : Option Escaped
  width : Nat
  seen : Nat
  deriving DecidableEq, Repr

namespace Escape

/-- The character a one-letter escape stands for, inside literals of a quote. -/
def letter? (quote c : Char) : Option Char :=
  match c with
  | 'a' => some '\x07'
  | 'b' => some '\x08'
  | 'f' => some '\x0c'
  | 'n' => some '\n'
  | 'r' => some '\r'
  | 't' => some '\t'
  | 'v' => some '\x0b'
  | '\\' => some '\\'
  | c => if c = quote then some c else none

/-- A number written by digits: how many of them, in which base, and what it stands for. -/
structure Form where
  count : Nat
  base : Nat
  denotes : Nat → Option Escaped

/-- A number that is one byte. -/
def byteForm (count base : Nat) : Form := ⟨count, base, fun n => if n ≤ 255 then some (.byte (UInt8.ofNat n)) else none⟩

/-- A number that is a code point. -/
def charForm (count : Nat) : Form := ⟨count, 16, fun n => (Utf8.scalar? 0 n).map .char⟩

/-- The digits of a form, after `skipped` characters that select it. -/
def readForm (form : Form) (skipped : Nat) (cs : List Char) : Escape :=
  let digits := (cs.take form.count).takeWhile (isDigitOf form.base)
  if digits.length = form.count then ⟨form.denotes (ofDigits form.base digits), skipped + form.count, skipped + form.count⟩
  else ⟨none, skipped + digits.length, skipped + digits.length + 1⟩

/-- The escape whose backslash stands before a text, inside a literal of a quote. -/
def read (quote : Char) : List Char → Escape
  | [] => ⟨none, 0, 1⟩
  | c :: cs =>
    if c = '\n' then ⟨none, 0, 1⟩
    else
      match letter? quote c with
      | some d => ⟨some (.char d), 1, 1⟩
      | none =>
        if isDigitOf 8 c then readForm (byteForm 3 8) 0 (c :: cs)
        else if c = 'x' then readForm (byteForm 2 16) 1 cs
        else if c = 'u' then readForm (charForm 4) 1 cs
        else if c = 'U' then readForm (charForm 8) 1 cs
        else ⟨none, 1, 1⟩

end Escape

/-- An item inside quotes. -/
inductive QuotedItem where
  | plain (c : Char)
  | escape (e : Escape)
  deriving DecidableEq, Repr

namespace QuotedItem

/-- The number of characters of an item, the backslash included. -/
def width : QuotedItem → Nat
  | plain _ => 1
  | escape e => e.width + 1

/-- The bytes an item adds to a string. -/
def bytes : QuotedItem → List UInt8
  | plain c => String.utf8EncodeChar c
  | escape ⟨some (.char c), _, _⟩ => String.utf8EncodeChar c
  | escape ⟨some (.byte b), _, _⟩ => [b]
  | escape ⟨none, _, _⟩ => []

/-- The code point or byte of an item, and whether it was written as a byte; none for an illegal escape. -/
def rune? : QuotedItem → Option (Nat × Bool)
  | plain c => some (c.toNat, false)
  | escape ⟨some (.char c), _, _⟩ => some (c.toNat, false)
  | escape ⟨some (.byte b), _, _⟩ => some (b.toNat, true)
  | escape ⟨none, _, _⟩ => none

/-- The items of a text up to the quote, and whether the quote was reached; a line break or the end of the text cuts them off. -/
def read (quote : Char) : List Char → List QuotedItem × Bool
  | [] => ([], false)
  | c :: cs =>
    if c = '\n' then ([], false)
    else if c = quote then ([], true)
    else if c = '\\' then
      let e := Escape.read quote cs
      let (items, closed) := read quote (cs.drop e.width)
      (escape e :: items, closed)
    else
      let (items, closed) := read quote cs
      (plain c :: items, closed)
termination_by cs => cs.length
decreasing_by all_goals (simp only [List.length_drop, List.length_cons]; omega)

/-- One finding for each illegal escape; the first item starts at an offset. -/
def findings : Nat → List QuotedItem → List Finding
  | _, [] => []
  | offset, escape ⟨none, width, seen⟩ :: items =>
    ⟨.illegalEscape, offset + 1, offset + 1 + seen⟩ :: findings (offset + 1 + width) items
  | offset, item :: items => findings (offset + item.width) items

/-- The number of characters of items. -/
def totalWidth (items : List QuotedItem) : Nat := items.foldr (fun item n => item.width + n) 0

end QuotedItem

namespace Quoted

/-- A literal between quotes: its value, the characters inside, whether it is closed, what was found inside, and what is found
at its end. -/
def lexeme (value : Constant) (inside : Nat) (closed : Bool) (within ends : List Finding) : Lexeme :=
  { kind := .token (.literal value)
    more := if closed then inside + 1 else inside
    seen := inside + 2
    findings := within ++ ends }

/-- What is found at the end of a literal that is not closed. -/
def cutOff (what : String) (inside : Nat) : Finding := ⟨.unterminatedLiteral what, 0, inside + 2⟩

/-- The lexeme of an interpreted string, from the text after its opening quote. -/
def string (cs : List Char) : Lexeme :=
  let (items, closed) := QuotedItem.read '"' cs
  let inside := QuotedItem.totalWidth items
  lexeme (.string (items.flatMap QuotedItem.bytes)) inside closed (QuotedItem.findings 1 items)
    (if closed then [] else [cutOff "string" inside])

/-- The value of a rune: that of its first item, and zero if it has none or an illegal one. -/
def runeValue (items : List QuotedItem) : Constant :=
  match (items.head?.bind QuotedItem.rune?).getD (0, false) with
  | (value, byteEscape) => .rune value byteEscape

/-- What is found at the closing quote of a rune: it must hold one item. -/
def runeCount (count inside : Nat) : List Finding :=
  match count with
  | 0 => [⟨.malformedRune "empty rune literal", 0, inside + 2⟩]
  | 1 => []
  | _ => [⟨.malformedRune "more than one character in rune literal", 0, inside + 2⟩]

/-- The lexeme of a rune, from the text after its opening quote. -/
def rune (cs : List Char) : Lexeme :=
  let (items, closed) := QuotedItem.read '\'' cs
  let inside := QuotedItem.totalWidth items
  lexeme (runeValue items) inside closed (QuotedItem.findings 1 items)
    (if closed then runeCount items.length inside else [cutOff "rune" inside])

/-- The lexeme of a raw string, from the text after its opening quote. -/
def rawString (cs : List Char) : Lexeme :=
  let content := cs.takeWhile (· != '\x60')
  let closed := content.length < cs.length
  lexeme (.string (Utf8.encode (content.filter (· != '\r')))) content.length closed []
    (if closed then [] else [cutOff "raw string" content.length])

end Quoted

end GoSyntax
