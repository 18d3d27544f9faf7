import GoSyntax.Character.Printable

/-!
# Quotations: characters, texts and bytes as they are shown

A quotation shows a character, a text or a string of bytes between quotes and on one line. Characters and texts share one rule:
NUL, tab, carriage return, line feed, the backslash and the enclosing quote have short escapes, a character that shows by itself
stands for itself, and any other is written by its code point. Bytes are shown in ASCII: both quotes are escaped, and a byte
that is no printable ASCII character is written by two hexadecimal digits.
-/

namespace GoSyntax.Quotation

/-- A code point in braces, in lower-case hexadecimal without padding. -/
def codePoint (c : Char) : List Char := ['\\', 'u', '\x7b'] ++ Nat.toDigits 16 c.toNat ++ ['\x7d']

/-- One character between quotes of the given kind. -/
def escape (quote c : Char) : List Char :=
  if c = '\x00' then ['\\', '0']
  else if c = '\t' then ['\\', 't']
  else if c = '\r' then ['\\', 'r']
  else if c = '\n' then ['\\', 'n']
  else if c = '\\' || c = quote then ['\\', c]
  else if showsByItself c then [c]
  else codePoint c

/-- A character between single quotes. -/
def ofChar (c : Char) : String := String.ofList ('\'' :: escape '\'' c ++ ['\''])

/-- A text between double quotes. -/
def ofText (text : String) : String := String.ofList ('"' :: text.toList.flatMap (escape '"') ++ ['"'])

/-- A digit of a byte in lower-case hexadecimal. -/
def hexDigit (n : Nat) : Char := Nat.digitChar (n % 16)

/-- One byte of a string constant, in ASCII. -/
def escapeByte (b : UInt8) : List Char :=
  if b = 9 then ['\\', 't']
  else if b = 13 then ['\\', 'r']
  else if b = 10 then ['\\', 'n']
  else if b = 34 || b = 39 || b = 92 then ['\\', Char.ofNat b.toNat]
  else if 32 ≤ b && b ≤ 126 then [Char.ofNat b.toNat]
  else ['\\', 'x', hexDigit (b.toNat / 16), hexDigit b.toNat]

/-- The bytes of a string constant between double quotes. -/
def ofBytes (bytes : List UInt8) : String := String.ofList ('"' :: bytes.flatMap escapeByte ++ ['"'])

example : ofChar '\'' = "'\\''" := by decide +kernel
example : ofText "a'\"\n" = "\"a'\\\"\\n\"" := by decide +kernel
example : ofBytes [97, 255, 39] = "\"a\\xff\\'\"" := by decide +kernel

end GoSyntax.Quotation
