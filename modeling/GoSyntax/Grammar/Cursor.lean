import GoSyntax.Token.Set
import GoSyntax.Token.Stream
import GoSyntax.Tree.Basic

/-!
# Cursors: reading tokens and reporting faults

A parser reads the tokens of a feed from the front. It never fails: what does not fit is reported and left in place, or skipped.
So its state is the feed that is left and the log of all reports, lexical ones among them, which enter the log when their token is
first looked at. Every parser is made of the few steps of this module: looking ahead, taking a token, reporting, asking how many
reports there are, and loops.

A loop makes at most one pass more than tokens are left when it starts. A pass that goes on has taken a token, so that no loop is
cut short.
-/

namespace GoSyntax

/-- The tokens left and the reports so far. -/
structure Cursor where
  feed : Feed Token
  log : Array Diagnostic
  scanned : feed.Scanned

namespace Cursor

/-- The start of a source. -/
def start (path : SourcePath) (bytes : List UInt8) : Cursor := ⟨.tokens path bytes, #[], Feed.scanned_tokens path bytes⟩

/-- The tokens left before the end of the input. -/
def tokens (c : Cursor) : List Token := c.feed.items.map Noted.value

/-- The kinds of the tokens left. -/
def kinds (c : Cursor) : List TokenKind := c.tokens.map Token.kind

/-- The token that comes next. -/
def here (c : Cursor) : Token := c.feed.peek 0

end Cursor

/-- A step over the tokens that gives a result. -/
abbrev Parse := StateM Cursor

namespace Parse

/-! ## Steps -/

/-- The token `k` places ahead; all tokens up to it have been looked at. -/
def peek (k : Nat) : Parse Token := fun c =>
  let looked := c.feed.look (k + 1)
  (c.feed.peek k, ⟨looked.2, c.log ++ looked.1, c.scanned.look (k + 1)⟩)

/-- The token that comes next. -/
def current : Parse Token := peek 0

/-- Takes the next token; the end of the input stays. -/
def consume : Parse Token := fun c =>
  let looked := c.feed.look 1
  (c.feed.peek 0, ⟨looked.2.tail, c.log ++ looked.1, (c.scanned.look 1).tail⟩)

/-- Reports a fault. -/
def report (fault : Fault) (loc : Location) : Parse Unit := fun c => ((), { c with log := c.log.push ⟨fault, loc⟩ })

/-- The number of reports so far. -/
def reports : Parse Nat := fun c => (c.log.size, c)

/-- The tokens before the end of the input. -/
def remaining : Parse (List (Noted Token)) := fun c => (c.feed.items, c)

/-! ## Loops -/

/-- Passes of a loop, one for each token and one more at most. A pass takes what the passes before it have built; it ends the
loop or asks for another. -/
def passes {α : Type} (pass : α → Parse (ForInStep α)) : List (Noted Token) → α → Parse α
  | [], a => do return (← pass a).value
  | _ :: tokens, a => do
    match ← pass a with
    | .yield a => passes pass tokens a
    | .done a => return a

/-- Passes until one ends the loop. -/
def loop {α : Type} (start : α) (pass : α → Parse (ForInStep α)) : Parse α := do
  passes pass (← remaining) start

/-! ## Single tokens -/

/-- The next token is of this kind, whatever name or value it carries. -/
def isAt (kind : TokenKind) : Parse Bool := do return (← current).kind.sameKind kind

/-- No token is left. -/
def isAtEnd : Parse Bool := isAt .eof

/-- Takes the next token if it is of this kind. -/
def accept (kind : TokenKind) : Parse Bool := do
  if ← isAt kind then
    let _ ← consume
    return true
  else return false

/-- Reports a fault unless all is well. -/
def reportUnless (ok : Bool) (fault : Fault) (loc : Location) : Parse Unit := if ok then return () else report fault loc

/-- Reports the next token for what it is not. -/
def reportHere (fault : String → Fault) : Parse Unit := do
  let here ← current
  report (fault here.kind.display) here.loc

/-- Reports that something else was expected. -/
def reportExpected (expected : String) : Parse Unit := reportHere (.expectedToken expected)

/-- Takes a token of this kind or reports that it is missing. The result is where it is or should be. -/
def expect (kind : TokenKind) : Parse Location := do
  let here ← current
  if ← accept kind then return here.loc
  else
    reportExpected kind.display
    return here.loc

/-- Skips one token, or ends at one in the set and at the end of the input. -/
def skipPass (stop : TokenSet) (_ : Unit) : Parse (ForInStep Unit) := do
  let here ← current
  if stop.contains here.kind || here.kind.sameKind .eof then return .done ()
  else
    let _ ← consume
    return .yield ()

/-- Skips tokens up to one in the set or the end of the input. -/
def skipTo (stop : TokenSet) : Parse Unit := loop () (skipPass stop)

/-! ## Lists -/

/-- One more item behind a comma. -/
def separatedPass {α : Type} (item : Parse α) (items : Array α) : Parse (ForInStep (Array α)) := do
  if ← accept Punctuation.comma then return .yield (items.push (← item)) else return .done items

/-- Items between commas: the first and the others. -/
def separated {α : Type} (item : Parse α) : Parse (α × List α) := do
  let first ← item
  let others ← loop #[] (separatedPass item)
  return (first, others.toList)

/-- One more member and the comma behind it. Without a comma it is the last; a comma may stand behind the last one too. -/
def memberPass {α : Type} (close : TokenKind) (member : Parse α) (members : Array α) : Parse (ForInStep (Array α)) := do
  let here ← current
  if here.kind.sameKind close || here.kind.sameKind .eof then return .done members
  else
    let members := members.push (← member)
    if ← accept Punctuation.comma then return .yield members else return .done members

/-- Members with commas between them, up to a closing bracket. -/
def members {α : Type} (close : TokenKind) (member : Parse α) : Parse (List α) := do
  return (← loop #[] (memberPass close member)).toList

/-! ## Names and literals -/

/-- An identifier; for a missing one `_` stands in. -/
def name : Parse Name := do
  let here ← current
  match here.kind with
  | .ident text =>
    let _ ← consume
    return ⟨here.loc, text⟩
  | _ =>
    reportHere .expectedIdentifier
    return ⟨here.loc, "_"⟩

/-- Identifiers between commas. -/
def names : Parse (List Name) := do
  let (first, others) ← separated name
  return first :: others

/-- A literal, if one comes next. -/
def literal? : Parse (Option Literal) := do
  let here ← current
  match here.kind with
  | .literal value =>
    let _ ← consume
    return some ⟨here.loc, value⟩
  | _ => return none

/-- A string literal, if one comes next. -/
def stringLiteral? : Parse (Option Literal) := do
  if (← current).kind.isStringLiteral then literal? else return none

end Parse

end GoSyntax
