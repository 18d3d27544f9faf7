import GoSyntax.Grammar.Productions
import GoSyntax.Grammar.Recovery

/-!
# Types

A type is read as an expression: a name, plain or qualified, a type in parentheses, or one of the composed forms. Whether the
entries of a parameter list are names or types shows only when the list has been read, so they are read as types, and become names
if a type follows them.
-/

namespace GoSyntax.Grammar

open Parse

/-- A type; where none starts it is reported as missing. -/
def type (p : Productions) : Parse Expr := do
  match ← p.type? with
  | some t => return t
  | none =>
    let here ← current
    reportHere .expectedType
    skipTo Recovery.operand
    return .bad here.loc

/-- A type name from behind its first name on. -/
def qualified (base : Name) : Parse Expr := do
  if ← accept Punctuation.dot then return .selector base.loc (.ident base.loc base.text) (← name)
  else return .ident base.loc base.text

/-- `name` or `package.name`. -/
def typeName : Parse Expr := do qualified (← name)

/-- The length of an array type that is not a slice. With `inferable`, it may be `...`. -/
def givenLength (p : Productions) (inferable : Bool) : Parse ArrayLength := do
  if ← pure inferable <&&> accept Punctuation.ellipsis then return .inferred else return .fixed (← p.expr 0)

/-- The length of an array type and the closing bracket, behind `[`. -/
def arrayLength (p : Productions) (inferable : Bool) : Parse ArrayLength := do
  if ← accept Punctuation.rBracket then return .slice
  else
    let length ← givenLength p inferable
    let _ ← expect Punctuation.rBracket
    return length

/-- `[]T` or `[N]T` and, with `inferable`, `[...]T`. -/
def arrayType (p : Productions) (inferable : Bool) : Parse Expr := do
  let here ← consume
  let length ← arrayLength p inferable
  return .arrayType here.loc length (← type p)

/-- `map[K]V` -/
def mapType (p : Productions) : Parse Expr := do
  let here ← consume
  let _ ← expect Punctuation.lBracket
  let key ← type p
  let _ ← expect Punctuation.rBracket
  return .mapType here.loc key (← type p)

/-- The `chan`, `chan<-` or `<-chan` of a channel type. An arrow belongs to the leftmost `chan` it may follow. -/
def channelDirection : Parse ChannelDirection := do
  if ← accept Keyword.chan then
    if ← accept Operator.arrow then return .send else return .both
  else
    let _ ← expect Operator.arrow
    let _ ← expect Keyword.chan
    return .receive

/-- `chan T`, `chan<- T` or `<-chan T`. -/
def channelType (p : Productions) : Parse Expr := do
  let here ← current
  let direction ← channelDirection
  return .channelType here.loc direction (← type p)

/-! ## Parameters and signatures -/

/-- `...T`; where it is not allowed it is reported. -/
def variadicType (p : Productions) (allowed : Bool) : Parse Expr := do
  let here ← consume
  reportUnless allowed .illegalVariadic here.loc
  return .variadicType here.loc (← type p)

/-- The type of a parameter, if one comes next. With `variadic`, it may be `...T`. -/
def parameterType? (p : Productions) (variadic : Bool) : Parse (Option Expr) := do
  if ← isAt Punctuation.ellipsis then some <$> variadicType p variadic else p.type?

/-- The type of a parameter; where none starts it is reported as missing. -/
def parameterType (p : Productions) (variadic : Bool) : Parse Expr := do
  match ← parameterType? p variadic with
  | some t => return t
  | none => type p

/-- What an expression is called where a name was expected. -/
def describe : Expr → String
  | .variadicType _ _ => "variadic type"
  | .arrayType _ _ _ | .structType _ _ | .functionType _ _ | .interfaceType _ _ | .mapType _ _ _ | .channelType _ _ _
  | .star _ _ => "type"
  | .selector _ _ _ => "qualified name"
  | _ => "expression"

/-- The name that an entry read as a type turns out to be; any other entry is reported, and `_` stands in. -/
def nameOf (entry : Expr) : Parse Name := do
  match entry with
  | .ident loc text => return ⟨loc, text⟩
  | _ =>
    report (.expectedIdentifier (describe entry)) entry.loc
    return ⟨entry.loc, "_"⟩

/-- The names that entries read as types turn out to be. -/
def namesOf : List Expr → Parse (List Name)
  | [] => return []
  | entry :: entries => do
    let first ← nameOf entry
    return first :: (← namesOf entries)

/-- A variadic field is reported unless it is the last and has at most one name. -/
def checkField (isLast : Bool) (field : Field) : Parse Unit :=
  match field.type with
  | .variadicType loc _ => reportUnless (isLast && field.names.length ≤ 1) .illegalVariadic loc
  | _ => return ()

/-- Checks that no field but the last is variadic. -/
def checkVariadic : List Field → Parse Unit
  | [] => return ()
  | field :: fields => do
    checkField fields.isEmpty field
    checkVariadic fields

/-- Checks the fields of a list that may end with a variadic one; where none is allowed, each has been reported when it was read. -/
def checkFields (variadic : Bool) (fields : List Field) : Parse Unit :=
  if variadic then checkVariadic fields else return ()

/-- One more entry of a parameter list and the comma behind it, which may also stand behind the last one. -/
def entryPass (p : Productions) (variadic : Bool) (entries : Array Expr) : Parse (ForInStep (Array Expr)) := do
  let entries := entries.push (← parameterType p variadic)
  if ← accept Punctuation.comma then
    if ← isAt Punctuation.rParen then return .done entries else return .yield entries
  else return .done entries

/-- The entries of a parameter list up to the first that is not followed by a comma, or the last. -/
def parameterEntries (p : Productions) (variadic : Bool) : Parse (List Expr) := do
  return (← loop #[] (entryPass p variadic)).toList

/-- A group of names and their type. -/
def parameterGroup (p : Productions) (variadic : Bool) : Parse Field := do
  let here ← current
  let list ← names
  return ⟨here.loc, list, ← parameterType p variadic, none⟩

/-- One more group behind a comma, which may also stand behind the last one. -/
def groupPass (p : Productions) (variadic : Bool) (groups : Array Field) : Parse (ForInStep (Array Field)) := do
  if ← accept Punctuation.comma then
    if ← isAt Punctuation.rParen then return .done groups
    else return .yield (groups.push (← parameterGroup p variadic))
  else return .done groups

/-- The groups of names and a type behind the first group. -/
def moreGroups (p : Productions) (variadic : Bool) : Parse (List Field) := do
  return (← loop #[] (groupPass p variadic)).toList

/-- An unnamed parameter or result. -/
def unnamed (t : Expr) : Field := ⟨t.loc, [], t, none⟩

/-- Parameters whose first names have been read as types, from the type behind them on. -/
def namedParameters (p : Productions) (variadic : Bool) (entries : List Expr) (t : Expr) : Parse (List Field) := do
  let list ← namesOf entries
  let loc := (list.head?.map Name.loc).getD t.loc
  return ⟨loc, list, t, none⟩ :: (← moreGroups p variadic)

/-- The parameters in a list that is not empty: groups of names if a type follows the first entries, else unnamed types. -/
def parameterList (p : Productions) (variadic : Bool) : Parse (List Field) := do
  let entries ← parameterEntries p variadic
  match ← parameterType? p variadic with
  | some t => namedParameters p variadic entries t
  | none => return entries.map unnamed

/-- The fields of a parameter list, which may be empty. With `variadic`, the last parameter may be variadic. -/
def parameterFields (p : Productions) (variadic : Bool) : Parse (List Field) := do
  if ← isAt Punctuation.rParen then return []
  else
    let fields ← parameterList p variadic
    checkFields variadic fields
    return fields

/-- `( [ parameters ] )` -/
def parameters (p : Productions) (variadic : Bool) : Parse (List Field) := do
  let _ ← expect Punctuation.lParen
  let fields ← parameterFields p variadic
  let _ ← expect Punctuation.rParen
  return fields

/-- The results of a function: a list in parentheses, one type, or nothing. -/
def results (p : Productions) : Parse (List Field) := do
  if ← isAt Punctuation.lParen then parameters p false
  else
    match ← p.type? with
    | some t => return [unnamed t]
    | none => return []

/-- Parameters and results. -/
def signature (p : Productions) : Parse Signature := do
  let params ← parameters p true
  return ⟨params, ← results p⟩

/-! ## Bodies of structs and interfaces -/

/-- Goes on with the items behind the next `;`, or ends the body if something else comes first. -/
def resumeBody {α : Type} (items : Array α) : Parse (ForInStep (Array α)) := do
  skipTo Recovery.body
  if ← accept Punctuation.semicolon then return .yield items else return .done items

/-- The token ends a body. A declaration keyword does so too, because then the closing brace is missing. -/
def endsBody (kind : TokenKind) : Bool :=
  kind.sameKind Punctuation.rBrace || kind.sameKind .eof || Recovery.declarationStart.contains kind

/-- One more item of a body and what ends it. A token that starts no item is reported. -/
def itemPass {α : Type} (starts : TokenKind → Bool) (item : Parse α) (missing : String → Fault) (items : Array α) :
    Parse (ForInStep (Array α)) := do
  let here ← current
  if endsBody here.kind then return .done items
  else if starts here.kind then
    let items := items.push (← item)
    if ← isAt Punctuation.rBrace <||> accept Punctuation.semicolon then return .yield items
    else
      reportExpected "`;` or `\x7d`"
      resumeBody items
  else
    reportHere missing
    resumeBody items

/-- Items in braces, a `;` behind each. -/
def bodyItems {α : Type} (starts : TokenKind → Bool) (item : Parse α) (missing : String → Fault) : Parse (List α) := do
  let _ ← expect Punctuation.lBrace
  let items ← loop #[] (itemPass starts item missing)
  let _ ← expect Punctuation.rBrace
  return items.toList

/-- The field is a type without names: its name is followed by what ends it or goes on with the type. -/
def namesNoField (next : TokenKind) : Bool :=
  next.sameKind Punctuation.dot || next.sameKind Punctuation.semicolon || next.sameKind Punctuation.rBrace
    || next.isStringLiteral

/-- The names and the type of a struct field. -/
def fieldType (p : Productions) : Parse (List Name × Expr) := do
  if (← current).kind.isIdent then
    if namesNoField (← peek 1).kind then return ([], ← typeName)
    else
      let list ← names
      return (list, ← type p)
  else
    let here ← consume
    return ([], .star here.loc (← typeName))

/-- `a, b T "tag"`, `T "tag"` or `*T "tag"`; a tag may be missing. -/
def field (p : Productions) : Parse Field := do
  let here ← current
  let (list, t) ← fieldType p
  return ⟨here.loc, list, t, ← stringLiteral?⟩

/-- The token starts a struct field. -/
def startsField (kind : TokenKind) : Bool := kind.isIdent || kind.sameKind Operator.mul

/-- `struct { fields }` -/
def structType (p : Productions) : Parse Expr := do
  let here ← consume
  return .structType here.loc (← bodyItems startsField (field p) .expectedField)

/-- A method, or the name of an embedded interface. -/
def interfaceElem (p : Productions) : Parse InterfaceElem := do
  let here ← current
  if (← peek 1).kind.sameKind Punctuation.lParen then
    let method ← name
    return .method here.loc method (← signature p)
  else return .embedded here.loc (← typeName)

/-- `interface { elements }` -/
def interfaceType (p : Productions) : Parse Expr := do
  let here ← consume
  return .interfaceType here.loc (← bodyItems TokenKind.isIdent (interfaceElem p) .expectedMethodSpec)

/-! ## All types -/

/-- `func` and a signature. -/
def functionType (p : Productions) : Parse Expr := do
  let here ← consume
  return .functionType here.loc (← signature p)

/-- A type in parentheses. -/
def parenType (p : Productions) : Parse Expr := do
  let here ← consume
  let inner ← type p
  let _ ← expect Punctuation.rParen
  return .paren here.loc inner

/-- `*T` -/
def pointerType (p : Productions) : Parse Expr := do
  let here ← consume
  return .star here.loc (← type p)

/-- A type, if the next token can start one. With `inferable`, the length of an array may be `...`. -/
def type? (p : Productions) (inferable : Bool) : Parse (Option Expr) := do
  match (← current).kind with
  | .ident _ => some <$> typeName
  | .punctuation .lBracket => some <$> arrayType p inferable
  | .punctuation .lParen => some <$> parenType p
  | .operator .mul => some <$> pointerType p
  | .operator .arrow => some <$> channelType p
  | .keyword .struct => some <$> structType p
  | .keyword .interface => some <$> interfaceType p
  | .keyword .map => some <$> mapType p
  | .keyword .chan => some <$> channelType p
  | .keyword .func => some <$> functionType p
  | _ => return none

end GoSyntax.Grammar
