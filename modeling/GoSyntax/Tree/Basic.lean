import GoSyntax.Constant
import GoSyntax.Location
import GoSyntax.Vocabulary.Keyword
import GoSyntax.Vocabulary.Operator

/-!
# Syntax trees

A tree has one constructor for each production, and every node carries the location where it starts. Types are expressions: what
stands in front of an operand or in a parameter list may turn out to be a type only when what follows it has been read. What
cannot be read is held by a `bad` node, so a tree is there for every input.
-/

namespace GoSyntax

/-- A literal where it stands in the source. -/
structure Literal where
  loc : Location
  value : Constant
  deriving DecidableEq, Repr

/-- The ways a channel may be used. -/
inductive ChannelDirection where
  | both | send | receive
  deriving DecidableEq, Repr

/-- An import: the name it goes by, if it is given one (`.` for all names), and the path. -/
structure ImportSpec where
  name : Option Name
  path : Literal
  deriving DecidableEq, Repr

mutual

/-- An expression or a type. A `composite` without a type is an element of another; an `assertion` without one is the guard of a
type switch. -/
inductive Expr where
  | bad (loc : Location)
  | ident (loc : Location) (name : String)
  | literal (loc : Location) (value : Constant)
  | composite (loc : Location) (type : Option Expr) (elements : List Expr)
  | function (loc : Location) (sig : Signature) (body : Block)
  | paren (loc : Location) (inner : Expr)
  | selector (loc : Location) (operand : Expr) (field : Name)
  | assertion (loc : Location) (operand : Expr) (type : Option Expr)
  | index (loc : Location) (operand subscript : Expr)
  | slice (loc : Location) (operand : Expr) (low high max : Option Expr) (three : Bool)
  | call (loc : Location) (callee : Expr) (args : List Expr) (spread : Bool)
  | star (loc : Location) (operand : Expr)
  | unary (loc : Location) (op : Operator) (operand : Expr)
  | binary (loc : Location) (op : Operator) (left right : Expr)
  | keyValue (loc : Location) (key value : Expr)
  | arrayType (loc : Location) (length : ArrayLength) (elem : Expr)
  | structType (loc : Location) (fields : List Field)
  | functionType (loc : Location) (sig : Signature)
  | interfaceType (loc : Location) (elems : List InterfaceElem)
  | mapType (loc : Location) (key value : Expr)
  | channelType (loc : Location) (direction : ChannelDirection) (elem : Expr)
  | variadicType (loc : Location) (elem : Expr)

/-- The length of an array type: none for a slice, to be counted from the elements, or an expression. -/
inductive ArrayLength where
  | slice
  | inferred
  | fixed (length : Expr)

/-- A group of struct fields, parameters or results of one type. An embedded field and an unnamed parameter have no names. -/
structure Field where
  loc : Location
  names : List Name
  type : Expr
  tag : Option Literal

/-- The parameters and results of a function. -/
structure Signature where
  params : List Field
  results : List Field

/-- Statements in braces. -/
structure Block where
  loc : Location
  stmts : List Stmt

/-- An element of an interface: a method or the name of another interface. -/
inductive InterfaceElem where
  | method (loc : Location) (name : Name) (sig : Signature)
  | embedded (loc : Location) (type : Expr)

/-- A statement. The `guard` of a type switch is `x.(type)` or `v := x.(type)`; the `otherwise` part of an `if` is another `if`
or a block. -/
inductive Stmt where
  | bad (loc : Location)
  | declaration (loc : Location) (group : DeclGroup)
  | empty (loc : Location)
  | labeled (loc : Location) (label : Name) (stmt : Stmt)
  | expr (loc : Location) (e : Expr)
  | send (loc : Location) (channel value : Expr)
  | incDec (loc : Location) (op : Operator) (operand : Expr)
  | assign (loc : Location) (op : Operator) (left right : List Expr)
  | go (loc : Location) (call : Expr)
  | defer (loc : Location) (call : Expr)
  | return (loc : Location) (values : List Expr)
  | branch (loc : Location) (keyword : Keyword) (label : Option Name)
  | block (body : Block)
  | if (loc : Location) (init : Option Stmt) (cond : Expr) (body : Block) (otherwise : Option Stmt)
  | switch (loc : Location) (init : Option Stmt) (tag : Option Expr) (clauses : List CaseClause)
  | typeSwitch (loc : Location) (init : Option Stmt) (guard : Stmt) (clauses : List CaseClause)
  | select (loc : Location) (clauses : List CommClause)
  | for (loc : Location) (init : Option Stmt) (cond : Option Expr) (post : Option Stmt) (body : Block)
  | range (loc : Location) (key value : Option Expr) (define : Bool) (operand : Expr) (body : Block)

/-- A clause of a switch; the default clause has no list. -/
structure CaseClause where
  loc : Location
  list : Option (List Expr)
  body : List Stmt

/-- A clause of a select; the default clause has no communication. -/
structure CommClause where
  loc : Location
  comm : Option Stmt
  body : List Stmt

/-- A declaration that a keyword other than `func` introduces: one specification, or a group of them in parentheses. -/
structure DeclGroup where
  keyword : Keyword
  specs : List Spec
  grouped : Bool

/-- What a declaration declares: an import, constants or variables, or a type. -/
inductive Spec where
  | import (loc : Location) (spec : ImportSpec)
  | value (loc : Location) (names : List Name) (type : Option Expr) (values : List Expr)
  | type (loc : Location) (name : Name) (type : Expr)

end

/-- The declaration of a function, or of a method if it has a receiver. One without a body is implemented elsewhere. -/
structure FuncDecl where
  receiver : Option (List Field)
  name : Name
  sig : Signature
  body : Option Block

/-- A declaration at the top level of a file. -/
inductive Decl where
  | bad (loc : Location)
  | group (loc : Location) (group : DeclGroup)
  | func (loc : Location) (func : FuncDecl)

/-- A source file. -/
structure SourceFile where
  loc : Location
  package : Name
  decls : List Decl

namespace Expr

/-- Where an expression starts. -/
def loc : Expr → Location
  | bad loc | ident loc _ | literal loc _ | composite loc _ _ | function loc _ _ | paren loc _ | selector loc _ _
  | assertion loc _ _ | index loc _ _ | slice loc _ _ _ _ _ | call loc _ _ _ | star loc _ | unary loc _ _ | binary loc _ _ _
  | keyValue loc _ _ | arrayType loc _ _ | structType loc _ | functionType loc _ | interfaceType loc _ | mapType loc _ _
  | channelType loc _ _ | variadicType loc _ => loc

/-- The expression could not be read. -/
def isBad : Expr → Bool
  | bad _ => true
  | _ => false

/-- The name, if the expression is nothing else. -/
def ident? : Expr → Option String
  | ident _ name => some name
  | _ => none

end Expr

namespace Stmt

/-- Where a statement starts. -/
def loc : Stmt → Location
  | bad loc | declaration loc _ | empty loc | labeled loc _ _ | expr loc _ | send loc _ _ | incDec loc _ _ | assign loc _ _ _
  | go loc _ | defer loc _ | .return loc _ | branch loc _ _ | .if loc _ _ _ _ | switch loc _ _ _ | typeSwitch loc _ _ _
  | select loc _ | .for loc _ _ _ _ | range loc _ _ _ _ _ => loc
  | block body => body.loc

/-- The statement could not be read. -/
def isBad : Stmt → Bool
  | bad _ => true
  | _ => false

end Stmt

namespace Spec

/-- The import, if this is one. -/
def import? : Spec → Option ImportSpec
  | .import _ spec => some spec
  | _ => none

end Spec

namespace Decl

/-- Where a declaration starts. -/
def loc : Decl → Location
  | bad loc | group loc _ | func loc _ => loc

/-- The specifications of a declaration. -/
def specs : Decl → List Spec
  | group _ g => g.specs
  | _ => []

end Decl

namespace SourceFile

/-- The imports of a file, in the order of the source. -/
def imports (f : SourceFile) : List ImportSpec := (f.decls.flatMap Decl.specs).filterMap Spec.import?

end SourceFile

end GoSyntax
