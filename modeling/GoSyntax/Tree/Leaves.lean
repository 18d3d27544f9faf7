import GoSyntax.Token.Basic
import GoSyntax.Tree.Nodes

/-!
# Leaves: what a tree takes over from its source

The leaves of a tree are its names and literals, in the order of its nodes, each as the token that it stands for. A name that is blank
and a literal without a value are left out, for they also stand in for what is missing. The dot of an import stands for a dot.

The leaves of a source are its identifiers, literals and dots, without the blank identifiers.
-/

namespace GoSyntax

/-- The token that a name stands for. -/
def leafOfName (text : String) : Option TokenKind :=
  if text = "_" then none else if text = "." then some (.punctuation .dot) else some (.ident text)

/-- The token that the value of a literal stands for. -/
def leafOfLiteral (value : Constant) : Option TokenKind := if value = .error then none else some (.literal value)

/-- The leaf that a node is, if it is one. -/
def Node.leaf? : Node → Option TokenKind
  | .expr (.ident _ text) | .name ⟨_, text⟩ => leafOfName text
  | .expr (.literal _ value) | .literal ⟨_, value⟩ => leafOfLiteral value
  | _ => none

/-- The leaves among nodes. -/
def leavesOfNodes (nodes : List Node) : List TokenKind := nodes.filterMap Node.leaf?

namespace TokenKind

/-- The leaf that a token is, if it is one. -/
def leaf? : TokenKind → Option TokenKind
  | ident text => if text = "_" then none else some (ident text)
  | literal value => some (literal value)
  | punctuation .dot => some (punctuation .dot)
  | _ => none

/-- The token is an identifier or a literal. -/
def isWord : TokenKind → Bool
  | ident _ | literal _ => true
  | _ => false

end TokenKind

/-- The leaves among tokens. -/
def leavesOfTokens (tokens : List Token) : List TokenKind := tokens.filterMap fun t => t.kind.leaf?

end GoSyntax
