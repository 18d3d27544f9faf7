import GoSyntax.Main
import GoSyntax.Tree.Outline
import GoSyntax.Proofs.Acceptance
import GoSyntax.Proofs.Unbounded
import GoSyntax.Proofs.Canonical.Reread
import GoSyntax.Proofs.TwoRuns.Reports
import GoSyntax.Proofs.InRange.NeverFails
import GoSyntax.Tree.Shape
import GoSyntax.Proofs.InRange.Nesting
import GoSyntax.Proofs.OnDemand
import GoSyntax.Proofs.Leaves.Parts
import GoSyntax.Proofs.Leaves.Gathers
import GoSyntax.Proofs.Leaves.Types
import GoSyntax.Proofs.Leaves.Expressions
import GoSyntax.Proofs.Leaves.File
import GoSyntax.Tree.Move
import GoSyntax.Proofs.Context.Feeds
import GoSyntax.Proofs.Context.Lexemes
import GoSyntax.Proofs.Context.Characters
import GoSyntax.Proofs.Context.Scanning
import GoSyntax.Proofs.Context.Parts
import GoSyntax.Proofs.Context.Pursuit
import GoSyntax.Proofs.Context.Types
import GoSyntax.Proofs.Context.Expressions
import GoSyntax.Proofs.Context.Statements
import GoSyntax.Proofs.Context.Depth
import GoSyntax.Proofs.Context.Ahead
import GoSyntax.Proofs.Context.Beside
import GoSyntax.Proofs.Context.Declarations
import GoSyntax.Proofs.Context.Endings
import GoSyntax.Proofs.Context.Closings
import GoSyntax.Proofs.Context.Files
import GoSyntax.Proofs.Context.Fragments
import GoSyntax.Proofs.Context.Embedding
import GoSyntax.Proofs.Lexical.Decoding
import GoSyntax.Proofs.Lexical.Terminators
import GoSyntax.Proofs.Lexical.Lines
import GoSyntax.Proofs.Lexical.Printing
import GoSyntax.Proofs.Lexical.Inline
import GoSyntax.Proofs.Rules.File
import GoSyntax.Proofs.Lines.File
import GoSyntax.Proofs.Context.Imports
import GoSyntax.Proofs.Canonical.Spread
import GoSyntax.Proofs.Recovery.Blame
import GoSyntax.Proofs.Recovery.Resumption
import GoSyntax.Proofs.Lengths.File
import GoSyntax.Proofs.Canonical.Climbing
import GoSyntax.Proofs.Binding.Braces
import GoSyntax.Proofs.Lexical.Numerals
import GoSyntax.Proofs.Kinds.Runs
import GoSyntax.Proofs.Kinds.Taken
import GoSyntax.Proofs.Kinds.Tells
import GoSyntax.Proofs.Lexical.Bounded
import GoSyntax.Proofs.Lexical.Display
import GoSyntax.Proofs.Lexical.Runes
import GoSyntax.Proofs.Parameters.Lists
import GoSyntax.Proofs.Junk.Crossings
import GoSyntax.Proofs.Junk.Declarations
import GoSyntax.Proofs.Junk.Files
import GoSyntax.Proofs.Junk.Gains
import GoSyntax.Proofs.Junk.Litter
import GoSyntax.Proofs.Lexical.Payloads
import GoSyntax.Proofs.Sources
import GoSyntax.Proofs.Lexical.Requests
import GoSyntax.Proofs.Lexical.Marks
import GoSyntax.Proofs.Kinds.Sets
import GoSyntax.Proofs.Lexical.Munch
import GoSyntax.Proofs.Lexical.Symbols
import GoSyntax.Proofs.Lexical.Listing
import GoSyntax.Proofs.TwoRuns.Commands
