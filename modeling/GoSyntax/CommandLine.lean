import GoSyntax.FileTree
import GoSyntax.Grammar.File
import GoSyntax.Tree.Dump

/-!
# The command line

Three commands read source files: `tokens` lists the tokens of one, `parse` dumps the tree of one, and `check` gives one line for
each. A command succeeds if every file can be opened and nothing is reported. `check` goes through its files in order and stops at
the first that cannot be opened; what it has written before stands.

Words that start with a dash are options, but a dash alone is a path, and so is every word behind `--`. A path is never empty.
-/

namespace GoSyntax

/-- What the program is asked to do. -/
inductive Command where
  | tokens (file : String)
  | parse (file : String) (quiet : Bool)
  | check (files : List String)
  | version
  deriving DecidableEq, Repr

/-- What a command writes, what it reports besides, and the status with which it ends. -/
structure Outcome where
  status : Nat
  output : String
  messages : List String
  deriving DecidableEq, Repr

/-- One outcome after another: the worse status, and all that is written. -/
def Outcome.append (a b : Outcome) : Outcome := ⟨max a.status b.status, a.output ++ b.output, a.messages ++ b.messages⟩

namespace Command

/-! ## Arguments -/

/-- An argument of a command. -/
inductive Argument where
  | file (path : String)
  | quiet
  deriving DecidableEq, Repr

/-- The path, if the argument is one. -/
def Argument.file? : Argument → Option String
  | file path => some path
  | quiet => none

/-- Paths, none of which may be empty. -/
def paths? : List String → Option (List Argument)
  | [] => some []
  | word :: words => if word.isEmpty then none else (paths? words).map (.file word :: ·)

/-- The arguments that words spell, if they spell any. -/
def arguments? : List String → Option (List Argument)
  | [] => some []
  | word :: words =>
    if word = "--" then paths? words
    else if word = "-q" || word = "--quiet" then (arguments? words).map (.quiet :: ·)
    else if word.isEmpty || word.startsWith "-" && word != "-" then none
    else (arguments? words).map (.file word :: ·)

/-- The command that words spell, if they spell any. A `--quiet` belongs to `parse` and may be given once. -/
def ofArgs? : List String → Option Command
  | [] => none
  | word :: words =>
    if word = "--version" || word.startsWith "-V" then some version
    else do
      let args ← arguments? words
      let files := args.filterMap Argument.file?
      let quiets := args.count .quiet
      match word, files, quiets with
      | "tokens", [file], 0 => some (tokens file)
      | "parse", [file], 0 => some (parse file false)
      | "parse", [file], 1 => some (parse file true)
      | "check", file :: files, 0 => some (check (file :: files))
      | _, _, _ => none

/-- The files that a command reads. -/
def files : Command → List String
  | tokens file | parse file _ => [file]
  | check files => files
  | version => []

/-! ## Running -/

/-- What opening a path gives: the results of reading it, or why it cannot be opened. -/
abbrev Opener := String → Except OpenError (List ReadResult)

/-- The handle of a path in a table of its own. -/
def handle (path : String) : SourcePath := ((PathTable.empty 0).intern path).1

/-- The status of a command that has reported something or not. -/
def status (clean : Bool) : Nat := if clean then 0 else 1

/-- The end of a command that cannot open a file. -/
def failure (path : String) (error : OpenError) : Outcome := ⟨1, "", [OpenFailure.display ⟨path, error⟩]⟩

/-- Goes on with the results of reading a file, or ends if it cannot be opened. -/
def withFile (opener : Opener) (path : String) (go : List UInt8 → Outcome) : Outcome :=
  match opener path with
  | .ok reads => go (ReadResult.content reads)
  | .error e => failure path e

/-- The diagnostics as a command reports them. -/
def messagesOf (ds : List Diagnostic) : List String := ds.map Diagnostic.display

/-- Lists the tokens of a file. -/
def runTokens (opener : Opener) (path : String) : Outcome :=
  withFile opener path fun bytes =>
    let (list, diagnostics) := tokenize (handle path) bytes
    ⟨status diagnostics.isEmpty, Token.dump list, messagesOf diagnostics⟩

/-- Dumps the tree of a file, unless `quiet`. -/
def runParse (opener : Opener) (path : String) (quiet : Bool) : Outcome :=
  withFile opener path fun bytes =>
    let r := parseFile (handle path) bytes
    ⟨status r.isClean, if quiet then "" else r.tree.dump.render ++ "\n", messagesOf r.diagnostics⟩

/-- Checks one file: its line. -/
def checkFile (opener : Opener) (path : String) : Outcome :=
  withFile opener path fun bytes =>
    let r := parseFile (handle path) bytes
    ⟨status r.isClean, r.summary path ++ "\n", messagesOf r.diagnostics⟩

/-- Checks files up to the first that cannot be opened. -/
def runCheck (opener : Opener) : List String → Outcome
  | [] => ⟨0, "", []⟩
  | path :: paths =>
    match opener path with
    | .ok _ => (checkFile opener path).append (runCheck opener paths)
    | .error e => failure path e

/-- The name and version of the program. -/
def versionLine : String := "gofront 0.1.0\n"

/-- Runs a command. -/
def run (opener : Opener) : Command → Outcome
  | tokens path => runTokens opener path
  | parse path quiet => runParse opener path quiet
  | check paths => runCheck opener paths
  | version => ⟨0, versionLine, []⟩

/-- How the program is called. -/
def usage : String := "usage: gofront tokens FILE | parse [--quiet] FILE | check FILE... | --version"

/-- Runs what words ask for; words that ask for nothing are a usage error. -/
def runArgs (opener : Opener) (args : List String) : Outcome :=
  match ofArgs? args with
  | some command => command.run opener
  | none => ⟨2, "", [usage]⟩

end Command

end GoSyntax
