import GoSyntax.CommandLine

/-!
# The program

Opens and reads the files that a command names, runs the command on what they hold, and writes what it gives.
-/

namespace GoSyntax.Program

/-- Reads an open file up to its end or a failure. -/
partial def readRest (handle : IO.FS.Handle) (content : ByteArray) : IO ByteArray := do
  match ← (handle.read 65536).toBaseIO with
  | .ok chunk => if chunk.isEmpty then return content else readRest handle (content ++ chunk)
  | .error _ => return content

/-- The reason behind a failure to open a file. -/
def openError : IO.Error → OpenError
  | .noFileOrDirectory _ _ _ => .notFound
  | .inappropriateType _ _ _ => .notDirectory
  | e => .other (toString e)

/-- Opens and reads a file. -/
def readFile (path : String) : IO (Except OpenError (List ReadResult)) := do
  match ← (IO.FS.Handle.mk path .read).toBaseIO with
  | .ok handle => return .ok (ReadResult.ofContent (← readRest handle .empty).toList)
  | .error e => return .error (openError e)

end GoSyntax.Program

open GoSyntax in
def main (args : List String) : IO UInt32 := do
  let paths := ((Command.ofArgs? args).map Command.files).getD []
  let contents ← paths.mapM fun path => return (path, ← Program.readFile path)
  let outcome := Command.runArgs (fun path => (contents.lookup path).getD (.error .notFound)) args
  for message in outcome.messages do IO.eprintln message
  IO.print outcome.output
  return outcome.status.toUInt32
