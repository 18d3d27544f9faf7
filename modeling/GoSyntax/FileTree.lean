import GoSyntax.ByteSource

/-!
# Files: from a path to a byte source

A path names a file by the directories on the way to it. It is opened if every name but the last is that of a directory and the
last one is there. A directory can be opened too, but reading it fails, so it reads as empty. Of the world above its top directory a
file tree knows only that there are directories.
-/

namespace GoSyntax

/-- Why a file cannot be opened. -/
inductive OpenError where
  | notFound
  | notDirectory
  | nameTooLong
  | nulInPath
  | other (reason : String)
  deriving DecidableEq, Repr

/-- The wording of a reason, as the operating system gives it. -/
def OpenError.message : OpenError → String
  | notFound => "No such file or directory (os error 2)"
  | notDirectory => "Not a directory (os error 20)"
  | nameTooLong => "File name too long (os error 36)"
  | nulInPath => "file name contained an unexpected NUL byte"
  | other reason => reason

/-- A path that cannot be opened, and why. -/
structure OpenFailure where
  path : String
  error : OpenError
  deriving DecidableEq, Repr

/-- A failure on one line. -/
def OpenFailure.display (f : OpenFailure) : String := "cannot open " ++ f.path ++ ": " ++ f.error.message

/-- The files below a directory, each by the names on the way to it. -/
structure FileTree where
  files : List (List String × List UInt8)
  deriving DecidableEq, Repr

namespace FileTree

/-- A directory: inside the tree, by the names on the way to it, or above its top. -/
inductive Directory where
  | inside (names : List String)
  | above
  deriving DecidableEq, Repr

/-- What a name in a directory stands for. -/
inductive Entry where
  | file (bytes : List UInt8)
  | directory (d : Directory)
  deriving DecidableEq, Repr

/-- What is at the end of a way through the tree. -/
def entryAt? (t : FileTree) (names : List String) : Option Entry :=
  match t.files.find? fun file => file.1 == names with
  | some (_, bytes) => some (.file bytes)
  | none => if t.files.any fun file => names.isPrefixOf file.1 then some (.directory (.inside names)) else none

/-- What a name in a directory stands for; the empty name and `.` stand for the directory, `..` for the one above it. -/
def child? (t : FileTree) (d : Directory) (name : String) : Option Entry :=
  if name = "" || name = "." then some (.directory d)
  else
    match d with
    | .above => if name = ".." then some (.directory .above) else none
    | .inside names =>
      if name = ".." then some (.directory (if names.isEmpty then .above else .inside names.dropLast))
      else t.entryAt? (names ++ [name])

/-- What the names of a path lead to from a directory. -/
def walk (t : FileTree) : Directory → List String → Except OpenError Entry
  | d, [] => .ok (.directory d)
  | d, name :: names =>
    if 255 < name.utf8ByteSize then .error .nameTooLong
    else
      match t.child? d name with
      | none => .error .notFound
      | some (.directory d) => t.walk d names
      | some (.file bytes) => if names.isEmpty then .ok (.file bytes) else .error .notDirectory

/-- What a path leads to. A path that starts with a slash starts above the tree. -/
def find (t : FileTree) (path : String) : Except OpenError Entry :=
  if path.contains '\x00' then .error .nulInPath
  else if path.isEmpty then .error .notFound
  else if 4096 ≤ path.utf8ByteSize then .error .nameTooLong
  else t.walk (if path.startsWith "/" then .above else .inside []) (path.splitOn "/")

/-- The results of reading what a path leads to. -/
def read (t : FileTree) (path : String) : Except OpenError (List ReadResult) :=
  (t.find path).map fun
    | .file bytes => ReadResult.ofContent bytes
    | .directory _ => [ReadResult.failed]

/-- Opens what a path leads to. -/
def openFile (t : FileTree) (path : String) : Except OpenFailure FileSource :=
  match t.read path with
  | .ok reads => .ok (.opened path reads)
  | .error e => .error ⟨path, e⟩

/-- A tree of files given by their paths below the top. -/
def ofPaths (files : List (String × List UInt8)) : FileTree :=
  ⟨files.map fun (path, bytes) => ((path.splitOn "/").filter fun name => name != "" && name != ".", bytes)⟩

end FileTree

end GoSyntax
