/-!
# Byte sources

A source gives bytes one at a time and lets its reader look ahead. One kind holds all its bytes; the other reads a file as it
goes, keeping what it has read and not given out. A read of a file ends in a byte, in an interruption, which is tried again, in
the end of the file, or in a failure, which is taken for the end: a source never reads again after either.
-/

namespace GoSyntax

/-- What one attempt to read a byte of an open file may give. -/
inductive ReadResult where
  | byte (b : UInt8)
  | interrupted
  | endOfFile
  | failed
  deriving DecidableEq, Repr

/-- Bytes in memory, of which the first `position` have been given out. -/
structure MemorySource where
  bytes : List UInt8
  position : Nat
  path : Option String
  deriving DecidableEq, Repr

namespace MemorySource

/-- A source of which nothing has been given out. -/
def ofBytes (bytes : List UInt8) (path : Option String) : MemorySource := ⟨bytes, 0, path⟩

/-- The byte `offset` places ahead, none past the end. -/
def peek (s : MemorySource) (offset : Nat) : Option UInt8 := s.bytes[s.position + offset]?

/-- Gives out the next byte. -/
def consume (s : MemorySource) : Option UInt8 × MemorySource :=
  match s.bytes[s.position]? with
  | some b => (some b, { s with position := s.position + 1 })
  | none => (none, s)

end MemorySource

/-- An open file: the results of the reads to come, what was read ahead, and whether reading has ended. A file whose results
run out has ended. -/
structure FileSource where
  reads : List ReadResult
  ahead : List UInt8
  exhausted : Bool
  path : String
  deriving DecidableEq, Repr

namespace FileSource

/-- A file just opened. -/
def opened (path : String) (reads : List ReadResult) : FileSource := ⟨reads, [], false, path⟩

/-- The bytes read until `missing` more have come, the results left, and whether reading has ended. -/
def readMore : Nat → List ReadResult → List UInt8 × List ReadResult × Bool
  | 0, reads => ([], reads, false)
  | _ + 1, [] => ([], [], true)
  | missing + 1, .byte b :: reads =>
    let (bytes, rest, ended) := readMore missing reads
    (b :: bytes, rest, ended)
  | missing + 1, .interrupted :: reads => readMore (missing + 1) reads
  | _ + 1, .endOfFile :: reads => ([], reads, true)
  | _ + 1, .failed :: reads => ([], reads, true)

/-- Reads until `wanted` bytes are ahead or reading has ended. -/
def fill (s : FileSource) (wanted : Nat) : FileSource :=
  if s.exhausted then s
  else
    let (bytes, rest, ended) := readMore (wanted - s.ahead.length) s.reads
    { s with reads := rest, ahead := s.ahead ++ bytes, exhausted := ended }

/-- The byte `offset` places ahead, none past the end. -/
def peek (s : FileSource) (offset : Nat) : Option UInt8 × FileSource :=
  let s := s.fill (offset + 1)
  (s.ahead[offset]?, s)

/-- Gives out the next byte. -/
def consume (s : FileSource) : Option UInt8 × FileSource :=
  let s := s.fill 1
  match s.ahead with
  | b :: ahead => (some b, { s with ahead := ahead })
  | [] => (none, s)

end FileSource

/-- The bytes that the results of reading a file deliver: those before its end or a failure. -/
def ReadResult.content : List ReadResult → List UInt8
  | .byte b :: reads => b :: content reads
  | .interrupted :: reads => content reads
  | _ => []

/-- The results of reading a file with this content one byte at a time. -/
def ReadResult.ofContent (bytes : List UInt8) : List ReadResult := bytes.map .byte ++ [.endOfFile]

theorem ReadResult.content_ofContent (bytes : List UInt8) : content (ofContent bytes) = bytes := by
  induction bytes with
  | nil => rfl
  | cons b bytes ih =>
    show b :: content (ofContent bytes) = b :: bytes
    rw [ih]

end GoSyntax
