import Mathlib.Data.List.Basic
import GoSyntax.ByteSource

/-!
# A file is read as if its bytes were in memory

Whatever a source is asked for, it answers as a cursor over the bytes that are left of it. Of bytes in memory these are the bytes behind the
position; of an open file they are the bytes read ahead and those that reads to come deliver before the file ends or a read fails. A
read may be interrupted any number of times, and nothing behind the end or the failure is ever read.
-/

namespace GoSyntax

/-! ## Requests -/

/-- What a source of bytes may be asked for. -/
inductive ByteRequest where
  | peek (offset : Nat)
  | consume

/-- The answers to requests of whoever reads a list of bytes from its front. -/
def ByteRequest.answers : List UInt8 → List ByteRequest → List (Option UInt8)
  | _, [] => []
  | bytes, .peek offset :: qs => bytes[offset]? :: answers bytes qs
  | bytes, .consume :: qs => bytes.head? :: answers bytes.tail qs

namespace MemorySource

/-- The answers to requests in turn, and the source after them. -/
def askAll (s : MemorySource) : List ByteRequest → List (Option UInt8) × MemorySource
  | [] => ([], s)
  | .peek offset :: qs => (s.peek offset :: (askAll s qs).1, (askAll s qs).2)
  | .consume :: qs => (s.consume.1 :: (askAll s.consume.2 qs).1, (askAll s.consume.2 qs).2)

end MemorySource

namespace FileSource

/-- The answers to requests in turn, and the source after them. -/
def askAll (s : FileSource) : List ByteRequest → List (Option UInt8) × FileSource
  | [] => ([], s)
  | .peek offset :: qs => ((s.peek offset).1 :: (askAll (s.peek offset).2 qs).1, (askAll (s.peek offset).2 qs).2)
  | .consume :: qs => (s.consume.1 :: (askAll s.consume.2 qs).1, (askAll s.consume.2 qs).2)

end FileSource

/-! ## Bytes in memory -/

namespace MemorySource

/-- The bytes that have not been given out. -/
def left (s : MemorySource) : List UInt8 := s.bytes.drop s.position

theorem peek_eq (s : MemorySource) (offset : Nat) : s.peek offset = s.left[offset]? := by
  rw [peek, left, List.getElem?_drop]

end MemorySource

/-! ## Reads of a file -/

namespace ReadResult

/-- The results behind the first that ends the reading. -/
def behindEnd : List ReadResult → List ReadResult
  | [] => []
  | .byte _ :: reads | .interrupted :: reads => behindEnd reads
  | .endOfFile :: reads | .failed :: reads => reads

variable {reads : List ReadResult} {bytes : List UInt8} {last : ReadResult}

end ReadResult

namespace FileSource

open ReadResult

/-- The bytes that reads can still deliver, if reading has not ended. -/
def toCome (ended : Bool) (reads : List ReadResult) : List UInt8 := if ended then [] else content reads

/-- The results that are never read. -/
def neverRead (ended : Bool) (reads : List ReadResult) : List ReadResult := if ended then reads else behindEnd reads

/-- The bytes that have not been given out: those read ahead and those to come. -/
def left (s : FileSource) : List UInt8 := s.ahead ++ toCome s.exhausted s.reads

/-- The results of reads that the source never asks for. -/
def spared (s : FileSource) : List ReadResult := neverRead s.exhausted s.reads

end FileSource

end GoSyntax
