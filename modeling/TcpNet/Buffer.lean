import TcpNet.Library.Memory
import TcpNet.Library.Search
import TcpNet.Library.Transition
import Mathlib.Algebra.Group.Nat.Defs

open Transition

namespace TcpNet

/-- One `char` of the program. -/
abbrev Byte := UInt8

abbrev Bytes := List Byte

/-- A string literal of the program, by its ASCII characters. -/
def ascii (text : List Char) : Bytes := text.map Char.toUInt8

/-- The vector and the two indexes of a `Buffer`. A pointer into the vector is
    its offset from `begin()`, and `ssize_t` and `size_t` values are natural
    numbers: sizes below `2^63` convert to themselves. -/
structure Buffer where
  buffer_ : Bytes
  readIndex_ : Nat
  writeIndex_ : Nat
  deriving DecidableEq, Repr

/-- What `readv` delivered: the bytes, or an error with its `errno`. -/
inductive ReadResult where
  | delivered (data : Bytes)
  | failed (errno : Nat)
  deriving DecidableEq, Repr

namespace Buffer

def kCheapPrepared : Nat := 8

def kInitialSize : Nat := 1024

/-- `sizeof extraBuf` in `readFd`. -/
def extraBufSize : Nat := 65536

def kCRLF : Bytes := [13, 10]

theorem kCRLF_ne_nil : kCRLF ≠ [] := List.cons_ne_nil 13 [10]

/-- The constructor. -/
def new : Buffer where
  buffer_ := List.replicate (kCheapPrepared + kInitialSize) 0
  readIndex_ := kCheapPrepared
  writeIndex_ := kCheapPrepared

/-- Both buffers after `self.swap(rhs)`. -/
def swap (self rhs : Buffer) : Buffer × Buffer :=
  (⟨rhs.buffer_, rhs.readIndex_, rhs.writeIndex_⟩, ⟨self.buffer_, self.readIndex_, self.writeIndex_⟩)

def readableBytes (b : Buffer) : Nat := b.writeIndex_ - b.readIndex_

def writableBytes (b : Buffer) : Nat := b.buffer_.length - b.writeIndex_

def prependableBytes (b : Buffer) : Nat := b.readIndex_

def peek (b : Buffer) : Nat := b.readIndex_

def beginWrite (b : Buffer) : Nat := b.writeIndex_

/-- The bytes from `readIndex_` to `writeIndex_`: what the buffer holds. -/
def readable (b : Buffer) : Bytes := Memory.slice b.buffer_ b.readIndex_ b.writeIndex_

def retrieve (b : Buffer) (len : Nat) : Except Stop Buffer := do
  require (len ≤ b.readableBytes)
  return { b with readIndex_ := b.readIndex_ + len }

def retrieveUntil (b : Buffer) (stop : Nat) : Except Stop Buffer := do
  require (b.peek ≤ stop)
  require (stop ≤ b.beginWrite)
  b.retrieve (stop - b.peek)

def retrieveAll (b : Buffer) : Buffer :=
  { b with readIndex_ := kCheapPrepared, writeIndex_ := kCheapPrepared }

def retrieveAsString (b : Buffer) : Bytes × Buffer := (b.readable, b.retrieveAll)

/-- Make room for `len` more bytes: grow the vector, or slide the content down
    to `kCheapPrepared` when the free space on both sides is enough. -/
def makeSpace (b : Buffer) (len : Nat) : Except Stop Buffer :=
  if b.writableBytes + b.prependableBytes < len + kCheapPrepared then
    return { b with buffer_ := Memory.resize b.buffer_ (b.writeIndex_ + len) 0 }
  else do
    require (kCheapPrepared < b.readIndex_)
    let readable := b.readableBytes
    let moved : Buffer :=
      { buffer_ := Memory.copyInto b.buffer_ kCheapPrepared b.readable
        readIndex_ := kCheapPrepared
        writeIndex_ := kCheapPrepared + readable }
    require (readable = moved.readableBytes)
    return moved

def ensureWritableBytes (b : Buffer) (len : Nat) : Except Stop Buffer := do
  let b ← if b.writableBytes < len then b.makeSpace len else pure b
  require (b.writableBytes ≥ len)
  return b

def hasWriten (b : Buffer) (len : Nat) : Buffer := { b with writeIndex_ := b.writeIndex_ + len }

/-- `std::copy` to the vector, from the position of a pointer into it. -/
def copyTo (b : Buffer) (pos : Nat) (data : Bytes) : Buffer :=
  { b with buffer_ := Memory.copyInto b.buffer_ pos data }

def append (b : Buffer) (data : Bytes) : Except Stop Buffer := do
  let b ← b.ensureWritableBytes data.length
  return (b.copyTo b.beginWrite data).hasWriten data.length

def prepend (b : Buffer) (data : Bytes) : Except Stop Buffer := do
  require (data.length ≤ b.prependableBytes)
  let b := { b with readIndex_ := b.readIndex_ - data.length }
  return b.copyTo b.readIndex_ data

/-- `readv` fills the tail of the vector first and `extraBuf` after it. The
    returned number is negative on error, where `*saveError` is the second. -/
def readFd (b : Buffer) : ReadResult → Except Stop (Int × Option Nat × Buffer)
  | .failed errno => return (-1, some errno, b)
  | .delivered data => do
    let writable := b.writableBytes
    let filled := b.copyTo b.beginWrite (data.take writable)
    if data.length ≤ writable then
      return (data.length, none, filled.hasWriten data.length)
    else
      let full := { filled with writeIndex_ := filled.buffer_.length }
      let b ← full.append (data.drop writable)
      return (data.length, none, b)

/-- The position of the first CRLF among the readable bytes. -/
def findCRLF (b : Buffer) : Option Nat :=
  (Search.search kCRLF b.readable).map (b.peek + ·)

/-- `max_size()` of a `std::vector<char>`. -/
def maxSize : Nat := 2 ^ 63 - 1

/-- `std::vector<char> buf(n)`, which throws an exception where `n` is too large. -/
def vector (n : Nat) : Option Bytes := if n ≤ maxSize then some (List.replicate n 0) else none

/-- The size of the new vector is computed in a `size_t`. There is no result where the
    vector throws, and where the copy would leave one of the two vectors. -/
def shrink (b : Buffer) (reserve : Nat) : Option Buffer := do
  let buf ← vector ((kCheapPrepared + b.readableBytes + reserve) % 2 ^ 64)
  let data ← Memory.load b.buffer_ b.peek (b.peek + b.readableBytes)
  let buf ← Memory.store buf kCheapPrepared data
  return { b with buffer_ := buf }

/-- What every public operation keeps: the indexes are in order and inside the
    vector, and the vector never shrinks below its reserved front. -/
structure Valid (b : Buffer) : Prop where
  read_le_write : b.readIndex_ ≤ b.writeIndex_
  write_le_size : b.writeIndex_ ≤ b.buffer_.length
  cheap_le_size : kCheapPrepared ≤ b.buffer_.length

instance (b : Buffer) : Decidable b.Valid :=
  decidable_of_iff
    (b.readIndex_ ≤ b.writeIndex_ ∧ b.writeIndex_ ≤ b.buffer_.length ∧
      kCheapPrepared ≤ b.buffer_.length)
    ⟨fun ⟨h1, h2, h3⟩ => ⟨h1, h2, h3⟩, fun h => ⟨h.1, h.2, h.3⟩⟩

end Buffer

end TcpNet
