import LTMuduo.Syscall
import LTMuduo.Lib.Block

/-!
# `Buffer`

The functions of `Buffer.h` and `Buffer.cc`. A function returns `none` when one of its copies leaves the vector or the stack buffer, or breaks the precondition of `std::copy`; the pointer arithmetic itself is on unbounded naturals.
-/

namespace LTMuduo

open Block

/-- The vector and its two indices. -/
structure Buffer where
  buffer : List Byte
  readerIndex : Nat
  writerIndex : Nat
  deriving DecidableEq

namespace Buffer

def kCheapPrepend : Nat := 8

def kInitialSize : Nat := 1024

/-- The size of the stack buffer of `readFd`. -/
def extrabufSize : Nat := 65536

/-- The constructor. -/
def new (initialSize : Nat) : Buffer where
  buffer := List.replicate (kCheapPrepend + initialSize) 0
  readerIndex := kCheapPrepend
  writerIndex := kCheapPrepend

def readableBytes (b : Buffer) : Nat := b.writerIndex - b.readerIndex

def writableBytes (b : Buffer) : Nat := b.buffer.length - b.writerIndex

def prependableBytes (b : Buffer) : Nat := b.readerIndex

def retrieveAll (b : Buffer) : Buffer :=
  { b with readerIndex := kCheapPrepend, writerIndex := kCheapPrepend }

def retrieve (b : Buffer) (len : Nat) : Buffer :=
  if len < b.readableBytes then { b with readerIndex := b.readerIndex + len } else b.retrieveAll

/-- `std::string result(peek(), len)`, then `retrieve(len)`. -/
def retrieveAsString (b : Buffer) (len : Nat) : Option (Buffer × List Byte) :=
  (readBlock b.buffer b.readerIndex len).map fun result => (b.retrieve len, result)

def retrieveAllAsString (b : Buffer) : Option (Buffer × List Byte) :=
  b.retrieveAsString b.readableBytes

def makeSpace (b : Buffer) (len : Nat) : Option Buffer :=
  if b.writableBytes + b.prependableBytes < len + kCheapPrepend then
    some { b with buffer := resize b.buffer (b.writerIndex + len) 0 }
  else
    let readable := b.readableBytes
    (copyBlock b.buffer b.readerIndex b.writerIndex kCheapPrepend).map fun buffer =>
      { buffer, readerIndex := kCheapPrepend, writerIndex := kCheapPrepend + readable }

def ensureWritableBytes (b : Buffer) (len : Nat) : Option Buffer :=
  if b.writableBytes < len then b.makeSpace len else some b

/-- `data` is the memory the pointer argument points to. -/
def append (b : Buffer) (data : List Byte) (len : Nat) : Option Buffer := do
  let b ← b.ensureWritableBytes len
  let bytes ← readBlock data 0 len
  let buffer ← writeBlock b.buffer b.writerIndex bytes
  return { b with buffer, writerIndex := b.writerIndex + len }

/-- How many bytes the iovecs of `readFd` hold together. -/
def readvCapacity (b : Buffer) : Nat :=
  if b.writableBytes < extrabufSize then b.writableBytes + extrabufSize else b.writableBytes

/-- Returns the buffer, the result of `readv` and what was stored to `*saveErrno`. -/
def readFd (b : Buffer) (r : ReadvResult) : Option (Buffer × Int × Option Errno) :=
  let extrabuf : List Byte := List.replicate extrabufSize 0
  let writable := b.writableBytes
  let iovcnt := if writable < extrabufSize then 2 else 1
  match r with
  | .failed errno => some (b, -1, some errno)
  | .delivered s => do
    -- `readv` fills iov[0] completely before iov[1], and iov[1] is there only when iovcnt is 2
    let buffer ← writeBlock b.buffer b.writerIndex (s.take writable)
    let extrabuf ← writeBlock (if iovcnt = 2 then extrabuf else []) 0 (s.drop writable)
    let n := s.length
    if n ≤ writable then
      return ({ b with buffer, writerIndex := b.writerIndex + n }, (n : Int), none)
    else
      let full := { b with buffer, writerIndex := buffer.length }
      let b' ← full.append extrabuf (n - writable)
      return (b', (n : Int), none)

/-- Returns the result of `::write`, what was stored to `*saveErrno` and the bytes the kernel took over. -/
def writeFd (b : Buffer) (r : WriteResult) : Option (Int × Option Errno × List Byte) :=
  (readBlock b.buffer b.readerIndex b.readableBytes).map fun data =>
    match r with
    | .accepted _ => (r.returned data.length, none, r.taken data)
    | .failed errno _ => (r.returned data.length, some errno, [])

end Buffer

end LTMuduo
