import TcpNet.Decimal
import TcpNet.Library.CString
import Mathlib.Algebra.Group.Int.Defs

open CString

namespace TcpNet

/-- The fields of a `struct tm` that a log line shows. -/
structure Tm where
  tm_year : Int
  tm_mon : Int
  tm_mday : Int
  tm_hour : Int
  tm_min : Int
  tm_sec : Int
  deriving DecidableEq, Repr

inductive LogLevel where
  | TRACE
  | DEBUG
  | INFO
  | WARN
  | ERROR
  | FATAL
  | ALL
  deriving DecidableEq, Repr

/-- A number as `%0nd` writes it, in `width` characters at least. -/
def zeroPadded (width : Nat) (n : Int) : Bytes :=
  let sign := if n < 0 then ascii ['-'] else []
  let digits := decimal n.natAbs
  sign ++ List.replicate (width - sign.length - digits.length) 48 ++ digits

/-- A `long` as `%lx` writes it. -/
def hex (n : Int) : Bytes := ascii (Nat.toDigits 16 (n % 2 ^ 64).toNat)

/-- The descriptor of the log file, or -1. -/
structure Logger where
  fd_ : Int
  deriving DecidableEq, Repr

namespace Logger

def levelStr : LogLevel → Bytes
  | .TRACE => ascii ['T', 'R', 'A', 'C', 'E']
  | .DEBUG => ascii ['D', 'E', 'B', 'U', 'G']
  | .INFO => ascii ['I', 'N', 'F', 'O']
  | .WARN => ascii ['W', 'R', 'A', 'N']
  | .ERROR => ascii ['E', 'R', 'R', 'O', 'R']
  | .FATAL => ascii ['F', 'A', 'T', 'A', 'L']
  | .ALL => ascii ['A', 'L', 'L']

/-- `"%04d/%02d/%02d-%02d:%02d:%02d:%06d %lx %s %s:%d  "`, what stands in front of a
    message. -/
def formatStamp (t : Tm) (tv_usec tid : Int) (level : LogLevel) (file : Bytes) (line : Int) :
    Bytes :=
  [zeroPadded 4 (t.tm_year + 1900), ascii ['/'], zeroPadded 2 (t.tm_mon + 1), ascii ['/'],
    zeroPadded 2 t.tm_mday, ascii ['-'], zeroPadded 2 t.tm_hour, ascii [':'],
    zeroPadded 2 t.tm_min, ascii [':'], zeroPadded 2 t.tm_sec, ascii [':'],
    zeroPadded 6 tv_usec, ascii [' '], hex tid, ascii [' '], levelStr level, ascii [' '], file,
    ascii [':'], zeroPadded 0 line, ascii [' ', ' ']].flatten

/-- `sizeof(buf)` in `record`. -/
def bufSize : Nat := 1024

/-- `snprintf(pb, pe - pb, ...)` for pointers into `buf`, given as their distance from its
    front. The size is a `size_t`. -/
def printTo (buf : Bytes) (pb pe : Int) (text left : Bytes) : Option (Int × Bytes) :=
  if pb < 0 then none else CString.snprintf buf pb.toNat ((pe - pb) % 2 ^ 64).toNat text left

/-- Go back over the newlines in front of `pb`, and end the line: the bytes for `write`. -/
def endLine (buf : Bytes) (pb : Int) : Option Bytes := do
  let pb ← Memory.scanBack (· = 10) buf pb.toNat
  let buf ← Memory.store buf (pb + 1) [10]
  let buf ← Memory.store buf (pb + 2) [0]
  return buf.take (pb + 2)

/-- What `record` does in `char buf[1024]`, from the first `snprintf` up to `write`. There
    is no result where it reads or writes outside of `buf`. Neither what `buf` holds at
    first nor what a failing `vsnprintf` leaves in it is known. -/
def line (buf : Vector Byte bufSize) (stamp message left : Bytes) : Option Bytes := do
  let pb : Int := 0
  let pe : Int := bufSize
  let (printed, buf) ← printTo buf.toList pb pe stamp left
  let pb := pb + printed
  let (printed, buf) ← printTo buf pb pe message left
  let pb := pb + printed
  let pb := min pb (pe - 2)
  endLine buf pb

/-- The descriptor that gets the line of a message, and the line. -/
def record (logger : Logger) (t : Tm) (tv_usec tid : Int) (level : LogLevel) (file : Bytes)
    (lineno : Int) (message : Bytes) (buf : Vector Byte bufSize) (left : Bytes) :
    Option (Int × Bytes) := do
  let bytes ← line buf (formatStamp t tv_usec tid level file lineno) message left
  return (if logger.fd_ = -1 then 1 else logger.fd_, bytes)

end Logger

end TcpNet
