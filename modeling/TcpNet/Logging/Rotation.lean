import TcpNet.Library.Files
import TcpNet.Library.Transition
import TcpNet.Logging
import Mathlib.Data.Int.Order.Basic

open CString Files Transition

namespace TcpNet

def LogLevel.toNat : LogLevel → Nat
  | .TRACE => 0
  | .DEBUG => 1
  | .INFO => 2
  | .WARN => 3
  | .ERROR => 4
  | .FATAL => 5
  | .ALL => 6

/-- The variable that `tzset` sets, and what `localtime_r` makes of a time. -/
structure TimeZone where
  timezone : Int
  localtime : Int → Tm

/-- A `Logger` with all its fields. -/
structure FileLogger extends Logger where
  level_ : LogLevel
  rotateInterval_ : Int
  lastRotate_ : Int
  fileName_ : Bytes
  deriving DecidableEq, Repr

/-- A logger, and the directory and the descriptors that it works with. -/
structure LogFiles where
  logger : FileLogger
  disk : Disk Bytes Byte

/-- A call of `record`: its arguments, the times that it asks for, what `rename`, `open` and
    `write` come to, and what its arrays hold where that is not known. -/
structure RecordCall where
  level : LogLevel
  file : Bytes
  line : Int
  message : Bytes
  tid : Int
  nowTime : Int
  tv_sec : Int
  tv_usec : Int
  renames : Bool
  fd : Int
  accepts : Nat
  buf : Vector Byte Logger.bufSize
  left : Bytes
  nameLeft : Bytes

/-- What a call of `record` has written, and the time at which it looked for a rotation. -/
structure LogEntry where
  time : Int
  text : Bytes
  deriving DecidableEq, Repr

namespace FileLogger

/-- The constructor, at a time. -/
def new (time : Int) : FileLogger where
  fd_ := -1
  level_ := .TRACE
  rotateInterval_ := 86400
  lastRotate_ := time
  fileName_ := []

def setLogLevel (logger : FileLogger) (level : LogLevel) : FileLogger :=
  { logger with level_ := if level.toNat ≤ LogLevel.ALL.toNat then level else .ALL }

def setRotateInterval (logger : FileLogger) (rotateInterval : Int) : FileLogger :=
  { logger with rotateInterval_ := rotateInterval }

/-- The number of the interval that a time is in. -/
def interval (zone : TimeZone) (logger : FileLogger) (time : Int) : Int :=
  (time - zone.timezone).tdiv logger.rotateInterval_

/-- `newName`, a `char[1024]` full of zeros, behind `"%s.%d%02d%02d%02d%02d"`. -/
def newName (fileName : Bytes) (ntm : Tm) (left : Bytes) : Option Bytes := do
  let text := [string fileName, ascii ['.'], zeroPadded 0 (ntm.tm_year + 1900),
    zeroPadded 2 (ntm.tm_mon + 1), zeroPadded 2 ntm.tm_mday, zeroPadded 2 ntm.tm_hour,
    zeroPadded 2 ntm.tm_min].flatten
  let (_, buf) ← CString.snprintf (List.replicate 1024 0) 0 1024 text left
  return string buf

end FileLogger

namespace LogFiles

/-- `open` for the log: it changes nothing and returns -1, or it returns a descriptor that
    was free. -/
def openLog (disk : Disk Bytes Byte) (name : Bytes) (fd : Int) :
    Except Stop (Disk Bytes Byte) :=
  if fd = -1 then return disk
  else do
    enabled (name ≠ [] ∧ 0 ≤ fd ∧ disk.opened fd = none)
    return disk.openAppend name fd

/-- `dup2(fd, fd_)`, which is only logged where it fails, and `close(fd)`. -/
def redirect (s : LogFiles) (fd : Int) : LogFiles :=
  { s with disk := ((s.disk.dup2 fd s.logger.fd_).getD s.disk).close fd }

def setFileName (s : LogFiles) (fileName : Bytes) (fd : Int) : Except Stop LogFiles := do
  let logger := if fileName.length ≠ 0 then { s.logger with fileName_ := fileName } else s.logger
  let disk ← openLog s.disk (string logger.fileName_) fd
  if logger.fd_ = -1 then
    return ⟨{ logger with fd_ := fd }, disk⟩
  else
    return redirect ⟨logger, disk⟩ fd

/-- Is a rotation due? It is asked twice in the same way. A division by zero ends the
    program. -/
def isDue (zone : TimeZone) (logger : FileLogger) (nowTime : Int) : Except Stop Bool :=
  if logger.fileName_.length = 0 then return false
  else do
    require (logger.rotateInterval_ ≠ 0)
    return logger.interval zone nowTime ≠ logger.interval zone logger.lastRotate_

/-- `lastRotate_` moves on whatever comes of the rotation. -/
def rotateFile (zone : TimeZone) (s : LogFiles) (call : RecordCall) : Except Stop LogFiles := do
  if ← isDue zone s.logger call.nowTime then
    let s := { s with logger := { s.logger with lastRotate_ := call.nowTime } }
    let oldName := string s.logger.fileName_
    match FileLogger.newName s.logger.fileName_ (zone.localtime call.nowTime) call.nameLeft with
    | none => throw .disabled
    | some newName =>
      match if call.renames then s.disk.rename oldName newName else none with
      | none => return s
      | some disk =>
        let disk ← openLog disk oldName call.fd
        if call.fd < 0 then return { s with disk := disk }
        else return redirect { s with disk := disk } call.fd
  else
    return s

/-- The line goes to the standard output as long as there is no log file. Where `record`
    writes outside of its buffer there is no step. -/
def record (zone : TimeZone) (s : LogFiles) (call : RecordCall) :
    Except Stop (LogFiles × List LogEntry) := do
  let s ← s.rotateFile zone call
  match s.logger.record (zone.localtime call.tv_sec) call.tv_usec call.tid call.level call.file
    call.line call.message call.buf call.left with
  | none => throw .disabled
  | some (fd, bytes) =>
    match s.disk.write fd (bytes.take call.accepts) with
    | none => return (s, [])
    | some disk => return ({ s with disk := disk }, [⟨call.nowTime, bytes.take call.accepts⟩])

def hlog (zone : TimeZone) (s : LogFiles) (call : RecordCall) :
    Except Stop (LogFiles × List LogEntry) :=
  if s.logger.level_.toNat ≤ call.level.toNat then s.record zone call else return (s, [])

/-- What a program does with its logger. -/
inductive Action where
  | hlog (call : RecordCall)
  | setLogLevel (level : LogLevel)
  | setRotateInterval (rotateInterval : Int)

def step (zone : TimeZone) (s : LogFiles) : Action → Except Stop (LogFiles × List LogEntry)
  | .hlog call => s.hlog zone call
  | .setLogLevel level => return ({ s with logger := s.logger.setLogLevel level }, [])
  | .setRotateInterval rotateInterval =>
    return ({ s with logger := s.logger.setRotateInterval rotateInterval }, [])

/-- The name of a log file has been set, and the file was opened. -/
def Started (s : LogFiles) : Prop :=
  ∃ (s₀ : LogFiles) (fileName : Bytes) (fd : Int), s₀.disk.Sound ∧ s₀.logger.fd_ = -1 ∧
    fileName.length ≠ 0 ∧ 0 ≤ fd ∧ s₀.setFileName fileName fd = .ok s

def machine (zone : TimeZone) : Machine LogFiles Action LogEntry where
  init := Started
  step := step zone

section Rotation

variable {zone : TimeZone} {s s' : LogFiles} {call : RecordCall}

/-- A rotation is due at a time. -/
def Due (zone : TimeZone) (logger : FileLogger) (time : Int) : Prop :=
  logger.fileName_.length ≠ 0 ∧
    logger.interval zone time ≠ logger.interval zone logger.lastRotate_

instance (zone : TimeZone) (logger : FileLogger) (time : Int) : Decidable (Due zone logger time) :=
  inferInstanceAs (Decidable (_ ∧ _))

/-- The name that the log file of a call gets. -/
def nameOf (zone : TimeZone) (s : LogFiles) (call : RecordCall) : Option Bytes :=
  FileLogger.newName s.logger.fileName_ (zone.localtime call.nowTime) call.nameLeft

/-- Behind a call that has tried to rotate, apart from the files. -/
def tried (s : LogFiles) (call : RecordCall) (disk : Disk Bytes Byte) : LogFiles :=
  ⟨{ s.logger with lastRotate_ := call.nowTime }, disk⟩

/-- What a rotation can come to: none is due, the old file keeps its name, no new file is
    opened, or the log goes on in a new file. -/
inductive RotateFile (zone : TimeZone) (s : LogFiles) (call : RecordCall) : LogFiles → Prop
  | idle (hdue : ¬ Due zone s.logger call.nowTime) : RotateFile zone s call s
  | kept {newName : Bytes} (hdue : Due zone s.logger call.nowTime)
      (hname : nameOf zone s call = some newName)
      (hfails : call.renames = true →
        s.disk.rename (string s.logger.fileName_) newName = none) :
      RotateFile zone s call (s.tried call s.disk)
  | unopened {newName : Bytes} {disk : Disk Bytes Byte} (hdue : Due zone s.logger call.nowTime)
      (hname : nameOf zone s call = some newName)
      (hrename : s.disk.rename (string s.logger.fileName_) newName = some disk)
      (hfd : call.fd < 0) : RotateFile zone s call (s.tried call disk)
  | rotated {newName : Bytes} {disk : Disk Bytes Byte} (hdue : Due zone s.logger call.nowTime)
      (hname : nameOf zone s call = some newName)
      (hrename : s.disk.rename (string s.logger.fileName_) newName = some disk)
      (hfd : 0 ≤ call.fd) (hfree : disk.opened call.fd = none) :
      RotateFile zone s call
        ((s.tried call (disk.openAppend (string s.logger.fileName_) call.fd)).redirect call.fd)

theorem isDue_eq_ok {logger : FileLogger} {time : Int} {due : Bool}
    (h : isDue zone logger time = .ok due) : due = decide (Due zone logger time) := by
  unfold isDue at h
  split at h
  · rename_i hname
    rw [pure_eq_ok_iff] at h
    rw [← h, eq_comm, decide_eq_false_iff_not]
    exact fun hdue => hdue.1 hname
  · rename_i hname
    simp only [bind_eq_ok_iff, pure_eq_ok_iff] at h
    obtain ⟨_, _, rfl⟩ := h
    exact decide_eq_decide.mpr (and_iff_right hname).symm

theorem openLog_eq_ok {disk disk' : Disk Bytes Byte} {name : Bytes} {fd : Int}
    (h : openLog disk name fd = .ok disk') :
    fd < 0 ∧ disk' = disk ∨ 0 ≤ fd ∧ disk.opened fd = none ∧ disk' = disk.openAppend name fd := by
  unfold openLog at h
  split at h
  · rename_i hfails
    exact .inl ⟨by omega, (pure_eq_ok_iff.mp h).symm⟩
  · simp only [bind_eq_ok_iff, enabled_eq_ok_iff, pure_eq_ok_iff] at h
    obtain ⟨_, ⟨_, hfd, hfree⟩, rfl⟩ := h
    exact .inr ⟨hfd, hfree, rfl⟩

theorem rotateFile_eq_ok (h : s.rotateFile zone call = .ok s') : RotateFile zone s call s' := by
  simp only [rotateFile, bind_eq_ok_iff] at h
  obtain ⟨due, hdue, h⟩ := h
  rw [isDue_eq_ok hdue] at h
  split at h
  · rename_i hdue
    have hdue := of_decide_eq_true hdue
    split at h
    · cases h
    · rename_i newName hname
      split at h
      · rename_i hfails
        obtain rfl := pure_eq_ok_iff.mp h
        exact .kept hdue hname fun hrenames => (if_pos hrenames).symm.trans hfails
      · rename_i disk hrename
        simp only [Option.ite_none_right_eq_some] at hrename
        obtain ⟨_, hrename⟩ := hrename
        simp only [bind_eq_ok_iff] at h
        obtain ⟨disk', hopen, h⟩ := h
        obtain ⟨hfd, rfl⟩ | ⟨hfd, hfree, rfl⟩ := openLog_eq_ok hopen
        · rw [if_pos hfd, pure_eq_ok_iff] at h
          subst h
          exact .unopened hdue hname hrename hfd
        · rw [if_neg (Int.not_lt.mpr hfd), pure_eq_ok_iff] at h
          subst h
          exact .rotated hdue hname hrename hfd hfree
  · rename_i hidle
    obtain rfl := pure_eq_ok_iff.mp h
    exact .idle fun hdue => hidle (decide_eq_true hdue)

end Rotation

end LogFiles

end TcpNet
