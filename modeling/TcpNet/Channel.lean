namespace TcpNet

/-- An `int` used as a set of `poll` event bits. -/
abbrev Events := BitVec 32

def POLLIN : Events := 0x001#32
def POLLPRI : Events := 0x002#32
def POLLOUT : Events := 0x004#32
def POLLERR : Events := 0x008#32
def POLLHUP : Events := 0x010#32
def POLLNVAL : Events := 0x020#32
def POLLRDHUP : Events := 0x2000#32

/-- The callbacks a channel can make to its owner. -/
inductive Handler where
  | close
  | error
  | read
  | write
  deriving DecidableEq, Repr

/-- The descriptor and the event sets of a `Channel`. -/
structure Channel where
  fd_ : Int
  event_ : Events
  deriving DecidableEq, Repr

namespace Channel

def kNoneEvent : Events := 0

def kReadEvent : Events := POLLIN ||| POLLPRI

def kWriteEvent : Events := POLLOUT

def new (fd : Int) : Channel := ⟨fd, 0⟩

def isNoneEvent (ch : Channel) : Bool := ch.event_ = kNoneEvent

def enableReading (ch : Channel) : Channel := { ch with event_ := ch.event_ ||| kReadEvent }

def enableWriting (ch : Channel) : Channel := { ch with event_ := ch.event_ ||| kWriteEvent }

def disableWriting (ch : Channel) : Channel := { ch with event_ := ch.event_ &&& ~~~kWriteEvent }

def disableAll (ch : Channel) : Channel := { ch with event_ := kNoneEvent }

def isWriting (ch : Channel) : Bool := ch.event_ &&& kWriteEvent ≠ 0

/-- The callbacks that `handleEvent` makes for the reported events, in order. -/
def handleEvent (revent : Events) : List Handler :=
  (if revent &&& POLLHUP ≠ 0 ∧ revent &&& POLLIN ≠ 0 then [.close] else []) ++
  (if revent &&& (POLLNVAL ||| POLLERR) ≠ 0 then [.error] else []) ++
  (if revent &&& (POLLIN ||| POLLPRI ||| POLLRDHUP) ≠ 0 then [.read] else []) ++
  (if revent &&& POLLOUT ≠ 0 then [.write] else [])

@[simp] theorem isWriting_enableReading (ch : Channel) :
    ch.enableReading.isWriting = ch.isWriting := by
  have hdistinct : kReadEvent &&& kWriteEvent = 0 := by decide
  simp only [isWriting, enableReading, BitVec.and_or_distrib_right, hdistinct]
  simp

@[simp] theorem isWriting_enableWriting (ch : Channel) : ch.enableWriting.isWriting = true := by
  have habsorb : (ch.event_ ||| kWriteEvent) &&& kWriteEvent = kWriteEvent := by
    ext i hi
    simp only [BitVec.getElem_and, BitVec.getElem_or]
    cases ch.event_[i] <;> cases kWriteEvent[i] <;> rfl
  have hbit : kWriteEvent ≠ 0 := by decide
  simp only [isWriting, enableWriting, habsorb, decide_eq_true_eq]
  exact hbit

@[simp] theorem isWriting_disableWriting (ch : Channel) : ch.disableWriting.isWriting = false := by
  have hcleared : ch.event_ &&& ~~~kWriteEvent &&& kWriteEvent = 0 := by
    ext i
    simp
  simp [isWriting, disableWriting, hcleared]

@[simp] theorem isWriting_disableAll (ch : Channel) : ch.disableAll.isWriting = false := by
  simp [isWriting, disableAll, kNoneEvent]

theorem isWriting_of_none {ch : Channel} (h : ch.event_ = kNoneEvent) : ch.isWriting = false := by
  simp [isWriting, h, kNoneEvent]

/-- The bits of `kReadEvent` in an event set. -/
theorem and_kReadEvent_enableReading (ch : Channel) :
    ch.enableReading.event_ &&& kReadEvent = kReadEvent := by
  ext i hi
  simp only [enableReading, BitVec.getElem_and, BitVec.getElem_or]
  cases ch.event_[i] <;> cases kReadEvent[i] <;> rfl

theorem and_kReadEvent_enableWriting (ch : Channel) :
    ch.enableWriting.event_ &&& kReadEvent = ch.event_ &&& kReadEvent := by
  have hdistinct : kWriteEvent &&& kReadEvent = 0 := by decide
  simp only [enableWriting, BitVec.and_or_distrib_right, hdistinct]
  simp

theorem and_kReadEvent_disableWriting (ch : Channel) :
    ch.disableWriting.event_ &&& kReadEvent = ch.event_ &&& kReadEvent := by
  have hdistinct : ~~~kWriteEvent &&& kReadEvent = kReadEvent := by decide
  rw [disableWriting, BitVec.and_assoc, hdistinct]

/-- A channel that reads asks for some event. -/
theorem isNoneEvent_of_reading {ch : Channel} (h : ch.event_ &&& kReadEvent = kReadEvent) :
    ch.isNoneEvent = false := by
  have hbits : kNoneEvent &&& kReadEvent ≠ kReadEvent := by decide
  rw [isNoneEvent, decide_eq_false_iff_not]
  intro hnone
  rw [hnone] at h
  exact hbits h

/-- A `short` keeps the bit of `kWriteEvent`. -/
theorem isWriting_iff_setWidth (ch : Channel) :
    ch.isWriting = true ↔ ch.event_.setWidth 16 &&& POLLOUT.setWidth 16 ≠ 0 := by
  have hbit : POLLOUT = BitVec.twoPow 32 2 := by decide
  have hbit' : POLLOUT.setWidth 16 = BitVec.twoPow 16 2 := by decide
  rw [isWriting, kWriteEvent, hbit', hbit, decide_eq_true_iff, BitVec.and_twoPow,
    BitVec.and_twoPow, BitVec.getLsbD_setWidth]
  cases ch.event_.getLsbD 2 <;> decide

end Channel

end TcpNet
