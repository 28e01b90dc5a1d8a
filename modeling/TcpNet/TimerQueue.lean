import TcpNet.Library.OrderedSet
import TcpNet.Library.Transition
import TcpNet.TcpConnection
import Mathlib.Algebra.Group.Nat.Defs
import Mathlib.Data.Finset.Card
import Mathlib.Data.Prod.Lex
import Mathlib.Logic.Function.Basic

open Transition

namespace TcpNet

/-- Where a `Timer` object stands in memory. -/
abbrev Addr := Nat

def UINTPTR_MAX : Addr := 2 ^ 64 - 1

/-- The two ways in which a `double` of seconds is used: converted to
    microseconds, and compared with zero. -/
structure Interval where
  micros : Int
  positive : Bool
  nonneg : positive = true → 0 ≤ micros
  deriving DecidableEq

/-- The fields of `Timer` but the callback, which is any user code. Time stamps are
    microseconds since the epoch. -/
structure Timer where
  expiration_ : Int
  interval_ : Interval
  repeat_ : Bool
  sequence_ : Nat
  deriving DecidableEq

namespace Timer

/-- A timer made when `TimerCreated_` was `created`. -/
def new (created : Nat) (when : Int) (interval : Interval) : Timer where
  expiration_ := when
  interval_ := interval
  repeat_ := interval.positive
  sequence_ := created

def restart (timer : Timer) (now : Int) : Timer :=
  { timer with expiration_ := if timer.repeat_ then now + timer.interval_.micros else 0 }

end Timer

structure TimerId where
  timer_ : Addr
  sequence_ : Nat
  deriving DecidableEq

/-- A `pair<TimeStamp, Timer*>`. -/
@[ext] structure Entry where
  first : Int
  second : Addr

namespace Entry

def toPair (e : Entry) : Int ×ₗ Addr := toLex (e.first, e.second)

theorem toPair_injective : Function.Injective toPair := by
  intro e e' h
  simpa [toPair, Entry.ext_iff] using h

/-- Pairs are ordered by expiration first. -/
instance : LinearOrder Entry := LinearOrder.lift' toPair toPair_injective

theorem lt_iff {e e' : Entry} :
    e < e' ↔ e.first < e'.first ∨ e.first = e'.first ∧ e.second < e'.second :=
  Prod.Lex.toLex_lt_toLex

theorem first_le_of_le {e e' : Entry} (h : e ≤ e') : e.first ≤ e'.first := by
  rcases lt_or_eq_of_le h with hlt | rfl
  · rcases lt_iff.mp hlt with hfirst | hequal
    · exact le_of_lt hfirst
    · exact le_of_eq hequal.1
  · exact le_refl e.first

end Entry

/-- A `pair<Timer*, int64_t>`. Nobody looks at the order of these. -/
abbrev ActiveTimer := Addr × Nat

/-- The `itimerspec` value that a timer descriptor is set with. -/
structure Timespec where
  tv_sec : Int
  tv_nsec : Int
  deriving DecidableEq

def kMicroSecondsPerSecond : Int := 1000000

def howMuchTimeFromNow (when now : Int) : Timespec :=
  let microseconds := if when - now < 100 then 100 else when - now
  { tv_sec := microseconds / kMicroSecondsPerSecond
    tv_nsec := microseconds % kMicroSecondsPerSecond * 1000 }

/-- What can be seen of the timers of one loop. They go by their `sequence_`,
    which no two timers of the process share. -/
inductive TimerEvent where
  | created (timer : Nat)
  | inserted (timer : Nat)
  | returned (timer : Nat) (id : TimerId)
  | cancelled (id : TimerId)
  | handleRead (now : Int)
  | ran (timer : Nat)
  | deleted (timer : Nat)
  | settime (expiration : Int) (value : Timespec)
  deriving DecidableEq

def resetTimerfd (expiration now : Int) : TimerEvent :=
  .settime expiration (howMuchTimeFromNow expiration now)

structure TimerQueue where
  timers_ : OrderedSet Entry
  callingExpiredTimers_ : Bool
  activeTiemrs_ : Finset ActiveTimer
  cancelingTimers_ : Finset ActiveTimer
  deriving DecidableEq

namespace TimerQueue

def new : TimerQueue where
  timers_ := .empty
  callingExpiredTimers_ := false
  activeTiemrs_ := ∅
  cancelingTimers_ := ∅

/-- Whether a timer that expires at `when` comes before all others. -/
def earliestChanged (queue : TimerQueue) (when : Int) : Bool :=
  match queue.timers_.begin? with
  | none => true
  | some first => when < first.first

/-- Both inserts, with the value `created` of `Timer::numCreated()`. -/
def insert (queue : TimerQueue) (timer : Addr) (when : Int) (created : Nat) :
    Except Stop TimerQueue := do
  require (⟨when, timer⟩ ∉ queue.timers_.elems)
  require ((timer, created) ∉ queue.activeTiemrs_)
  return { queue with
    timers_ := queue.timers_.insert ⟨when, timer⟩
    activeTiemrs_ := Insert.insert (timer, created) queue.activeTiemrs_ }

/-- The sentry of `getExpired`. -/
def sentry (now : Int) : Entry := ⟨now, UINTPTR_MAX⟩

/-- Take the expired entries out of `timers_`. -/
def splitExpired (queue : TimerQueue) (now : Int) : Except Stop (TimerQueue × List Entry) := do
  let rest := queue.timers_.above (sentry now)
  require (∀ first ∈ rest.begin?, now < first.first)
  return ({ queue with timers_ := rest }, queue.timers_.below (sentry now))

/-- Take one of them out of `activeTiemrs_`. -/
def eraseActive (queue : TimerQueue) (timer : Addr) (created : Nat) : Except Stop TimerQueue := do
  require ((timer, created) ∈ queue.activeTiemrs_)
  return { queue with activeTiemrs_ := queue.activeTiemrs_.erase (timer, created) }

end TimerQueue

/-- How far `handleRead` is, which then holds on to the entries that expired:
    `getExpired` has some of them still to take out of `activeTiemrs_`, or some
    callbacks are still to run, or `reset` has some of them left, the first of
    which it may be about to insert. -/
inductive Phase where
  | idle
  | expiring (now : Int) (todo expired : List Entry)
  | running (now : Int) (todo expired : List Entry)
  | resetting (now : Int) (todo : List Entry)
  | restarting (now : Int) (entry : Entry) (todo : List Entry)
  deriving DecidableEq

/-- User code runs in the thread of the loop: outside `handleRead`, or in the
    callback that was called last. -/
def Phase.RunsUserCode : Phase → Prop
  | .idle => True
  | .running _ todo expired => todo.length < expired.length
  | _ => False

instance (phase : Phase) : Decidable phase.RunsUserCode := by
  cases phase <;> unfold Phase.RunsUserCode <;> infer_instance

/-- Where a call of `addTimer` stands: the timer is there, or its insertion is
    done or queued. The number of the timer is kept for the statements only. -/
inductive AddTimer where
  | created (addr : Addr) (timer : Nat)
  | added (addr : Addr) (timer : Nat)
  deriving DecidableEq

inductive TimerFunctor where
  | addTimerInloop (timer : Addr)
  | cancelInLoop (timerId : TimerId)
  deriving DecidableEq

/-- The queue of one loop, with the objects and the counter of the process. The
    functors of the loop that concern its timers run in the order in which they
    were queued. -/
structure TimerSystem where
  queue : TimerQueue
  timers : Addr → Option Timer
  timerCreated_ : Nat
  functors : List TimerFunctor
  phase : Phase
  calls : ThreadId → Option AddTimer

/-- The thread of the loop. -/
def loopThread : ThreadId := 0

/-- One step of the thread of the loop, of another thread that calls `addTimer`
    or `cancel`, or of a thread that makes a timer for another loop. The clock
    readings and the addresses that `new` returns are left open. -/
inductive TimerAction where
  | newTimer (t : ThreadId) (addr : Addr) (when : Int) (interval : Interval)
  | newElsewhere
  | runInLoop (t : ThreadId) (now : Int)
  | returnId (t : ThreadId)
  | cancel (t : ThreadId) (timerId : TimerId)
  | callFunctor (now : Int)
  | handleRead (now : Int)
  | eraseActive
  | beginCalling
  | run
  | endCalling
  | reset
  | restart
  | finishReset (now : Int)
  deriving DecidableEq

namespace TimerSystem

def start : TimerSystem where
  queue := .new
  timers := fun _ => none
  timerCreated_ := 0
  functors := []
  phase := .idle
  calls := fun _ => none

/-- Follow a pointer. A dangling one counts as a failed assertion. -/
def deref (s : TimerSystem) (addr : Addr) : Except Stop Timer :=
  match s.timers addr with
  | some timer => return timer
  | none => throw .assertion

def setTimer (s : TimerSystem) (addr : Addr) (timer : Option Timer) : TimerSystem :=
  { s with timers := Function.update s.timers addr timer }

def setCall (s : TimerSystem) (t : ThreadId) (call : Option AddTimer) : TimerSystem :=
  { s with calls := Function.update s.calls t call }

def queueInloop (s : TimerSystem) (cb : TimerFunctor) : TimerSystem :=
  { s with functors := s.functors ++ [cb] }

/-- Nobody uses the thread of the loop but the user code it may be running. -/
def RunsUser (s : TimerSystem) (t : ThreadId) : Prop :=
  s.calls t = none ∧ (t = loopThread → s.phase.RunsUserCode)

instance (s : TimerSystem) (t : ThreadId) : Decidable (s.RunsUser t) :=
  inferInstanceAs (Decidable (_ ∧ _))

/-- The thread of the loop is in no function of the queue. -/
def Idle (s : TimerSystem) : Prop := s.phase = .idle ∧ s.calls loopThread = none

instance (s : TimerSystem) : Decidable s.Idle := inferInstanceAs (Decidable (_ ∧ _))

def addTimerInloop (s : TimerSystem) (addr : Addr) (now : Int) :
    Except Stop (TimerSystem × List TimerEvent) := do
  let timer ← s.deref addr
  let queue ← s.queue.insert addr timer.expiration_ s.timerCreated_
  return ({ s with queue := queue }, .inserted timer.sequence_ ::
    if s.queue.earliestChanged timer.expiration_ then [resetTimerfd timer.expiration_ now] else [])

def cancelInLoop (s : TimerSystem) (timerId : TimerId) :
    Except Stop (TimerSystem × List TimerEvent) := do
  require (s.queue.timers_.size = s.queue.activeTiemrs_.card)
  let active : ActiveTimer := (timerId.timer_, timerId.sequence_)
  if active ∈ s.queue.activeTiemrs_ then
    let timer ← s.deref timerId.timer_
    let entry : Entry := ⟨timer.expiration_, timerId.timer_⟩
    require (entry ∈ s.queue.timers_.elems)
    let queue := { s.queue with
      timers_ := s.queue.timers_.erase entry
      activeTiemrs_ := s.queue.activeTiemrs_.erase active }
    return ({ s with queue := queue }.setTimer timerId.timer_ none,
      [.cancelled timerId, .deleted timer.sequence_])
  else if s.queue.callingExpiredTimers_ then
    return ({ s with queue := { s.queue with
        cancelingTimers_ := Insert.insert active s.queue.cancelingTimers_ } }, [.cancelled timerId])
  else
    return (s, [.cancelled timerId])

def runFunctor (s : TimerSystem) (cb : TimerFunctor) (now : Int) :
    Except Stop (TimerSystem × List TimerEvent) :=
  match cb with
  | .addTimerInloop timer => s.addTimerInloop timer now
  | .cancelInLoop timerId => s.cancelInLoop timerId

/-- The first line of `addTimer`. -/
def newTimer (s : TimerSystem) (t : ThreadId) (addr : Addr) (when : Int)
    (interval : Interval) : TimerSystem × List TimerEvent :=
  let timer := Timer.new s.timerCreated_ when interval
  (({ s with timerCreated_ := s.timerCreated_ + 1 }.setTimer addr (some timer)).setCall t
    (some (.created addr timer.sequence_)), [.created timer.sequence_])

/-- One round of the loop in `reset`, up to the insertion of a timer that is to run
    again. -/
def resetOne (s : TimerSystem) (now : Int) (entry : Entry) (todo : List Entry) :
    Except Stop (TimerSystem × List TimerEvent) := do
  let timer ← s.deref entry.second
  if timer.repeat_ ∧ (entry.second, s.timerCreated_) ∉ s.queue.cancelingTimers_ then
    return ({ s with phase := .restarting now entry todo }.setTimer entry.second
      (some (timer.restart now)), [])
  else
    return ({ s with phase := .resetting now todo }.setTimer entry.second none,
      [.deleted timer.sequence_])

/-- The end of `reset`. Without timers `nextExpire` is zero, and is not valid. -/
def finishReset (s : TimerSystem) (now : Int) : TimerSystem × List TimerEvent :=
  let nextExpire := match s.queue.timers_.begin? with
    | some first => first.first
    | none => 0
  ({ s with phase := .idle }, if nextExpire > 0 then [resetTimerfd nextExpire now] else [])

def step (s : TimerSystem) : TimerAction → Except Stop (TimerSystem × List TimerEvent)
  | .newTimer t addr when interval => do
    enabled (s.RunsUser t)
    enabled (s.timers addr = none ∧ 0 < addr ∧ addr < UINTPTR_MAX)
    return s.newTimer t addr when interval
  | .newElsewhere =>
    return ({ s with timerCreated_ := s.timerCreated_ + 1 }, [.created s.timerCreated_])
  | .runInLoop t now =>
    match s.calls t with
    | some (.created addr timer) =>
      if t = loopThread then (s.setCall t (some (.added addr timer))).addTimerInloop addr now
      else return ((s.setCall t (some (.added addr timer))).queueInloop (.addTimerInloop addr), [])
    | _ => throw .disabled
  | .returnId t =>
    match s.calls t with
    | some (.added addr timer) =>
      return (s.setCall t none, [.returned timer ⟨addr, s.timerCreated_⟩])
    | _ => throw .disabled
  | .cancel t timerId => do
    enabled (s.RunsUser t)
    if t = loopThread then s.cancelInLoop timerId
    else return (s.queueInloop (.cancelInLoop timerId), [])
  | .callFunctor now =>
    match s.functors with
    | [] => throw .disabled
    | cb :: rest => do
      enabled s.Idle
      ({ s with functors := rest }).runFunctor cb now
  | .handleRead now => do
    enabled s.Idle
    let (queue, expired) ← s.queue.splitExpired now
    return ({ s with queue := queue, phase := .expiring now expired expired }, [.handleRead now])
  | .eraseActive =>
    match s.phase with
    | .expiring now (entry :: todo) expired => do
      let queue ← s.queue.eraseActive entry.second s.timerCreated_
      return ({ s with queue := queue, phase := .expiring now todo expired }, [])
    | _ => throw .disabled
  | .beginCalling =>
    match s.phase with
    | .expiring now [] expired =>
      return ({ s with
        queue := { s.queue with callingExpiredTimers_ := true, cancelingTimers_ := ∅ }
        phase := .running now expired expired }, [])
    | _ => throw .disabled
  | .run =>
    match s.phase with
    | .running now (entry :: todo) expired => do
      enabled (s.calls loopThread = none)
      let timer ← s.deref entry.second
      return ({ s with phase := .running now todo expired }, [.ran timer.sequence_])
    | _ => throw .disabled
  | .endCalling =>
    match s.phase with
    | .running now [] expired => do
      enabled (s.calls loopThread = none)
      return ({ s with
        queue := { s.queue with callingExpiredTimers_ := false }
        phase := .resetting now expired }, [])
    | _ => throw .disabled
  | .reset =>
    match s.phase with
    | .resetting now (entry :: todo) => s.resetOne now entry todo
    | _ => throw .disabled
  | .restart =>
    match s.phase with
    | .restarting now entry todo => do
      let timer ← s.deref entry.second
      let queue ← s.queue.insert entry.second timer.expiration_ s.timerCreated_
      return ({ s with queue := queue, phase := .resetting now todo }, [.inserted timer.sequence_])
    | _ => throw .disabled
  | .finishReset now =>
    match s.phase with
    | .resetting _ [] => return s.finishReset now
    | _ => throw .disabled

def machine : Machine TimerSystem TimerAction TimerEvent where
  init := fun s => s = start
  step := step

end TimerSystem

end TcpNet
