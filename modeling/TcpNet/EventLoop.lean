import TcpNet.Library.BatchQueue
import Mathlib.Algebra.Group.Nat.Defs

open Transition

namespace TcpNet

/-- Where the owner thread of a loop stands: before `loop()`, at the call of
    `poll`, in the handlers of `activeChannels_`, or in `doPendingFunctors`
    before and after the queue is swapped out. -/
inductive LoopPhase where
  | created
  | polling
  | dispatching
  | entering
  | calling
  deriving DecidableEq, Repr

/-- The fields of `EventLoop` that the delivery of functors rests on. `functors`
    is the local vector of `doPendingFunctors`, less the functors already called,
    and `wakeups` the counter behind `wakeupFd_`. -/
structure EventLoop (F : Type) where
  phase : LoopPhase
  callingPendingFunctors_ : Bool
  pendingFunctor_ : List F
  functors : List F
  wakeups : Nat

namespace EventLoop

variable {F : Type}

/-- The largest value an eventfd counter can hold. -/
def eventfdMax : Nat := 2 ^ 64 - 2

/-- A new loop. The constructor leaves `callingPendingFunctors_` as it finds it. -/
def new (garbage : Bool) : EventLoop F where
  phase := .created
  callingPendingFunctors_ := garbage
  pendingFunctor_ := []
  functors := []
  wakeups := 0

/-- Add one to the counter. At its maximum the write fails, which is only logged. -/
def wakeup (loop : EventLoop F) : EventLoop F :=
  if loop.wakeups < eventfdMax then { loop with wakeups := loop.wakeups + 1 } else loop

/-- `pendingFunctor_.push_back(cb)` under the mutex, the first half of `queueInloop`. -/
def pushBack (loop : EventLoop F) (cb : F) : EventLoop F :=
  { loop with pendingFunctor_ := loop.pendingFunctor_ ++ [cb] }

/-- The second half of `queueInloop`. -/
def wakeupIfNeeded (loop : EventLoop F) (isInLoopThread : Bool) : EventLoop F :=
  if !isInLoopThread || loop.callingPendingFunctors_ then loop.wakeup else loop

def queueInloop (loop : EventLoop F) (isInLoopThread : Bool) (cb : F) : EventLoop F :=
  (loop.pushBack cb).wakeupIfNeeded isInLoopThread

/-- Read the eventfd: all wakeups so far are taken at once. -/
def handleRead (loop : EventLoop F) : EventLoop F := { loop with wakeups := 0 }

/-- Enter `loop()`. -/
def loop (self : EventLoop F) : Except Stop (EventLoop F) := do
  enabled (self.phase = .created)
  return { self with phase := .polling }

/-- `poll` returns, with or without active channels. -/
def pollReturns (loop : EventLoop F) : Except Stop (EventLoop F) := do
  enabled (loop.phase = .polling)
  return { loop with phase := .dispatching }

/-- All handlers have run: `doPendingFunctors` sets its flag. -/
def enterPending (loop : EventLoop F) : Except Stop (EventLoop F) := do
  enabled (loop.phase = .dispatching)
  return { loop with phase := .entering, callingPendingFunctors_ := true }

/-- `functors.swap(pendingFunctor_)` under the mutex. -/
def swapPending (loop : EventLoop F) : Except Stop (EventLoop F) := do
  enabled (loop.phase = .entering)
  return { loop with phase := .calling, functors := loop.pendingFunctor_, pendingFunctor_ := [] }

/-- The next functor of the batch, and the loop while it runs. -/
def nextFunctor (loop : EventLoop F) : Except Stop (F × EventLoop F) := do
  enabled (loop.phase = .calling)
  match loop.functors with
  | [] => throw .disabled
  | cb :: rest => return (cb, { loop with functors := rest })

/-- The batch is done: `doPendingFunctors` clears its flag and returns. -/
def leavePending (loop : EventLoop F) : Except Stop (EventLoop F) := do
  enabled (loop.phase = .calling)
  match loop.functors with
  | [] => return { loop with phase := .polling, callingPendingFunctors_ := false }
  | _ :: _ => throw .disabled

/-- The functors queued and not yet called, in the order of the calls. -/
def queued (loop : EventLoop F) : List F := loop.functors ++ loop.pendingFunctor_

theorem loop_eq_ok {self self' : EventLoop F} (h : self.loop = .ok self') :
    self.phase = .created ∧ self' = { self with phase := .polling } := by
  simp only [loop, bind_eq_ok_iff, enabled_eq_ok_iff, pure_eq_ok_iff] at h
  obtain ⟨_, hphase, rfl⟩ := h
  exact ⟨hphase, rfl⟩

theorem pollReturns_eq_ok {loop loop' : EventLoop F} (h : loop.pollReturns = .ok loop') :
    loop.phase = .polling ∧ loop' = { loop with phase := .dispatching } := by
  simp only [pollReturns, bind_eq_ok_iff, enabled_eq_ok_iff, pure_eq_ok_iff] at h
  obtain ⟨_, hphase, rfl⟩ := h
  exact ⟨hphase, rfl⟩

theorem enterPending_eq_ok {loop loop' : EventLoop F} (h : loop.enterPending = .ok loop') :
    loop.phase = .dispatching ∧
      loop' = { loop with phase := .entering, callingPendingFunctors_ := true } := by
  simp only [enterPending, bind_eq_ok_iff, enabled_eq_ok_iff, pure_eq_ok_iff] at h
  obtain ⟨_, hphase, rfl⟩ := h
  exact ⟨hphase, rfl⟩

theorem swapPending_eq_ok {loop loop' : EventLoop F} (h : loop.swapPending = .ok loop') :
    loop.phase = .entering ∧ loop' = { loop with
      phase := .calling, functors := loop.pendingFunctor_, pendingFunctor_ := [] } := by
  simp only [swapPending, bind_eq_ok_iff, enabled_eq_ok_iff, pure_eq_ok_iff] at h
  obtain ⟨_, hphase, rfl⟩ := h
  exact ⟨hphase, rfl⟩

theorem nextFunctor_eq_ok {loop loop' : EventLoop F} {cb : F}
    (h : loop.nextFunctor = .ok (cb, loop')) :
    loop.phase = .calling ∧ ∃ rest, loop.functors = cb :: rest ∧
      loop' = { loop with functors := rest } := by
  simp only [nextFunctor, bind_eq_ok_iff, enabled_eq_ok_iff] at h
  obtain ⟨_, hphase, h⟩ := h
  cases hfunctors : loop.functors with
  | nil => rw [hfunctors] at h; cases h
  | cons first rest =>
    rw [hfunctors] at h
    simp only [pure_eq_ok_iff, Prod.mk.injEq] at h
    obtain ⟨rfl, rfl⟩ := h
    exact ⟨hphase, rest, rfl, rfl⟩

theorem leavePending_eq_ok {loop loop' : EventLoop F} (h : loop.leavePending = .ok loop') :
    loop.phase = .calling ∧ loop.functors = [] ∧
      loop' = { loop with phase := .polling, callingPendingFunctors_ := false } := by
  simp only [leavePending, bind_eq_ok_iff, enabled_eq_ok_iff] at h
  obtain ⟨_, hphase, h⟩ := h
  cases hfunctors : loop.functors with
  | nil =>
    rw [hfunctors] at h
    exact ⟨hphase, rfl, (pure_eq_ok_iff.mp h).symm⟩
  | cons first rest => rw [hfunctors] at h; cases h

@[simp] theorem wakeup_phase (loop : EventLoop F) : loop.wakeup.phase = loop.phase := by
  unfold wakeup
  split <;> rfl

@[simp] theorem wakeup_calling (loop : EventLoop F) :
    loop.wakeup.callingPendingFunctors_ = loop.callingPendingFunctors_ := by
  unfold wakeup
  split <;> rfl

@[simp] theorem wakeup_pending (loop : EventLoop F) :
    loop.wakeup.pendingFunctor_ = loop.pendingFunctor_ := by
  unfold wakeup
  split <;> rfl

@[simp] theorem wakeup_functors (loop : EventLoop F) : loop.wakeup.functors = loop.functors := by
  unfold wakeup
  split <;> rfl

@[simp] theorem wakeupIfNeeded_phase (loop : EventLoop F) (own : Bool) :
    (loop.wakeupIfNeeded own).phase = loop.phase := by
  unfold wakeupIfNeeded
  split <;> simp

@[simp] theorem wakeupIfNeeded_calling (loop : EventLoop F) (own : Bool) :
    (loop.wakeupIfNeeded own).callingPendingFunctors_ = loop.callingPendingFunctors_ := by
  unfold wakeupIfNeeded
  split <;> simp

@[simp] theorem wakeupIfNeeded_pending (loop : EventLoop F) (own : Bool) :
    (loop.wakeupIfNeeded own).pendingFunctor_ = loop.pendingFunctor_ := by
  unfold wakeupIfNeeded
  split <;> simp

@[simp] theorem wakeupIfNeeded_functors (loop : EventLoop F) (own : Bool) :
    (loop.wakeupIfNeeded own).functors = loop.functors := by
  unfold wakeupIfNeeded
  split <;> simp

@[simp] theorem pushBack_phase (loop : EventLoop F) (cb : F) :
    (loop.pushBack cb).phase = loop.phase := rfl

@[simp] theorem pushBack_functors (loop : EventLoop F) (cb : F) :
    (loop.pushBack cb).functors = loop.functors := rfl

@[simp] theorem pushBack_queued (loop : EventLoop F) (cb : F) :
    (loop.pushBack cb).queued = loop.queued ++ [cb] :=
  (List.append_assoc _ _ _).symm

@[simp] theorem wakeupIfNeeded_queued (loop : EventLoop F) (own : Bool) :
    (loop.wakeupIfNeeded own).queued = loop.queued := by
  rw [queued, wakeupIfNeeded_functors, wakeupIfNeeded_pending, queued]

/-- Whether or not the write succeeds, the counter is positive behind it. -/
theorem wakeup_positive (loop : EventLoop F) : 0 < loop.wakeup.wakeups := by
  unfold wakeup
  split
  · exact Nat.succ_pos _
  · simp only [eventfdMax] at *
    omega

end EventLoop

end TcpNet
