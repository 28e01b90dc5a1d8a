import TcpNet.TimerQueue

open Transition

namespace TcpNet

namespace TimerQueue

theorem insert_eq_ok {queue queue' : TimerQueue} {timer : Addr} {when : Int} {created : Nat}
    (h : queue.insert timer when created = .ok queue') :
    ⟨when, timer⟩ ∉ queue.timers_.elems ∧ (timer, created) ∉ queue.activeTiemrs_ ∧
      queue' = { queue with
        timers_ := queue.timers_.insert ⟨when, timer⟩
        activeTiemrs_ := Insert.insert (timer, created) queue.activeTiemrs_ } := by
  simp only [insert, bind_eq_ok_iff, require_eq_ok_iff, pure_eq_ok_iff] at h
  obtain ⟨_, hentry, _, hactive, rfl⟩ := h
  exact ⟨hentry, hactive, rfl⟩

theorem insert_goes_through {queue : TimerQueue} {timer : Addr} {when : Int} {created : Nat}
    (hentry : ⟨when, timer⟩ ∉ queue.timers_.elems)
    (hactive : (timer, created) ∉ queue.activeTiemrs_) :
    ∃ queue', queue.insert timer when created = .ok queue' := by
  rw [insert, require_of hentry, ok_bind, require_of hactive, ok_bind]
  exact ⟨_, rfl⟩

theorem splitExpired_eq_ok {queue queue' : TimerQueue} {now : Int} {expired : List Entry}
    (h : queue.splitExpired now = .ok (queue', expired)) :
    queue' = { queue with timers_ := queue.timers_.above (sentry now) } ∧
      expired = queue.timers_.below (sentry now) := by
  simp only [splitExpired, bind_eq_ok_iff, require_eq_ok_iff, pure_eq_ok_iff, Prod.mk.injEq] at h
  obtain ⟨_, _, rfl, rfl⟩ := h
  exact ⟨rfl, rfl⟩

/-- No pointer is above that of the sentry. -/
theorem splitExpired_goes_through {queue : TimerQueue} (now : Int)
    (h : ∀ e ∈ queue.timers_.elems, e.second < UINTPTR_MAX) :
    ∃ out, queue.splitExpired now = .ok out := by
  have hrest : ∀ first ∈ (queue.timers_.above (sentry now)).begin?, now < first.first := by
    intro first hfirst
    have hle := OrderedSet.le_of_begin_above hfirst
    have hmem : first ∈ queue.timers_.elems :=
      (List.dropWhile_sublist _).subset (List.mem_of_head? hfirst)
    have hsecond := h first hmem
    by_contra hdue
    refine absurd hle (not_le_of_gt (Entry.lt_iff.mpr ?_))
    rcases lt_or_eq_of_le (not_lt.mp hdue) with hbefore | hequal
    · exact .inl hbefore
    · exact .inr ⟨hequal, hsecond⟩
  rw [splitExpired]
  simp only [require_of hrest, ok_bind]
  exact ⟨_, rfl⟩

theorem eraseActive_eq_ok {queue queue' : TimerQueue} {timer : Addr} {created : Nat}
    (h : queue.eraseActive timer created = .ok queue') :
    (timer, created) ∈ queue.activeTiemrs_ ∧
      queue' = { queue with activeTiemrs_ := queue.activeTiemrs_.erase (timer, created) } := by
  simp only [eraseActive, bind_eq_ok_iff, require_eq_ok_iff, pure_eq_ok_iff] at h
  obtain ⟨_, hactive, rfl⟩ := h
  exact ⟨hactive, rfl⟩

end TimerQueue

namespace TimerSystem

@[simp] theorem setCall_queue (s : TimerSystem) (t : ThreadId) (call : Option AddTimer) :
    (s.setCall t call).queue = s.queue := rfl

@[simp] theorem setCall_timers (s : TimerSystem) (t : ThreadId) (call : Option AddTimer) :
    (s.setCall t call).timers = s.timers := rfl

@[simp] theorem setCall_functors (s : TimerSystem) (t : ThreadId) (call : Option AddTimer) :
    (s.setCall t call).functors = s.functors := rfl

@[simp] theorem setCall_phase (s : TimerSystem) (t : ThreadId) (call : Option AddTimer) :
    (s.setCall t call).phase = s.phase := rfl

@[simp] theorem setCall_timerCreated (s : TimerSystem) (t : ThreadId) (call : Option AddTimer) :
    (s.setCall t call).timerCreated_ = s.timerCreated_ := rfl

@[simp] theorem setCall_calls (s : TimerSystem) (t : ThreadId) (call : Option AddTimer) :
    (s.setCall t call).calls = Function.update s.calls t call := rfl

@[simp] theorem setTimer_queue (s : TimerSystem) (addr : Addr) (timer : Option Timer) :
    (s.setTimer addr timer).queue = s.queue := rfl

@[simp] theorem setTimer_timers (s : TimerSystem) (addr : Addr) (timer : Option Timer) :
    (s.setTimer addr timer).timers = Function.update s.timers addr timer := rfl

@[simp] theorem setTimer_functors (s : TimerSystem) (addr : Addr) (timer : Option Timer) :
    (s.setTimer addr timer).functors = s.functors := rfl

@[simp] theorem setTimer_phase (s : TimerSystem) (addr : Addr) (timer : Option Timer) :
    (s.setTimer addr timer).phase = s.phase := rfl

@[simp] theorem setTimer_timerCreated (s : TimerSystem) (addr : Addr) (timer : Option Timer) :
    (s.setTimer addr timer).timerCreated_ = s.timerCreated_ := rfl

theorem deref_eq_ok_iff {s : TimerSystem} {addr : Addr} {timer : Timer} :
    s.deref addr = .ok timer ↔ s.timers addr = some timer := by
  unfold deref
  cases s.timers addr <;> simp

/-- The events of setting the timer descriptor. -/
def IsSettime (e : TimerEvent) : Prop := ∃ expiration value, e = .settime expiration value

/-- The insertion of a timer, in the thread of the loop. -/
structure Added (s : TimerSystem) (addr : Addr) (timer : Timer) (es : List TimerEvent)
    (s' : TimerSystem) : Prop where
  live : s.timers addr = some timer
  entry : ⟨timer.expiration_, addr⟩ ∉ s.queue.timers_.elems
  active : (addr, s.timerCreated_) ∉ s.queue.activeTiemrs_
  state : s' = { s with queue := { s.queue with
    timers_ := s.queue.timers_.insert ⟨timer.expiration_, addr⟩
    activeTiemrs_ := Insert.insert (addr, s.timerCreated_) s.queue.activeTiemrs_ } }
  events : ∃ more, es = .inserted timer.sequence_ :: more ∧ ∀ e ∈ more, IsSettime e

theorem addTimerInloop_eq_ok {s s' : TimerSystem} {addr : Addr} {now : Int}
    {es : List TimerEvent} (h : s.addTimerInloop addr now = .ok (s', es)) :
    ∃ timer, Added s addr timer es s' := by
  simp only [addTimerInloop, bind_eq_ok_iff, deref_eq_ok_iff, pure_eq_ok_iff, Prod.mk.injEq] at h
  obtain ⟨timer, hlive, queue, hinsert, rfl, rfl⟩ := h
  obtain ⟨hentry, hactive, rfl⟩ := TimerQueue.insert_eq_ok hinsert
  refine ⟨timer, hlive, hentry, hactive, rfl, _, rfl, ?_⟩
  intro e he
  split at he
  · rw [List.mem_singleton.mp he]
    exact ⟨_, _, rfl⟩
  · cases he

theorem isSettime_of_finishReset {s : TimerSystem} {now : Int} {e : TimerEvent}
    (h : e ∈ (s.finishReset now).2) : IsSettime e := by
  simp only [finishReset, List.mem_ite_nil_right, List.mem_singleton] at h
  obtain ⟨_, rfl⟩ := h
  exact ⟨_, _, rfl⟩

/-- What `cancelInLoop` can come to: the timer is deleted, its id is remembered for
    `reset`, or nothing happens. -/
inductive CancelInLoop (s : TimerSystem) (timerId : TimerId) :
    List TimerEvent → TimerSystem → Prop
  | deleted {timer : Timer}
      (hactive : (timerId.timer_, timerId.sequence_) ∈ s.queue.activeTiemrs_)
      (hlive : s.timers timerId.timer_ = some timer)
      (hentry : ⟨timer.expiration_, timerId.timer_⟩ ∈ s.queue.timers_.elems) :
      CancelInLoop s timerId [.cancelled timerId, .deleted timer.sequence_]
        ({ s with queue := { s.queue with
            timers_ := s.queue.timers_.erase ⟨timer.expiration_, timerId.timer_⟩
            activeTiemrs_ := s.queue.activeTiemrs_.erase (timerId.timer_, timerId.sequence_) } }.setTimer
          timerId.timer_ none)
  | remembered (hactive : (timerId.timer_, timerId.sequence_) ∉ s.queue.activeTiemrs_)
      (hcalling : s.queue.callingExpiredTimers_ = true) :
      CancelInLoop s timerId [.cancelled timerId]
        { s with queue := { s.queue with
            cancelingTimers_ :=
              Insert.insert (timerId.timer_, timerId.sequence_) s.queue.cancelingTimers_ } }
  | nothing (hactive : (timerId.timer_, timerId.sequence_) ∉ s.queue.activeTiemrs_)
      (hcalling : s.queue.callingExpiredTimers_ = false) :
      CancelInLoop s timerId [.cancelled timerId] s

theorem cancelInLoop_eq_ok {s s' : TimerSystem} {timerId : TimerId} {es : List TimerEvent}
    (h : s.cancelInLoop timerId = .ok (s', es)) : CancelInLoop s timerId es s' := by
  simp only [cancelInLoop, bind_eq_ok_iff, require_eq_ok_iff] at h
  obtain ⟨_, _, h⟩ := h
  by_cases hactive : (timerId.timer_, timerId.sequence_) ∈ s.queue.activeTiemrs_
  · simp only [if_pos hactive, bind_eq_ok_iff, require_eq_ok_iff, deref_eq_ok_iff,
      pure_eq_ok_iff, Prod.mk.injEq] at h
    obtain ⟨timer, hlive, _, hentry, rfl, rfl⟩ := h
    exact .deleted hactive hlive hentry
  · rw [if_neg hactive] at h
    by_cases hcalling : s.queue.callingExpiredTimers_ = true
    · rw [if_pos hcalling, pure_eq_ok_iff, Prod.mk.injEq] at h
      obtain ⟨rfl, rfl⟩ := h
      exact .remembered hactive hcalling
    · rw [if_neg hcalling, pure_eq_ok_iff, Prod.mk.injEq] at h
      obtain ⟨rfl, rfl⟩ := h
      exact .nothing hactive (by simpa using hcalling)

/-- The execution of `cancelInLoop(timerId)` in a step, if it is one. -/
def cancels (s : TimerSystem) : TimerAction → Option TimerId
  | .cancel t timerId => if t = loopThread then some timerId else none
  | .callFunctor _ =>
    match s.functors with
    | .cancelInLoop timerId :: _ => some timerId
    | _ => none
  | _ => none

/-- What a step can do. -/
inductive Step (s : TimerSystem) : TimerAction → List TimerEvent → TimerSystem → Prop
  | newTimer {t : ThreadId} {addr : Addr} {when : Int} {interval : Interval}
      (hcall : s.calls t = none) (hfree : s.timers addr = none) (hmax : addr < UINTPTR_MAX) :
      Step s (.newTimer t addr when interval) [.created s.timerCreated_]
        (s.newTimer t addr when interval).1
  | newElsewhere : Step s .newElsewhere [.created s.timerCreated_]
      { s with timerCreated_ := s.timerCreated_ + 1 }
  | addTimer {s' : TimerSystem} {t : ThreadId} {now : Int} {addr : Addr} {k : Nat}
      {timer : Timer} {es : List TimerEvent} (hcall : s.calls t = some (.created addr k))
      (hadded : Added (s.setCall t (some (.added addr k))) addr timer es s') :
      Step s (.runInLoop t now) es s'
  | queueAdd {t : ThreadId} {now : Int} {addr : Addr} {k : Nat}
      (hcall : s.calls t = some (.created addr k)) :
      Step s (.runInLoop t now) []
        ((s.setCall t (some (.added addr k))).queueInloop (.addTimerInloop addr))
  | returnId {t : ThreadId} {addr : Addr} {k : Nat} (hcall : s.calls t = some (.added addr k)) :
      Step s (.returnId t) [.returned k ⟨addr, s.timerCreated_⟩] (s.setCall t none)
  | cancel {s' : TimerSystem} {timerId : TimerId} {es : List TimerEvent}
      (huser : s.phase.RunsUserCode) (hcancel : CancelInLoop s timerId es s') :
      Step s (.cancel loopThread timerId) es s'
  | queueCancel {t : ThreadId} {timerId : TimerId} (hforeign : t ≠ loopThread) :
      Step s (.cancel t timerId) [] (s.queueInloop (.cancelInLoop timerId))
  | callAdd {s' : TimerSystem} {now : Int} {addr : Addr} {timer : Timer}
      {rest : List TimerFunctor} {es : List TimerEvent} (hidle : s.phase = .idle)
      (hfunctors : s.functors = .addTimerInloop addr :: rest)
      (hadded : Added { s with functors := rest } addr timer es s') :
      Step s (.callFunctor now) es s'
  | callCancel {s' : TimerSystem} {now : Int} {timerId : TimerId}
      {rest : List TimerFunctor} {es : List TimerEvent} (hidle : s.phase = .idle)
      (hfunctors : s.functors = .cancelInLoop timerId :: rest)
      (hcancel : CancelInLoop { s with functors := rest } timerId es s') :
      Step s (.callFunctor now) es s'
  | handleRead {now : Int} (hidle : s.phase = .idle) :
      Step s (.handleRead now) [.handleRead now]
        { s with
          queue := { s.queue with timers_ := s.queue.timers_.above (TimerQueue.sentry now) }
          phase := .expiring now (s.queue.timers_.below (TimerQueue.sentry now))
            (s.queue.timers_.below (TimerQueue.sentry now)) }
  | eraseActive {now : Int} {entry : Entry} {todo expired : List Entry}
      (hphase : s.phase = .expiring now (entry :: todo) expired)
      (hactive : (entry.second, s.timerCreated_) ∈ s.queue.activeTiemrs_) :
      Step s .eraseActive []
        { s with
          queue := { s.queue with
            activeTiemrs_ := s.queue.activeTiemrs_.erase (entry.second, s.timerCreated_) }
          phase := .expiring now todo expired }
  | beginCalling {now : Int} {expired : List Entry}
      (hphase : s.phase = .expiring now [] expired) :
      Step s .beginCalling []
        { s with
          queue := { s.queue with callingExpiredTimers_ := true, cancelingTimers_ := ∅ }
          phase := .running now expired expired }
  | run {now : Int} {entry : Entry} {todo expired : List Entry} {timer : Timer}
      (hphase : s.phase = .running now (entry :: todo) expired)
      (hlive : s.timers entry.second = some timer) :
      Step s .run [.ran timer.sequence_] { s with phase := .running now todo expired }
  | endCalling {now : Int} {expired : List Entry}
      (hphase : s.phase = .running now [] expired) :
      Step s .endCalling []
        { s with
          queue := { s.queue with callingExpiredTimers_ := false }
          phase := .resetting now expired }
  | again {now : Int} {entry : Entry} {todo : List Entry} {timer : Timer}
      (hphase : s.phase = .resetting now (entry :: todo))
      (hlive : s.timers entry.second = some timer) (hrepeat : timer.repeat_ = true)
      (hkeep : (entry.second, s.timerCreated_) ∉ s.queue.cancelingTimers_) :
      Step s .reset []
        ({ s with phase := .restarting now entry todo }.setTimer entry.second
          (some (timer.restart now)))
  | delete {now : Int} {entry : Entry} {todo : List Entry} {timer : Timer}
      (hphase : s.phase = .resetting now (entry :: todo))
      (hlive : s.timers entry.second = some timer)
      (hend : timer.repeat_ = false ∨ (entry.second, s.timerCreated_) ∈ s.queue.cancelingTimers_) :
      Step s .reset [.deleted timer.sequence_]
        ({ s with phase := .resetting now todo }.setTimer entry.second none)
  | restart {s' : TimerSystem} {now : Int} {entry : Entry} {todo : List Entry}
      {timer : Timer} {es : List TimerEvent} (hphase : s.phase = .restarting now entry todo)
      (hadded : Added { s with phase := .resetting now todo } entry.second timer es s') :
      Step s .restart es s'
  | finishReset {now now' : Int} (hphase : s.phase = .resetting now []) :
      Step s (.finishReset now') (s.finishReset now').2 { s with phase := .idle }

theorem step_cases {s s' : TimerSystem} {a : TimerAction} {es : List TimerEvent}
    (h : s.step a = .ok (s', es)) : Step s a es s' := by
  cases a with
  | newTimer t addr when interval =>
    simp only [step, bind_eq_ok_iff, enabled_eq_ok_iff, pure_eq_ok_iff] at h
    obtain ⟨_, huser, _, ⟨hfree, _, hmax⟩, h⟩ := h
    cases h
    exact .newTimer huser.1 hfree hmax
  | newElsewhere =>
    simp only [step, pure_eq_ok_iff, Prod.mk.injEq] at h
    obtain ⟨rfl, rfl⟩ := h
    exact .newElsewhere
  | runInLoop t now =>
    simp only [step] at h
    split at h
    · rename_i addr k hcall
      split at h
      · obtain ⟨timer, hadded⟩ := addTimerInloop_eq_ok h
        exact .addTimer hcall hadded
      · rw [pure_eq_ok_iff, Prod.mk.injEq] at h
        obtain ⟨rfl, rfl⟩ := h
        exact .queueAdd hcall
    · cases h
  | returnId t =>
    simp only [step] at h
    split at h
    · rename_i addr k hcall
      rw [pure_eq_ok_iff, Prod.mk.injEq] at h
      obtain ⟨rfl, rfl⟩ := h
      exact .returnId hcall
    · cases h
  | cancel t timerId =>
    simp only [step, bind_eq_ok_iff, enabled_eq_ok_iff] at h
    obtain ⟨_, huser, h⟩ := h
    by_cases ht : t = loopThread
    · subst ht
      rw [if_pos rfl] at h
      exact .cancel (huser.2 rfl) (cancelInLoop_eq_ok h)
    · rw [if_neg ht, pure_eq_ok_iff, Prod.mk.injEq] at h
      obtain ⟨rfl, rfl⟩ := h
      exact .queueCancel ht
  | callFunctor now =>
    simp only [step] at h
    split at h
    · cases h
    · rename_i cb rest hfunctors
      simp only [bind_eq_ok_iff, enabled_eq_ok_iff] at h
      obtain ⟨_, hidle, h⟩ := h
      cases cb with
      | addTimerInloop addr =>
        obtain ⟨timer, hadded⟩ := addTimerInloop_eq_ok h
        exact .callAdd hidle.1 hfunctors hadded
      | cancelInLoop timerId => exact .callCancel hidle.1 hfunctors (cancelInLoop_eq_ok h)
  | handleRead now =>
    simp only [step, bind_eq_ok_iff, enabled_eq_ok_iff, pure_eq_ok_iff, Prod.mk.injEq] at h
    obtain ⟨_, hidle, ⟨queue, expired⟩, hsplit, rfl, rfl⟩ := h
    obtain ⟨rfl, rfl⟩ := TimerQueue.splitExpired_eq_ok hsplit
    exact .handleRead hidle.1
  | eraseActive =>
    simp only [step] at h
    split at h
    · rename_i now entry todo expired hphase
      simp only [bind_eq_ok_iff, pure_eq_ok_iff, Prod.mk.injEq] at h
      obtain ⟨queue, herase, rfl, rfl⟩ := h
      obtain ⟨hactive, rfl⟩ := TimerQueue.eraseActive_eq_ok herase
      exact .eraseActive hphase hactive
    · cases h
  | beginCalling =>
    simp only [step] at h
    split at h
    · rename_i now expired hphase
      rw [pure_eq_ok_iff, Prod.mk.injEq] at h
      obtain ⟨rfl, rfl⟩ := h
      exact .beginCalling hphase
    · cases h
  | run =>
    simp only [step] at h
    split at h
    · rename_i now entry todo expired hphase
      simp only [bind_eq_ok_iff, enabled_eq_ok_iff, deref_eq_ok_iff, pure_eq_ok_iff,
        Prod.mk.injEq] at h
      obtain ⟨_, _, timer, hlive, rfl, rfl⟩ := h
      exact .run hphase hlive
    · cases h
  | endCalling =>
    simp only [step] at h
    split at h
    · rename_i now expired hphase
      simp only [bind_eq_ok_iff, enabled_eq_ok_iff, pure_eq_ok_iff, Prod.mk.injEq] at h
      obtain ⟨_, _, rfl, rfl⟩ := h
      exact .endCalling hphase
    · cases h
  | reset =>
    simp only [step] at h
    split at h
    · rename_i now entry todo hphase
      simp only [resetOne, bind_eq_ok_iff, deref_eq_ok_iff] at h
      obtain ⟨timer, hlive, h⟩ := h
      split at h
      · rename_i hagain
        rw [pure_eq_ok_iff, Prod.mk.injEq] at h
        obtain ⟨rfl, rfl⟩ := h
        exact .again hphase hlive hagain.1 hagain.2
      · rename_i hend
        rw [pure_eq_ok_iff, Prod.mk.injEq] at h
        obtain ⟨rfl, rfl⟩ := h
        refine .delete hphase hlive ?_
        by_contra hnot
        exact hend (by simpa using hnot)
    · cases h
  | restart =>
    simp only [step] at h
    split at h
    · rename_i now entry todo hphase
      simp only [bind_eq_ok_iff, deref_eq_ok_iff, pure_eq_ok_iff, Prod.mk.injEq] at h
      obtain ⟨timer, hlive, queue, hinsert, rfl, rfl⟩ := h
      obtain ⟨hentry, hactive, rfl⟩ := TimerQueue.insert_eq_ok hinsert
      exact .restart hphase ⟨hlive, hentry, hactive, rfl, [], rfl, by simp⟩
    · cases h
  | finishReset now =>
    simp only [step] at h
    split at h
    · rename_i now' hphase
      rw [pure_eq_ok_iff] at h
      cases h
      exact .finishReset hphase
    · cases h

section Timers

variable {s s' : TimerSystem} {a : TimerAction} {es : List TimerEvent} {b : Addr} {timer : Timer}

theorem Added.timers_eq {addr : Addr} (h : Added s addr timer es s') : s'.timers = s.timers := by
  obtain ⟨_, _, _, rfl, _⟩ := h
  rfl

theorem Added.phase_eq {addr : Addr} (h : Added s addr timer es s') : s'.phase = s.phase := by
  obtain ⟨_, _, _, rfl, _⟩ := h
  rfl

theorem Added.created_eq {addr : Addr} (h : Added s addr timer es s') :
    s'.timerCreated_ = s.timerCreated_ := by
  obtain ⟨_, _, _, rfl, _⟩ := h
  rfl

theorem live_of_update_none {addr : Addr} (h : (s.setTimer addr none).timers b = some timer) :
    s.timers b = some timer := by
  rw [setTimer_timers, Function.update_apply] at h
  split at h
  · cases h
  · exact h

theorem CancelInLoop.live {timerId : TimerId} (h : CancelInLoop s timerId es s')
    (hlive : s'.timers b = some timer) : s.timers b = some timer := by
  cases h with
  | deleted hactive hlive' hentry => exact live_of_update_none hlive
  | remembered hactive hcalling => exact hlive
  | nothing hactive hcalling => exact hlive

/-- Where a timer of the state behind a step comes from. -/
inductive Origin (s : TimerSystem) (b : Addr) (timer : Timer) (s' : TimerSystem) : Prop
  | made (hfree : s.timers b = none) (hnumber : timer.sequence_ = s.timerCreated_)
      (hcount : s'.timerCreated_ = s.timerCreated_ + 1) : Origin s b timer s'
  | kept (hlive : s.timers b = some timer) : Origin s b timer s'
  | restarted {now : Int} {entry : Entry} {todo : List Entry} {timer₀ : Timer}
      (hphase : s.phase = .resetting now (entry :: todo))
      (hphase' : s'.phase = .restarting now entry todo) (hb : entry.second = b)
      (hlive : s.timers b = some timer₀) (hrepeat : timer₀.repeat_ = true)
      (htimer : timer = timer₀.restart now) : Origin s b timer s'

theorem timer_origin (hstep : Step s a es s') (hlive : s'.timers b = some timer) :
    Origin s b timer s' := by
  cases hstep with
  | @newTimer t addr when interval hcall hfree hmax =>
    by_cases hb : b = addr
    · subst hb
      have hnew : Function.update s.timers b _ b = some timer := hlive
      rw [Function.update_self, Option.some.injEq] at hnew
      exact .made hfree (by rw [← hnew]; rfl) rfl
    · have hold : Function.update s.timers addr _ b = some timer := hlive
      rw [Function.update_of_ne hb] at hold
      exact .kept hold
  | addTimer hcall hadded | callAdd hidle hfunctors hadded | restart hphase hadded =>
    rw [hadded.timers_eq] at hlive
    exact .kept hlive
  | cancel huser hcancel => exact .kept (hcancel.live hlive)
  | callCancel hidle hfunctors hcancel => exact .kept (hcancel.live hlive)
  | @again now entry todo timer₀ hphase hlive₀ hrepeat hkeep =>
    by_cases hb : b = entry.second
    · subst hb
      rw [setTimer_timers, Function.update_self, Option.some.injEq] at hlive
      exact .restarted hphase rfl rfl hlive₀ hrepeat hlive.symm
    · rw [setTimer_timers, Function.update_of_ne hb] at hlive
      exact .kept hlive
  | delete hphase hlive₀ hend => exact .kept (live_of_update_none hlive)
  | newElsewhere | queueAdd hcall | returnId hcall | queueCancel hforeign | handleRead hidle
  | eraseActive hphase hactive | beginCalling hphase | run hphase hlive₀ | endCalling hphase
  | finishReset hphase => exact .kept hlive

theorem created_le (hstep : Step s a es s') : s.timerCreated_ ≤ s'.timerCreated_ := by
  cases hstep with
  | newTimer hcall hfree hmax => exact Nat.le_succ _
  | newElsewhere => exact Nat.le_succ _
  | addTimer hcall hadded | callAdd hidle hfunctors hadded | restart hphase hadded =>
    exact Nat.le_of_eq hadded.created_eq.symm
  | cancel huser hcancel | callCancel hidle hfunctors hcancel =>
    cases hcancel <;> exact Nat.le_refl _
  | queueAdd hcall | returnId hcall | queueCancel hforeign | handleRead hidle
  | eraseActive hphase hactive | beginCalling hphase | run hphase hlive | endCalling hphase
  | again hphase hlive hrepeat hkeep | delete hphase hlive hend | finishReset hphase =>
    exact Nat.le_refl _

end Timers

end TimerSystem

end TcpNet
