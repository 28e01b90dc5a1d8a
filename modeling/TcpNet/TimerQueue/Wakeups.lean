import TcpNet.TimerQueue.Spec
import TcpNet.Library.Trace

open Transition Trace

namespace TcpNet

/-- The time that a timer descriptor is set to, in nanoseconds. -/
def Timespec.nanoseconds (value : Timespec) : Int := value.tv_sec * 1000000000 + value.tv_nsec

/-- A timer is set to no less than 100 microseconds, which does not disarm it. -/
theorem howMuchTimeFromNow_spec (when now : Int) :
    0 ≤ (howMuchTimeFromNow when now).tv_sec ∧
      0 ≤ (howMuchTimeFromNow when now).tv_nsec ∧
      (howMuchTimeFromNow when now).tv_nsec < 1000000000 ∧
      (howMuchTimeFromNow when now).nanoseconds = 1000 * max 100 (when - now) := by
  simp only [howMuchTimeFromNow, Timespec.nanoseconds, kMicroSecondsPerSecond]
  split <;> omega

namespace TimerEvent

def isHandleRead : TimerEvent → Bool
  | .handleRead _ => true
  | _ => false

def expiration? : TimerEvent → Option Int
  | .settime expiration _ => some expiration
  | _ => none

end TimerEvent

/-- The expiration that `resetTimerfd` was called with last, since the timer descriptor
    was read last. -/
def armed (tr : List TimerEvent) : Option Int :=
  ((sinceLast TimerEvent.isHandleRead tr).filterMap TimerEvent.expiration?).getLast?

section Armed

variable {tr es : List TimerEvent}

theorem armed_append (h : ∀ e ∈ es, e.isHandleRead = false) :
    armed (tr ++ es) = (es.filterMap TimerEvent.expiration?).getLast?.or (armed tr) := by
  rw [armed, sinceLast_append_of_forall_not h, List.filterMap_append, List.getLast?_append, armed]

end Armed

/-- The time stamp that `handleRead` goes by. -/
def Phase.now? : Phase → Option Int
  | .idle => none
  | .expiring now _ _ => some now
  | .running now _ _ => some now
  | .resetting now _ => some now
  | .restarting now _ _ => some now

theorem TimerQueue.earliestChanged_eq_false_iff {queue : TimerQueue} {when : Int} :
    queue.earliestChanged when = false ↔
      ∃ first, queue.timers_.begin? = some first ∧ first.first ≤ when := by
  unfold earliestChanged
  cases queue.timers_.begin? <;> simp

theorem TimerQueue.lt_of_earliestChanged {queue : TimerQueue} {when : Int} {e : Entry}
    (h : queue.earliestChanged when = true) (he : e ∈ queue.timers_.elems) : when < e.first := by
  unfold earliestChanged at h
  cases hbegin : queue.timers_.begin? with
  | none => exact absurd he (OrderedSet.notMem_of_begin_none hbegin)
  | some first =>
    simp only [hbegin, decide_eq_true_eq] at h
    exact lt_of_lt_of_le h (Entry.first_le_of_le (OrderedSet.begin_le hbegin he))

namespace TimerSystem

/-- The clock reading of `resetTimerfd` in a step that can call it. -/
def clock : TimerAction → Option Int
  | .runInLoop _ now => some now
  | .callFunctor now => some now
  | .finishReset now => some now
  | _ => none

/-- What a step can do to `timers_` and to the timer descriptor. -/
inductive Wake (s : TimerSystem) (a : TimerAction) : List TimerEvent → TimerSystem → Prop
  | quiet {s' : TimerSystem} {es : List TimerEvent}
      (hread : ∀ e ∈ es, e.isHandleRead = false) (hset : ∀ e ∈ es, e.expiration? = none)
      (hphase : s'.phase = .idle → s.phase = .idle)
      (hsub : s'.queue.timers_.elems ⊆ s.queue.timers_.elems) : Wake s a es s'
  | added {s' : TimerSystem} {addr : Addr} {timer : Timer} {now : Int}
      (hclock : clock a = some now) (hphase : s'.phase = s.phase)
      (hnew : ⟨timer.expiration_, addr⟩ ∉ s.queue.timers_.elems)
      (htimers : s'.queue.timers_ = s.queue.timers_.insert ⟨timer.expiration_, addr⟩) :
      Wake s a (.inserted timer.sequence_ :: if s.queue.earliestChanged timer.expiration_ then
        [resetTimerfd timer.expiration_ now] else []) s'
  | handleRead {s' : TimerSystem} {now : Int} (ha : a = .handleRead now)
      (hphase : s'.phase ≠ .idle)
      (htimers : s'.queue.timers_ = s.queue.timers_.above (TimerQueue.sentry now)) :
      Wake s a [.handleRead now] s'
  | restarted {s' : TimerSystem} {now : Int} {entry : Entry} {todo : List Entry} {timer : Timer}
      (hrestarting : s.phase = .restarting now entry todo)
      (hlive : s.timers entry.second = some timer) (hphase : s'.phase ≠ .idle)
      (hnew : ⟨timer.expiration_, entry.second⟩ ∉ s.queue.timers_.elems)
      (htimers : s'.queue.timers_ = s.queue.timers_.insert ⟨timer.expiration_, entry.second⟩) :
      Wake s a [.inserted timer.sequence_] s'
  | finished {now : Int} (hclock : clock a = some now) :
      Wake s a (s.finishReset now).2 { s with phase := .idle }

section Steps

variable {s s₀ s' : TimerSystem} {a : TimerAction} {es : List TimerEvent}

/-- The insertion reads only the queue of the state that it starts in. -/
theorem wake_of_addTimerInloop {addr : Addr} {now : Int}
    (h : s₀.addTimerInloop addr now = .ok (s', es)) (hclock : clock a = some now)
    (hqueue : s₀.queue = s.queue) (hphase : s₀.phase = s.phase) : Wake s a es s' := by
  simp only [addTimerInloop, bind_eq_ok_iff, pure_eq_ok_iff, Prod.mk.injEq] at h
  obtain ⟨timer, _, queue, hinsert, rfl, rfl⟩ := h
  obtain ⟨hentry, _, rfl⟩ := TimerQueue.insert_eq_ok hinsert
  rw [hqueue] at hentry ⊢
  exact .added hclock hphase hentry rfl

theorem CancelInLoop.wake {timerId : TimerId} (h : CancelInLoop s₀ timerId es s')
    (hqueue : s₀.queue = s.queue) (hphase : s₀.phase = s.phase) : Wake s a es s' := by
  cases h with
  | deleted hactive hlive hentry =>
    refine .quiet (by simp [TimerEvent.isHandleRead]) (by simp [TimerEvent.expiration?])
      (fun hidle => hphase ▸ hidle) ?_
    rw [hqueue]
    exact List.erase_subset
  | remembered hactive hcalling =>
    exact .quiet (by simp [TimerEvent.isHandleRead]) (by simp [TimerEvent.expiration?])
      (fun hidle => hphase ▸ hidle) (by rw [hqueue]; exact List.Subset.refl _)
  | nothing hactive hcalling =>
    exact .quiet (by simp [TimerEvent.isHandleRead]) (by simp [TimerEvent.expiration?])
      (fun hidle => hphase ▸ hidle) (by rw [hqueue]; exact List.Subset.refl _)

/-- A step that leaves `timers_` and the timer descriptor alone and ends no `handleRead`. -/
theorem wake_of_same (hread : ∀ e ∈ es, e.isHandleRead = false)
    (hset : ∀ e ∈ es, e.expiration? = none) (hphase : s'.phase = .idle → s.phase = .idle)
    (htimers : s'.queue.timers_ = s.queue.timers_) : Wake s a es s' := by
  refine .quiet hread hset hphase ?_
  rw [htimers]
  exact List.Subset.refl _

theorem wake_of_silent (hphase : s'.phase = .idle → s.phase = .idle)
    (htimers : s'.queue.timers_ = s.queue.timers_) : Wake s a [] s' :=
  wake_of_same nofun nofun hphase htimers

theorem step_wake (h : s.step a = .ok (s', es)) : Wake s a es s' := by
  have hstep := step_cases h
  cases hstep with
  | addTimer hcall hadded =>
    simp only [step, hcall] at h
    split at h
    · exact wake_of_addTimerInloop h rfl rfl rfl
    · rw [pure_eq_ok_iff, Prod.mk.injEq] at h
      obtain ⟨rfl, rfl⟩ := h
      exact wake_of_silent id rfl
  | callAdd hidle hfunctors hadded =>
    simp only [step, hfunctors, bind_eq_ok_iff] at h
    obtain ⟨_, _, h⟩ := h
    exact wake_of_addTimerInloop h rfl rfl rfl
  | cancel huser hcancel => exact hcancel.wake rfl rfl
  | callCancel hidle hfunctors hcancel => exact hcancel.wake rfl rfl
  | handleRead hidle => exact .handleRead rfl (by simp) rfl
  | restart hphase hadded =>
    simp only [step, hphase, bind_eq_ok_iff, deref_eq_ok_iff, pure_eq_ok_iff, Prod.mk.injEq] at h
    obtain ⟨timer, hlive, queue, hinsert, rfl, rfl⟩ := h
    obtain ⟨hentry, _, rfl⟩ := TimerQueue.insert_eq_ok hinsert
    exact .restarted hphase hlive (by simp) hentry rfl
  | finishReset hphase => exact .finished rfl
  | newTimer _ _ _ | newElsewhere | returnId _ =>
    exact wake_of_same (by simp [TimerEvent.isHandleRead]) (by simp [TimerEvent.expiration?]) id rfl
  | run _ _ | delete _ _ _ =>
    exact wake_of_same (by simp [TimerEvent.isHandleRead]) (by simp [TimerEvent.expiration?])
      (by simp) rfl
  | queueAdd _ | queueCancel _ => exact wake_of_silent id rfl
  | eraseActive _ _ | beginCalling _ | endCalling _ | again _ _ _ _ =>
    exact wake_of_silent (by simp) rfl

/-- The clock reading of a step that begins `handleRead`. -/
def readTime : TimerAction → Option Int
  | .handleRead now => some now
  | _ => none

/-- `handleRead` never finds the clock at or before the epoch. Nothing is asked of the
    readings otherwise: the clock may be set back. -/
def clockPositive : StepCondition TimerSystem TimerAction TimerEvent :=
  fun _ _ a => ∀ now ∈ readTime a, 0 < now

/-- A timer that is about to run again expires after the epoch. -/
structure Positive (s : TimerSystem) : Prop where
  repeats : ∀ addr timer, s.timers addr = some timer → timer.repeat_ = true →
    timer.interval_.positive = true
  clock : ∀ now ∈ s.phase.now?, 0 < now
  restarted : ∀ now entry todo, s.phase = .restarting now entry todo →
    ∃ timer, s.timers entry.second = some timer ∧ 0 < timer.expiration_

theorem positive_start : start.Positive := ⟨nofun, nofun, nofun⟩

/-- Objects that are only deleted, in a phase that only moves on. -/
theorem Positive.of_le (h : s.Positive)
    (htimers : ∀ addr timer, s'.timers addr = some timer → s.timers addr = some timer)
    (hclock : s'.phase.now? = s.phase.now?)
    (hphase : ∀ now entry todo, s'.phase ≠ .restarting now entry todo) : s'.Positive where
  repeats := fun addr timer hlive => h.repeats addr timer (htimers addr timer hlive)
  clock := fun now hnow => h.clock now (hclock ▸ hnow)
  restarted := fun now entry todo hrestarting => absurd hrestarting (hphase now entry todo)

/-- The timers and the phase are as they were. -/
theorem Positive.of_eq (h : s.Positive) (htimers : s'.timers = s.timers)
    (hphase : s'.phase = s.phase) : s'.Positive where
  repeats := by rw [htimers]; exact h.repeats
  clock := by rw [hphase]; exact h.clock
  restarted := by rw [htimers, hphase]; exact h.restarted

theorem CancelInLoop.positive {timerId : TimerId} (hcancel : CancelInLoop s timerId es s')
    (h : s.Positive) (huser : s.phase.RunsUserCode) : s'.Positive := by
  have hphase : ∀ now entry todo, s.phase ≠ .restarting now entry todo := by
    intro now entry todo hrestarting
    rw [hrestarting] at huser
    exact huser
  cases hcancel with
  | deleted hactive hlive hentry =>
    exact h.of_le (fun addr timer hmem => live_of_update_none hmem) rfl hphase
  | remembered hactive hcalling => exact h.of_eq rfl rfl
  | nothing hactive hcalling => exact h

theorem Positive.newTimer {t : ThreadId} {addr : Addr} {when : Int} {interval : Interval}
    (h : s.Positive) (hfree : s.timers addr = none) :
    (s.newTimer t addr when interval).1.Positive where
  repeats := by
    intro a timer hlive hrepeat
    simp only [TimerSystem.newTimer, setCall_timers, setTimer_timers,
      Function.update_apply] at hlive
    split at hlive
    · cases hlive
      exact hrepeat
    · exact h.repeats a timer hlive hrepeat
  clock := h.clock
  restarted := by
    intro now entry todo hrestarting
    obtain ⟨timer, hlive, hpositive⟩ := h.restarted now entry todo hrestarting
    refine ⟨timer, ?_, hpositive⟩
    have hne : entry.second ≠ addr := by
      intro heq
      rw [heq, hfree] at hlive
      cases hlive
    simp only [TimerSystem.newTimer, setCall_timers, setTimer_timers,
      Function.update_of_ne hne, hlive]

/-- A timer that runs again has an interval, so that the clock decides its expiration. -/
theorem Positive.again {now : Int} {entry : Entry} {todo : List Entry} {timer : Timer}
    (h : s.Positive) (hphase : s.phase = .resetting now (entry :: todo))
    (hlive : s.timers entry.second = some timer) (hrepeat : timer.repeat_ = true) :
    ({ s with phase := .restarting now entry todo }.setTimer entry.second
      (some (timer.restart now))).Positive where
  repeats := by
    intro a timer' hlive' hrepeat'
    simp only [setTimer_timers, Function.update_apply] at hlive'
    split at hlive'
    · cases hlive'
      exact h.repeats entry.second timer hlive hrepeat
    · exact h.repeats a timer' hlive' hrepeat'
  clock := by
    intro now' hnow'
    refine h.clock now' ?_
    rw [hphase]
    exact hnow'
  restarted := by
    intro now' entry' todo' hrestarting
    cases hrestarting
    have hnow : 0 < now := h.clock now (by rw [hphase]; rfl)
    have hmicros := timer.interval_.nonneg (h.repeats entry.second timer hlive hrepeat)
    refine ⟨timer.restart now, by rw [setTimer_timers, Function.update_self], ?_⟩
    simp only [Timer.restart, hrepeat, if_true]
    omega

theorem positive_step {tr : List TimerEvent} (h : s.Positive) (hcond : clockPositive tr s a)
    (hstep : Step s a es s') : s'.Positive := by
  cases hstep with
  | newTimer hcall hfree hmax => exact h.newTimer hfree
  | newElsewhere => exact h.of_eq rfl rfl
  | addTimer hcall hadded => exact h.of_eq hadded.timers_eq hadded.phase_eq
  | queueAdd hcall => exact h.of_eq rfl rfl
  | returnId hcall => exact h.of_eq rfl rfl
  | cancel huser hcancel => exact hcancel.positive h huser
  | queueCancel hforeign => exact h.of_eq rfl rfl
  | callAdd hidle hfunctors hadded => exact h.of_eq hadded.timers_eq hadded.phase_eq
  | @callCancel s' now timerId rest es hidle hfunctors hcancel =>
    have hrest : ({ s with functors := rest } : TimerSystem).Positive := h.of_eq rfl rfl
    exact hcancel.positive hrest (by rw [hidle]; trivial)
  | @handleRead now hidle =>
    refine ⟨h.repeats, ?_, nofun⟩
    intro now' hnow'
    cases hnow'
    exact hcond now rfl
  | eraseActive hphase hactive =>
    exact h.of_le (fun _ _ hlive => hlive) (by rw [hphase]; rfl) nofun
  | beginCalling hphase => exact h.of_le (fun _ _ hlive => hlive) (by rw [hphase]; rfl) nofun
  | run hphase hlive => exact h.of_le (fun _ _ hlive => hlive) (by rw [hphase]; rfl) nofun
  | endCalling hphase => exact h.of_le (fun _ _ hlive => hlive) (by rw [hphase]; rfl) nofun
  | again hphase hlive hrepeat hkeep => exact h.again hphase hlive hrepeat
  | delete hphase hlive hend =>
    exact h.of_le (fun _ _ hmem => live_of_update_none hmem) (by rw [hphase]; rfl) nofun
  | restart hphase hadded =>
    refine h.of_le ?_ ?_ ?_
    · rw [hadded.timers_eq]
      exact fun _ _ hlive => hlive
    · rw [hadded.phase_eq, hphase]
      rfl
    · rw [hadded.phase_eq]
      nofun
  | finishReset hphase => exact ⟨h.repeats, nofun, nofun⟩

/-- An entry whose timer the timer descriptor must already be set for: any entry outside
    `handleRead`, and one for which the end of `reset` would not set it. -/
def Due (s : TimerSystem) (e : Entry) : Prop := s.phase = .idle ∨ e.first ≤ 0

/-- The descriptor has been set, since it was read, to expire no later than `e`. -/
def Covers (tr : List TimerEvent) (e : Entry) : Prop :=
  ∃ expiration, armed tr = some expiration ∧ expiration ≤ e.first

theorem Due.of_le {e e' : Entry} (h : s.Due e') (hle : e.first ≤ e'.first) : s.Due e :=
  h.imp_right (fun hpast => le_trans hle hpast)

theorem Covers.of_le {tr : List TimerEvent} {e e' : Entry} (h : Covers tr e)
    (hle : e.first ≤ e'.first) : Covers tr e' := by
  obtain ⟨expiration, harmed, hearly⟩ := h
  exact ⟨expiration, harmed, le_trans hearly hle⟩

def Covered (tr : List TimerEvent) (s : TimerSystem) : Prop :=
  ∀ e ∈ s.queue.timers_.elems, s.Due e → Covers tr e

/-- Insertion sets the descriptor when no earlier entry has done so. -/
theorem Covered.added {tr : List TimerEvent} {addr : Addr} {timer : Timer} {now : Int}
    (h : Covered tr s) (hphase : s'.phase = s.phase)
    (hnew : ⟨timer.expiration_, addr⟩ ∉ s.queue.timers_.elems)
    (htimers : s'.queue.timers_ = s.queue.timers_.insert ⟨timer.expiration_, addr⟩) :
    Covered (tr ++ .inserted timer.sequence_ ::
      if s.queue.earliestChanged timer.expiration_ then
        [resetTimerfd timer.expiration_ now] else []) s' := by
  intro e he hdue
  rw [htimers, (OrderedSet.perm_insert hnew).mem_iff, List.mem_cons] at he
  have hdue' : s.Due e := by
    rw [Due, ← hphase]
    exact hdue
  cases hchanged : s.queue.earliestChanged timer.expiration_ with
  | true =>
    refine ⟨timer.expiration_, ?_, ?_⟩
    · simp only [if_true]
      rw [armed_append (by simp [TimerEvent.isHandleRead, resetTimerfd])]
      rfl
    · rcases he with rfl | hold
      · exact le_refl timer.expiration_
      · exact le_of_lt (TimerQueue.lt_of_earliestChanged hchanged hold)
  | false =>
    obtain ⟨first, hbegin, hfirst⟩ := TimerQueue.earliestChanged_eq_false_iff.mp hchanged
    have hcovers : Covers tr e := by
      rcases he with rfl | hold
      · exact (h first (OrderedSet.begin_mem hbegin) (hdue'.of_le hfirst)).of_le hfirst
      · exact h e hold hdue'
    obtain ⟨expiration, harmed, hearly⟩ := hcovers
    refine ⟨expiration, ?_, hearly⟩
    rw [armed_append (by simp [TimerEvent.isHandleRead])]
    exact harmed

/-- The end of `reset` sets the descriptor unless the earliest entry is one for which
    it has been set already. -/
theorem Covered.finished {tr : List TimerEvent} {now : Int} (h : Covered tr s) :
    Covered (tr ++ (s.finishReset now).2) { s with phase := .idle } := by
  intro e he hdue
  cases hbegin : s.queue.timers_.begin? with
  | none => exact absurd he (OrderedSet.notMem_of_begin_none hbegin)
  | some first =>
    have hfirst : first.first ≤ e.first := Entry.first_le_of_le (OrderedSet.begin_le hbegin he)
    simp only [finishReset, hbegin]
    split
    · refine ⟨first.first, ?_, hfirst⟩
      rw [armed_append (by simp [TimerEvent.isHandleRead, resetTimerfd])]
      rfl
    · rename_i hinvalid
      rw [List.append_nil]
      exact (h first (OrderedSet.begin_mem hbegin) (.inr (not_lt.mp hinvalid))).of_le hfirst

theorem covered_step {tr : List TimerEvent} (h : Covered tr s) (hpositive : s.Positive)
    (hcond : clockPositive tr s a) (hwake : Wake s a es s') : Covered (tr ++ es) s' := by
  cases hwake with
  | quiet hread hset hphase hsub =>
    intro e he hdue
    obtain ⟨expiration, harmed, hearly⟩ := h e (hsub he) (hdue.imp_left hphase)
    refine ⟨expiration, ?_, hearly⟩
    rw [armed_append hread, List.filterMap_eq_nil_iff.mpr hset]
    exact harmed
  | added hclock hphase hnew htimers => exact h.added hphase hnew htimers
  | @handleRead s' now ha hphase htimers =>
    subst ha
    intro e he hdue
    rw [htimers] at he
    have hlate : now ≤ e.first := Entry.first_le_of_le (OrderedSet.le_of_mem_above he)
    have hnow : 0 < now := hcond now rfl
    rcases hdue with hidle | hpast
    · exact absurd hidle hphase
    · omega
  | @restarted s' now entry todo timer hrestarting hlive hphase hnew htimers =>
    intro e he hdue
    rw [htimers, (OrderedSet.perm_insert hnew).mem_iff, List.mem_cons] at he
    have hpast : e.first ≤ 0 := hdue.resolve_left hphase
    rcases he with rfl | hold
    · obtain ⟨timer', hlive', hfuture⟩ := hpositive.restarted now entry todo hrestarting
      rw [hlive] at hlive'
      cases hlive'
      exact absurd hfuture (not_lt.mpr hpast)
    · obtain ⟨expiration, harmed, hearly⟩ := h e hold (.inr hpast)
      refine ⟨expiration, ?_, hearly⟩
      rw [armed_append (by simp [TimerEvent.isHandleRead])]
      exact harmed
  | finished hclock => exact h.finished

theorem reach_covered {tr : List TimerEvent} (h : machine.Reach clockPositive tr s) :
    s.Positive ∧ Covered tr s := by
  refine Machine.Reach.invariant (I := fun tr s => s.Positive ∧ Covered tr s) ?_ ?_ h
  · rintro s rfl
    exact ⟨positive_start, nofun⟩
  · intro tr s a s' es _ hinv hcond hstep
    exact ⟨positive_step hinv.1 hcond (step_cases hstep),
      covered_step hinv.2 hinv.1 hcond (step_wake hstep)⟩

/-- Every setting of the timer descriptor is one of `resetTimerfd`. -/
theorem Wake.settime {expiration : Int} {value : Timespec} (h : Wake s a es s')
    (hmem : .settime expiration value ∈ es) :
    ∃ now, clock a = some now ∧ value = howMuchTimeFromNow expiration now := by
  cases h with
  | quiet hread hset hphase hsub => cases hset _ hmem
  | @added s' addr timer now hclock hphase hnew htimers =>
    rw [List.mem_cons] at hmem
    rcases hmem with hfirst | hmore
    · cases hfirst
    · simp only [List.mem_ite_nil_right, List.mem_singleton, resetTimerfd,
        TimerEvent.settime.injEq] at hmore
      obtain ⟨_, rfl, rfl⟩ := hmore
      exact ⟨now, hclock, rfl⟩
  | handleRead ha hphase htimers => cases List.mem_singleton.mp hmem
  | restarted hrestarting hlive hphase hnew htimers => cases List.mem_singleton.mp hmem
  | @finished now hclock =>
    simp only [finishReset, List.mem_ite_nil_right, List.mem_singleton, resetTimerfd,
      TimerEvent.settime.injEq] at hmem
    obtain ⟨_, rfl, rfl⟩ := hmem
    exact ⟨now, hclock, rfl⟩

end Steps

/-- Outside `handleRead` the descriptor is set for the earliest timer or before it, and no
    setting of it is one that disarms it. -/
theorem timerfd_covers_timers {tr : List TimerEvent} {s : TimerSystem}
    (h : machine.Reach clockPositive tr s) :
    (s.phase = .idle → ∀ e ∈ s.queue.timers_.elems,
        ∃ expiration, armed tr = some expiration ∧ expiration ≤ e.first) ∧
      ∀ a s' es expiration value, s.step a = .ok (s', es) → .settime expiration value ∈ es →
        0 ≤ value.tv_nsec ∧ value.tv_nsec < 1000000000 ∧
          ¬ (value.tv_sec = 0 ∧ value.tv_nsec = 0) ∧
          ∃ now, clock a = some now ∧ value.nanoseconds = 1000 * max 100 (expiration - now) := by
  refine ⟨fun hidle e he => (reach_covered h).2 e he (.inl hidle), ?_⟩
  intro a s' es expiration value hstep hmem
  obtain ⟨now, hclock, rfl⟩ := (step_wake hstep).settime hmem
  obtain ⟨_, hnonneg, hlt, hvalue⟩ := howMuchTimeFromNow_spec expiration now
  refine ⟨hnonneg, hlt, ?_, now, hclock, hvalue⟩
  rintro ⟨hsec, hnsec⟩
  rw [Timespec.nanoseconds, hsec, hnsec] at hvalue
  omega

/-- A timer of the past is added in the callback of another one, and left in place by the
    end of `reset`. -/
theorem timerfd_covers_timers_of_the_past :
    ∃ (tr : List TimerEvent) (s : TimerSystem), machine.Reach clockPositive tr s ∧
      s.phase = .idle ∧ (∃ first, s.queue.timers_.begin? = some first ∧ first.first = -5) ∧
      ∀ e ∈ s.queue.timers_.elems, ∃ expiration, armed tr = some expiration ∧
        expiration ≤ e.first := by
  have hruns : machine.runs start
      [.newTimer loopThread 16 10 ⟨0, false, by decide⟩, .runInLoop loopThread 4,
        .returnId loopThread, .handleRead 12, .eraseActive, .beginCalling, .run,
        .newTimer loopThread 32 (-5) ⟨0, false, by decide⟩, .runInLoop loopThread 3,
        .returnId loopThread, .endCalling, .reset, .finishReset 13]
      (fun _ s => s.phase = .idle ∧ s.queue.timers_.elems.map Entry.first = [-5]) = true := by
    decide +kernel
  obtain ⟨tr, s, hreach, htest⟩ := Machine.exists_reach_of (C := clockPositive) rfl
    (by simp [clockPositive, readTime]) hruns
  obtain ⟨hidle, hfirst⟩ := of_decide_eq_true htest
  refine ⟨tr, s, hreach, hidle, ?_, (timerfd_covers_timers hreach).1 hidle⟩
  obtain ⟨first, rest, hall, hvalue, _⟩ := List.map_eq_cons_iff.mp hfirst
  exact ⟨first, by rw [OrderedSet.begin?, hall]; rfl, hvalue⟩

end TimerSystem

end TcpNet
