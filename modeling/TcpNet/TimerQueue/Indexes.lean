import TcpNet.Library.Trace
import TcpNet.TimerQueue.WellFormed

open Transition Trace

namespace TcpNet

/-- How many timers have been made in the process. -/
def constructed (tr : List TimerEvent) : Nat :=
  tr.countP fun
    | .created _ => true
    | _ => false

/-- How many timers had been made when timer `k` was inserted last. -/
def insertedAt (k : Nat) (tr : List TimerEvent) : Nat :=
  constructed (beforeLast (· = .inserted k) tr)

section Counting

variable {tr es : List TimerEvent} {k : Nat}

theorem constructed_append : constructed (tr ++ es) = constructed tr + constructed es :=
  List.countP_append

theorem insertedAt_append (h : .inserted k ∉ es) : insertedAt k (tr ++ es) = insertedAt k tr := by
  rw [insertedAt, beforeLast_append_of_forall_not, insertedAt]
  intro e he
  rw [decide_eq_false_iff_not]
  rintro rfl
  exact h he

theorem insertedAt_append_self (h : .inserted k ∉ es) :
    insertedAt k (tr ++ .inserted k :: es) = constructed tr := by
  rw [insertedAt, beforeLast_append_cons (by simp)]
  intro e he
  rw [decide_eq_false_iff_not]
  rintro rfl
  exact h he

end Counting

namespace TimerSystem

variable {tr es : List TimerEvent} {s s₀ s' : TimerSystem}

/-- The keys in `activeTiemrs_` are the counts of timers at the last insertions. -/
structure Keyed (tr : List TimerEvent) (s : TimerSystem) : Prop where
  count : s.timerCreated_ = constructed tr
  keys : ∀ a n timer, (a, n) ∈ s.queue.activeTiemrs_ → s.timers a = some timer →
    n = insertedAt timer.sequence_ tr

/-- A step that inserts nothing. -/
theorem Keyed.quiet (h : Keyed tr s) (hcount : s'.timerCreated_ = s.timerCreated_ + constructed es)
    (hnone : ∀ k, .inserted k ∉ es)
    (hactive : ∀ entry ∈ s'.queue.activeTiemrs_, entry ∈ s.queue.activeTiemrs_)
    (htimers : ∀ a n timer, (a, n) ∈ s'.queue.activeTiemrs_ → s'.timers a = some timer →
      ∃ timer', s.timers a = some timer' ∧ timer'.sequence_ = timer.sequence_) :
    Keyed (tr ++ es) s' where
  count := by rw [hcount, h.count, constructed_append]
  keys := by
    intro a n timer hn hlive
    obtain ⟨timer', hlive', hsame⟩ := htimers a n timer hn hlive
    rw [insertedAt_append (hnone _), ← hsame]
    exact h.keys a n timer' (hactive _ hn) hlive'

theorem Added.keyed {a : Addr} {timer : Timer} (hadded : Added s₀ a timer es s')
    (h : Keyed tr s₀) (hobjects : Objects s₀.timers s₀.timerCreated_)
    (hnew : ∀ n, (a, n) ∉ s₀.queue.activeTiemrs_) : Keyed (tr ++ es) s' := by
  obtain ⟨hlive, _, _, rfl, more, rfl, hmore⟩ := hadded
  have hnone : ∀ k, .inserted k ∉ more := by
    intro k hmem
    obtain ⟨_, _, heq⟩ := hmore _ hmem
    cases heq
  refine ⟨?_, ?_⟩
  · have hzero : constructed (.inserted timer.sequence_ :: more) = 0 := by
      rw [constructed, List.countP_eq_zero]
      intro e he
      rcases List.mem_cons.mp he with rfl | he
      · simp
      · obtain ⟨_, _, rfl⟩ := hmore e he
        simp
    rw [constructed_append, hzero]
    exact h.count
  · intro b n timer' hn hlive'
    rcases Finset.mem_insert.mp hn with heq | hold
    · rw [Prod.mk.injEq] at heq
      obtain ⟨rfl, rfl⟩ := heq
      have hsame : timer' = timer := Option.some.inj (hlive'.symm.trans hlive)
      rw [hsame, insertedAt_append_self (hnone _)]
      exact h.count
    · have hother : timer'.sequence_ ≠ timer.sequence_ := by
        intro hseq
        have hba := hobjects.unique b a timer' timer hlive' hlive hseq
        rw [hba] at hold
        exact hnew n hold
      rw [insertedAt_append]
      · exact h.keys b n timer' hold hlive'
      · intro hmem
        rcases List.mem_cons.mp hmem with heq | hmem
        · rw [TimerEvent.inserted.injEq] at heq
          exact hother heq
        · exact hnone _ hmem

theorem CancelInLoop.keyed {timerId : TimerId} (hcancel : CancelInLoop s₀ timerId es s')
    (h : Keyed tr s₀) : Keyed (tr ++ es) s' := by
  cases hcancel with
  | deleted hactive hlive hentry =>
    refine h.quiet rfl (by simp) (fun _ hmem => Finset.mem_of_mem_erase hmem) ?_
    intro a n timer' hn hlive'
    have hother : a ≠ timerId.timer_ := by
      rintro rfl
      simp at hlive'
    rw [setTimer_timers, Function.update_of_ne hother] at hlive'
    exact ⟨timer', hlive', rfl⟩
  | remembered _ _ =>
    exact h.quiet rfl (by simp) (fun _ hmem => hmem) (fun _ _ timer _ hlive => ⟨timer, hlive, rfl⟩)
  | nothing _ _ =>
    exact h.quiet rfl (by simp) (fun _ hmem => hmem) (fun _ _ timer _ hlive => ⟨timer, hlive, rfl⟩)

/-- A pointer that the loop does not own is in no index. -/
theorem WellFormed.not_active {a : Addr} (h : s.WellFormed) (ha : a ∉ s.owned) (n : Nat) :
    (a, n) ∉ s.queue.activeTiemrs_ := by
  intro hn
  rcases (h.indexed.active a).mp ⟨n, hn⟩ with hmem | hmem
  · exact ha (mem_owned_of_timers hmem)
  · exact ha (mem_owned_of_held (h.held_of_unerased hmem))

/-- What `reset` still has to look at is in no index. -/
theorem WellFormed.not_active_of_held {a : Addr} (h : s.WellFormed)
    (ha : a ∈ pointers s.phase.held) (hunerased : s.phase.unerased = []) (n : Nat) :
    (a, n) ∉ s.queue.activeTiemrs_ := by
  intro hn
  rcases (h.indexed.active a).mp ⟨n, hn⟩ with hmem | hmem
  · exact h.not_mem_of_held ha hmem
  · rw [hunerased] at hmem
    cases hmem

/-- What a functor will insert is in no index. -/
theorem WellFormed.not_indexed_of_adds {a : Addr} (h : s.WellFormed) (ha : a ∈ adds s.functors) :
    a ∉ pointers s.queue.timers_.elems ∧ ∀ n, (a, n) ∉ s.queue.activeTiemrs_ := by
  have hnodup := List.nodup_append.mp h.ownership.nodup
  have htimers : a ∉ pointers s.queue.timers_.elems := fun hmem =>
    (List.nodup_append.mp hnodup.1).2.2 a ha a hmem rfl
  refine ⟨htimers, ?_⟩
  intro n hn
  rcases (h.indexed.active a).mp ⟨n, hn⟩ with hmem | hmem
  · exact htimers hmem
  · exact hnodup.2.2 a (List.mem_append_left _ ha) a (h.held_of_unerased hmem) rfl

theorem keyed_step (h : Keyed tr s) (hwf : s.WellFormed) {a : TimerAction}
    (hstep : Step s a es s') : Keyed (tr ++ es) s' := by
  have hsame : ∀ b n timer, (b, n) ∈ s.queue.activeTiemrs_ → s.timers b = some timer →
      ∃ timer', s.timers b = some timer' ∧ timer'.sequence_ = timer.sequence_ :=
    fun _ _ timer _ hlive => ⟨timer, hlive, rfl⟩
  cases hstep with
  | @newTimer t addr when interval hcall hfree hmax =>
    refine h.quiet rfl (by simp) (fun _ hmem => hmem) ?_
    intro b n timer hn hlive
    have hother : b ≠ addr := by
      rintro rfl
      exact hwf.not_active (hwf.not_live_of_free hfree) n hn
    have hold : Function.update s.timers addr _ b = some timer := hlive
    rw [Function.update_of_ne hother] at hold
    exact ⟨timer, hold, rfl⟩
  | newElsewhere => exact h.quiet rfl (by simp) (fun _ hmem => hmem) hsame
  | addTimer hcall hadded =>
    refine hadded.keyed ⟨h.count, h.keys⟩ hwf.objects ?_
    exact hwf.not_active (hwf.ownership.apart _ _ _ hcall)
  | queueAdd _ | queueCancel _ => exact h.quiet rfl (by simp) (fun _ hmem => hmem) hsame
  | returnId hcall => exact h.quiet rfl (by simp) (fun _ hmem => hmem) hsame
  | cancel huser hcancel => exact hcancel.keyed h
  | @callAdd s' now addr timer rest es hidle hfunctors hadded =>
    refine hadded.keyed ⟨h.count, h.keys⟩ hwf.objects ?_
    exact (hwf.not_indexed_of_adds (by simp [hfunctors, adds])).2
  | callCancel hidle hfunctors hcancel => exact hcancel.keyed ⟨h.count, h.keys⟩
  | handleRead _ | run _ _ => exact h.quiet rfl (by simp) (fun _ hmem => hmem) hsame
  | beginCalling _ | endCalling _ => exact h.quiet rfl (by simp) (fun _ hmem => hmem) hsame
  | eraseActive hphase hactive =>
    exact h.quiet rfl (by simp) (fun _ hmem => Finset.mem_of_mem_erase hmem)
      (fun _ _ timer _ hlive => ⟨timer, hlive, rfl⟩)
  | @again now entry todo timer hphase hlive hrepeat hkeep =>
    refine h.quiet rfl (by simp) (fun _ hmem => hmem) ?_
    intro b n timer' hn hlive'
    by_cases hb : b = entry.second
    · subst hb
      rw [setTimer_timers, Function.update_self, Option.some.injEq] at hlive'
      exact ⟨timer, hlive, by rw [← hlive']; rfl⟩
    · rw [setTimer_timers, Function.update_of_ne hb] at hlive'
      exact ⟨timer', hlive', rfl⟩
  | @delete now entry todo timer hphase hlive hend =>
    refine h.quiet rfl (by simp) (fun _ hmem => hmem) ?_
    intro b n timer' hn hlive'
    have hb : b ≠ entry.second := by
      rintro rfl
      simp at hlive'
    rw [setTimer_timers, Function.update_of_ne hb] at hlive'
    exact ⟨timer', hlive', rfl⟩
  | @restart s' now entry todo timer es hphase hadded =>
    refine hadded.keyed ⟨h.count, h.keys⟩ hwf.objects ?_
    refine hwf.not_active_of_held ?_ ?_
    · rw [hphase]
      exact List.mem_cons_self
    · rw [hphase]
      rfl
  | @finishReset now now' hphase =>
    have hsettime : ∀ e ∈ (s.finishReset now').2, IsSettime e := fun _ he =>
      isSettime_of_finishReset he
    refine h.quiet ?_ ?_ (fun _ hmem => hmem) hsame
    · have hzero : constructed (s.finishReset now').2 = 0 := by
        rw [constructed, List.countP_eq_zero]
        intro e he
        obtain ⟨_, _, rfl⟩ := hsettime e he
        simp
      rw [hzero]
      rfl
    · intro k hmem
      obtain ⟨_, _, heq⟩ := hsettime _ hmem
      cases heq

theorem reach_keyed {C : StepCondition TimerSystem TimerAction TimerEvent}
    (h : machine.Reach C tr s) : Keyed tr s := by
  refine Machine.Reach.invariant (I := Keyed) ?_ ?_ h
  · rintro _ rfl
    exact ⟨rfl, by simp [start, TimerQueue.new]⟩
  · exact fun _ _ _ _ _ hreach hkeyed _ hstep =>
      keyed_step hkeyed (reach_wellFormed hreach) (step_cases hstep)

section Assertions

/-- Both inserts succeed for a timer that no index knows. -/
theorem addTimerInloop_goes_through {a : Addr} (now : Int)
    (hlive : ∃ timer, s.timers a = some timer)
    (htimers : a ∉ pointers s.queue.timers_.elems) (hactive : ∀ n, (a, n) ∉ s.queue.activeTiemrs_) :
    ∃ out, s.addTimerInloop a now = .ok out := by
  obtain ⟨timer, hlive⟩ := hlive
  have hentry : ⟨timer.expiration_, a⟩ ∉ s.queue.timers_.elems := fun hmem =>
    htimers (mem_pointers hmem)
  obtain ⟨queue', hinsert⟩ := TimerQueue.insert_goes_through hentry (hactive s.timerCreated_)
  rw [addTimerInloop, deref_eq_ok_iff.mpr hlive, ok_bind, hinsert, ok_bind]
  exact ⟨_, rfl⟩

/-- The sizes agree, and what is in one index is in the other. -/
theorem WellFormed.cancelInLoop_goes_through (h : s.WellFormed) (hunerased : s.phase.unerased = [])
    (timerId : TimerId) : ∃ out, s.cancelInLoop timerId = .ok out := by
  have hindexed := h.indexed
  rw [hunerased] at hindexed
  rw [cancelInLoop, require_of (hindexed.card_active h.nodup_pointers), ok_bind]
  by_cases hactive : (timerId.timer_, timerId.sequence_) ∈ s.queue.activeTiemrs_
  · have hmem := (hindexed.active timerId.timer_).mp ⟨_, hactive⟩
    replace hmem := hmem.resolve_right (by simp [pointers])
    obtain ⟨timer, hlive⟩ := h.ownership.live timerId.timer_ (mem_owned_of_timers hmem)
    obtain ⟨entry, hentry, hsecond⟩ := List.mem_map.mp hmem
    have hkey := hindexed.keyed entry hentry timer (by rw [hsecond, hlive])
    have hsame : entry = ⟨timer.expiration_, timerId.timer_⟩ := Entry.ext hkey.symm hsecond
    rw [hsame] at hentry
    simp only [if_pos hactive, deref_eq_ok_iff.mpr hlive, ok_bind, require_of hentry]
    exact ⟨_, rfl⟩
  · simp only [if_neg hactive]
    split <;> exact ⟨_, rfl⟩

/-- The only assertion that can fail is that of `getExpired`. -/
theorem WellFormed.step_eq_assertion (h : s.WellFormed) {a : TimerAction}
    (hstop : s.step a = .error .assertion) :
    ∃ now entry todo expired, s.phase = .expiring now (entry :: todo) expired ∧
      (entry.second, s.timerCreated_) ∉ s.queue.activeTiemrs_ := by
  have hnot : ∀ {x : Except Stop (TimerSystem × List TimerEvent)}, (∃ out, x = .ok out) →
      x ≠ .error .assertion := by
    rintro _ ⟨out, rfl⟩ hout
    cases hout
  have hheld : ∀ {entry : Entry}, entry ∈ s.phase.held →
      ∃ timer, s.timers entry.second = some timer :=
    fun hmem => h.ownership.live _ (mem_owned_of_held (mem_pointers hmem))
  cases a with
  | newTimer t addr when interval =>
    simp only [step, bind_eq_error_iff, enabled_ne_assertion, pure_ne_error, false_or, and_false,
      exists_false] at hstop
  | newElsewhere => cases hstop
  | runInLoop t now =>
    simp only [step] at hstop
    split at hstop
    · rename_i addr k hcall
      split at hstop
      · obtain ⟨timer, hlive, _⟩ := h.ownership.made _ _ _ hcall
        have hapart := h.ownership.apart _ _ _ hcall
        refine absurd hstop (hnot (addTimerInloop_goes_through now ⟨timer, hlive⟩ ?_ ?_))
        · exact fun hmem => hapart (mem_owned_of_timers hmem)
        · exact h.not_active hapart
      · cases hstop
    · cases hstop
  | returnId t =>
    simp only [step] at hstop
    split at hstop <;> cases hstop
  | cancel t timerId =>
    simp only [step, bind_eq_error_iff, enabled_ne_assertion, false_or, enabled_eq_ok_iff] at hstop
    obtain ⟨_, huser, hstop⟩ := hstop
    split at hstop
    · rename_i ht
      have hunerased := unerased_of_runsUserCode (huser.2 ht)
      exact absurd hstop (hnot (h.cancelInLoop_goes_through hunerased timerId))
    · cases hstop
  | callFunctor now =>
    simp only [step] at hstop
    split at hstop
    · cases hstop
    · rename_i cb rest hfunctors
      simp only [bind_eq_error_iff, enabled_ne_assertion, false_or, enabled_eq_ok_iff] at hstop
      obtain ⟨_, ⟨hidle, _⟩, hstop⟩ := hstop
      cases cb with
      | addTimerInloop addr =>
        have hmem : addr ∈ adds s.functors := by simp [hfunctors, adds]
        obtain ⟨htimers, hactive⟩ := h.not_indexed_of_adds hmem
        have hlive := h.ownership.live addr (List.mem_append_left _ (List.mem_append_left _ hmem))
        have hgo := addTimerInloop_goes_through (s := { s with functors := rest }) now hlive htimers
          hactive
        exact absurd hstop (hnot hgo)
      | cancelInLoop timerId =>
        have hunerased : s.phase.unerased = [] := by
          rw [hidle]
          rfl
        have hwf := h.popCancel hfunctors
        exact absurd hstop (hnot (hwf.cancelInLoop_goes_through hunerased timerId))
  | handleRead now =>
    simp only [step, bind_eq_error_iff, enabled_ne_assertion, false_or, enabled_eq_ok_iff] at hstop
    obtain ⟨_, _, hstop⟩ := hstop
    have hbelow : ∀ e ∈ s.queue.timers_.elems, e.second < UINTPTR_MAX := by
      intro e he
      obtain ⟨timer, hlive⟩ := h.ownership.live _ (mem_owned_of_timers (mem_pointers he))
      exact h.objects.addrs _ timer hlive
    obtain ⟨out, hsplit⟩ := TimerQueue.splitExpired_goes_through now hbelow
    rw [hsplit] at hstop
    rcases hstop with hstop | ⟨_, _, hstop⟩ <;> cases hstop
  | eraseActive =>
    simp only [step] at hstop
    split at hstop
    · rename_i now entry todo expired hphase
      refine ⟨now, entry, todo, expired, hphase, ?_⟩
      simpa only [TimerQueue.eraseActive, bind_eq_error_iff, require_eq_assertion_iff,
        pure_ne_error, and_false, exists_false, or_false] using hstop
    · cases hstop
  | beginCalling =>
    simp only [step] at hstop
    split at hstop <;> cases hstop
  | run =>
    simp only [step] at hstop
    split at hstop
    · rename_i now entry todo expired hphase
      have hsplit := h.split
      rw [hphase] at hsplit
      have hmem : entry ∈ s.phase.held := by
        rw [hphase]
        exact hsplit.subset List.mem_cons_self
      obtain ⟨timer, hlive⟩ := hheld hmem
      simp only [bind_eq_error_iff, enabled_ne_assertion, false_or, deref_eq_ok_iff.mpr hlive,
        pure_ne_error, reduceCtorEq, and_false, exists_false] at hstop
    · cases hstop
  | endCalling =>
    simp only [step] at hstop
    split at hstop
    · simp only [bind_eq_error_iff, enabled_ne_assertion, pure_ne_error, false_or, and_false,
        exists_false] at hstop
    · cases hstop
  | reset =>
    simp only [step] at hstop
    split at hstop
    · rename_i now entry todo hphase
      have hmem : entry ∈ s.phase.held := by
        rw [hphase]
        exact List.mem_cons_self
      obtain ⟨timer, hlive⟩ := hheld hmem
      simp only [resetOne, deref_eq_ok_iff.mpr hlive, ok_bind] at hstop
      split at hstop <;> cases hstop
    · cases hstop
  | restart =>
    simp only [step] at hstop
    split at hstop
    · rename_i now entry todo hphase
      have hmem : entry ∈ s.phase.held := by
        rw [hphase]
        exact List.mem_cons_self
      have hunerased : s.phase.unerased = [] := by
        rw [hphase]
        rfl
      obtain ⟨timer, hlive⟩ := hheld hmem
      have htimers := h.not_mem_of_held (mem_pointers hmem)
      have hactive := h.not_active_of_held (mem_pointers hmem) hunerased s.timerCreated_
      have hentry : ⟨timer.expiration_, entry.second⟩ ∉ s.queue.timers_.elems := fun hin =>
        htimers (List.mem_map.mpr ⟨_, hin, rfl⟩)
      obtain ⟨queue', hinsert⟩ := TimerQueue.insert_goes_through hentry hactive
      simp only [deref_eq_ok_iff.mpr hlive, ok_bind, hinsert] at hstop
      cases hstop
    · cases hstop
  | finishReset now =>
    simp only [step] at hstop
    split at hstop <;> cases hstop

end Assertions

/-- The two indexes hold the same pointers, unless `getExpired` is in its loop, and
    no assertion fails in the next step, whichever it is. -/
structure IndexesAgree (s : TimerSystem) : Prop where
  pointers : (∀ now todo expired, s.phase = .expiring now todo expired → todo = []) →
    (s.queue.timers_.elems.map (·.second)).toFinset = s.queue.activeTiemrs_.image Prod.fst
  assertions : ∀ a, s.step a ≠ .error .assertion

/-- The timer whose turn it is in `getExpired` has been inserted since a timer was
    last made. -/
def ExpiresUnchanged (tr : List TimerEvent) (s : TimerSystem) : Prop :=
  ∀ now entry todo expired timer, s.phase = .expiring now (entry :: todo) expired →
    s.timers entry.second = some timer → insertedAt timer.sequence_ tr = constructed tr

theorem WellFormed.pointers_eq (h : s.WellFormed) (hunerased : s.phase.unerased = []) :
    (s.queue.timers_.elems.map (·.second)).toFinset = s.queue.activeTiemrs_.image Prod.fst := by
  have hactive := h.indexed.active
  rw [hunerased] at hactive
  ext a
  rw [List.mem_toFinset, Finset.mem_image]
  constructor
  · intro ha
    obtain ⟨n, hn⟩ := (hactive a).mpr (.inl ha)
    exact ⟨(a, n), hn, rfl⟩
  · rintro ⟨⟨b, n⟩, hn, rfl⟩
    exact ((hactive b).mp ⟨n, hn⟩).resolve_right (by simp [TimerSystem.pointers])

/-- In every state that is reached, the indexes of the queue agree exactly when the
    timer that is about to expire, if there is one, was inserted after the last
    timer of the process was made. -/
theorem indexes_agree_iff (h : machine.Reach anyStep tr s) :
    s.IndexesAgree ↔ ExpiresUnchanged tr s := by
  have hwf := reach_wellFormed h
  have hkeyed := reach_keyed h
  constructor
  · intro hagree now entry todo expired timer hphase hlive
    by_contra hchanged
    refine hagree.assertions .eraseActive ?_
    have hnot : (entry.second, s.timerCreated_) ∉ s.queue.activeTiemrs_ := by
      intro hactive
      rw [← hkeyed.keys _ _ timer hactive hlive] at hchanged
      exact hchanged hkeyed.count
    simp only [step, hphase, TimerQueue.eraseActive, bind_eq_error_iff, require_eq_assertion_iff]
    exact .inl (.inl hnot)
  · intro hunchanged
    refine ⟨?_, ?_⟩
    · intro houtside
      refine hwf.pointers_eq ?_
      cases hphase : s.phase with
      | expiring now todo expired => exact houtside now todo expired hphase
      | idle | running _ _ _ | resetting _ _ | restarting _ _ _ => rfl
    · intro a hstop
      obtain ⟨now, entry, todo, expired, hphase, hnot⟩ := hwf.step_eq_assertion hstop
      have hmem : entry.second ∈ pointers s.phase.unerased := by
        rw [hphase]
        exact List.mem_cons_self
      obtain ⟨n, hn⟩ := (hwf.indexed.active entry.second).mpr (.inr hmem)
      obtain ⟨timer, hlive⟩ :=
        hwf.ownership.live _ (mem_owned_of_held (hwf.held_of_unerased hmem))
      have hkey := hkeyed.keys _ n timer hn hlive
      rw [hunchanged now entry todo expired timer hphase hlive, ← hkeyed.count] at hkey
      rw [hkey] at hn
      exact hnot hn

/-- One second, as `runEvery` is called with in the test. -/
def second : Interval := ⟨1000000, true, by decide⟩

/-- No interval, as `runAt` passes it on. -/
def never : Interval := ⟨0, false, by decide⟩

/-- The thread of the loop adds a timer. -/
def addTimer (addr : Addr) (when : Int) (interval : Interval) : List TimerAction :=
  [.newTimer loopThread addr when interval, .runInLoop loopThread 0, .returnId loopThread]

/-- The only timer of the process expires. -/
theorem indexes_agree_alone : ∃ tr s now entry, machine.Reach anyStep tr s ∧
    s.phase = .expiring now [entry] [entry] ∧ (s.IndexesAgree ↔ ExpiresUnchanged tr s) := by
  have hruns : machine.runs start (addTimer 8 100 second ++ [.handleRead 150])
      (fun _ s => s.phase = .expiring 150 [⟨100, 8⟩] [⟨100, 8⟩]) = true := by
    decide +kernel
  obtain ⟨tr, s, hreach, htest⟩ := Machine.exists_reach rfl hruns
  exact ⟨tr, s, 150, _, hreach, of_decide_eq_true htest, indexes_agree_iff hreach⟩

/-- Two timers are pending, and the one that was added first expires. -/
theorem indexes_disagree : ¬ ∀ tr s, machine.Reach anyStep tr s → s.IndexesAgree := by
  intro hall
  have hruns : machine.runs start
      (addTimer 8 100 second ++ addTimer 16 200 never ++ [.handleRead 150])
      (fun _ s => s.step .eraseActive matches .error .assertion) = true := by
    decide +kernel
  obtain ⟨tr, s, hreach, htest⟩ := Machine.exists_reach rfl hruns
  refine (hall tr s hreach).assertions .eraseActive ?_
  split at htest
  · assumption
  · cases htest

end TimerSystem

end TcpNet
