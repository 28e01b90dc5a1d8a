import TcpNet.TimerQueue.Cancel

open Transition

namespace TcpNet

/-- The timers that have been deleted, in that order. -/
def deletions (tr : List TimerEvent) : List Nat :=
  tr.filterMap fun
    | .deleted timer => some timer
    | _ => none

theorem deletions_append (tr es : List TimerEvent) :
    deletions (tr ++ es) = deletions tr ++ deletions es :=
  List.filterMap_append

theorem deletions_eq_nil {es : List TimerEvent} (h : ∀ k, .deleted k ∉ es) : deletions es = [] := by
  apply List.filterMap_eq_nil_iff.mpr
  intro e he
  cases e with
  | deleted k => exact absurd he (h k)
  | created _ | inserted _ | returned _ _ | cancelled _ | handleRead _ | ran _ | settime _ _ => rfl

namespace TimerSystem

/-- Delete the timers that entries point to, one after the other. -/
def deleteAll (s : TimerSystem) : List Entry → Except Stop (TimerSystem × List TimerEvent)
  | [] => return (s, [])
  | entry :: rest => do
    let timer ← s.deref entry.second
    let (s, es) ← (s.setTimer entry.second none).deleteAll rest
    return (s, .deleted timer.sequence_ :: es)

/-- `~TimerQueue`, which closes the timer descriptor besides. -/
def destroy (s : TimerSystem) : Except Stop (TimerSystem × List TimerEvent) :=
  s.deleteAll s.queue.timers_.elems

/-- All timers of the process are made and cancelled in the thread of the loop. -/
def inLoopThread : StepCondition TimerSystem TimerAction TimerEvent := fun _ _ a =>
  match a with
  | .newTimer t _ _ _ => t = loopThread
  | .newElsewhere => False
  | .cancel t _ => t = loopThread
  | _ => True

variable {tr es : List TimerEvent} {s s₀ s' : TimerSystem} {a : TimerAction}

section Deletions

/-- A step deletes nothing, or a timer that was there. -/
inductive Deletes (s : TimerSystem) : List TimerEvent → TimerSystem → Prop
  | nothing {es : List TimerEvent} {s' : TimerSystem} (hnone : ∀ k, .deleted k ∉ es) :
      Deletes s es s'
  | timer {es : List TimerEvent} {s' : TimerSystem} {b : Addr} {timer : Timer}
      (hevents : deletions es = [timer.sequence_]) (hlive : s.timers b = some timer)
      (hgone : s'.timers b = none) : Deletes s es s'

theorem CancelInLoop.deletes {timerId : TimerId} (h : CancelInLoop s₀ timerId es s')
    (htimers : s₀.timers = s.timers) : Deletes s es s' := by
  cases h with
  | deleted hactive hlive hentry => exact .timer rfl (htimers ▸ hlive) (Function.update_self ..)
  | remembered hactive hcalling => exact .nothing (by simp)
  | nothing hactive hcalling => exact .nothing (by simp)

theorem Added.not_deleted {addr : Addr} {timer : Timer} (h : Added s₀ addr timer es s') (k : Nat) :
    .deleted k ∉ es := by
  intro hmem
  obtain ⟨_, heq⟩ | ⟨_, _, heq⟩ := h.events_inserted _ hmem
  · cases heq
  · cases heq

theorem step_deletes (hstep : Step s a es s') : Deletes s es s' := by
  cases hstep with
  | addTimer hcall hadded => exact .nothing hadded.not_deleted
  | callAdd hidle hfunctors hadded => exact .nothing hadded.not_deleted
  | restart hphase hadded => exact .nothing hadded.not_deleted
  | cancel huser hcancel => exact hcancel.deletes rfl
  | callCancel hidle hfunctors hcancel => exact hcancel.deletes rfl
  | delete hphase hlive hend => exact .timer rfl hlive (Function.update_self ..)
  | finishReset hphase =>
    refine .nothing fun k hmem => ?_
    obtain ⟨_, _, heq⟩ := isSettime_of_finishReset hmem
    cases heq
  | newTimer hcall hfree hmax | newElsewhere | queueAdd hcall | returnId hcall
  | queueCancel hforeign | handleRead hidle | eraseActive hphase hactive | beginCalling hphase
  | run hphase hlive | endCalling hphase | again hphase hlive hrepeat hkeep =>
    exact .nothing (by simp)

/-- No timer with number `k` is there, and none will be. -/
structure Gone (s : TimerSystem) (k : Nat) : Prop where
  counted : k < s.timerCreated_
  absent : ∀ b timer, s.timers b = some timer → timer.sequence_ ≠ k

/-- A number does not come back, because the counter is behind it. -/
theorem gone_of_step (hstep : Step s a es s') {k : Nat} (hless : k < s.timerCreated_)
    (hgone : ∀ b timer, s.timers b = some timer → timer.sequence_ = k → s'.timers b = none) :
    s'.Gone k := by
  refine ⟨Nat.lt_of_lt_of_le hless (created_le hstep), fun b timer hlive hk => ?_⟩
  have habsent : s'.timers b ≠ none := by
    rw [hlive]
    simp
  cases timer_origin hstep hlive with
  | made hfree hnumber hcount => omega
  | kept hlive' => exact habsent (hgone b timer hlive' hk)
  | @restarted now entry todo timer₀ hphase hphase' hb hlive' hrepeat htimer =>
    rw [htimer] at hk
    exact habsent (hgone b timer₀ hlive' hk)

theorem Gone.step {k : Nat} (h : s.Gone k) (hstep : Step s a es s') : s'.Gone k :=
  gone_of_step hstep h.counted fun b timer hlive hk => absurd hk (h.absent b timer hlive)

/-- No timer has been deleted twice, and what was deleted is gone for good. -/
structure DeletedOnce (tr : List TimerEvent) (s : TimerSystem) : Prop where
  once : (deletions tr).Nodup
  gone : ∀ k ∈ deletions tr, s.Gone k

theorem DeletedOnce.step (h : DeletedOnce tr s) (hwf : s.WellFormed) (hstep : Step s a es s') :
    DeletedOnce (tr ++ es) s' := by
  cases step_deletes hstep with
  | nothing hnone =>
    have hsame : deletions (tr ++ es) = deletions tr := by
      rw [deletions_append, deletions_eq_nil hnone, List.append_nil]
    refine ⟨?_, fun k hmem => ?_⟩
    · rw [hsame]
      exact h.once
    · rw [hsame] at hmem
      exact (h.gone k hmem).step hstep
  | @timer b timer hevents hlive hgone =>
    have hnew : timer.sequence_ ∉ deletions tr := fun hmem =>
      (h.gone _ hmem).absent b timer hlive rfl
    refine ⟨?_, fun k hmem => ?_⟩
    · rw [deletions_append, hevents]
      exact h.once.append (List.nodup_singleton _) (List.disjoint_singleton.mpr hnew)
    · rw [deletions_append, hevents, List.mem_append, List.mem_singleton] at hmem
      obtain hmem | rfl := hmem
      · exact (h.gone k hmem).step hstep
      · refine gone_of_step hstep (hwf.objects.counted b timer hlive) fun b' timer' hlive' hk => ?_
        rw [hwf.objects.unique b' b timer' timer hlive' hlive hk]
        exact hgone

theorem reach_deletedOnce {C : StepCondition TimerSystem TimerAction TimerEvent}
    (h : machine.Reach C tr s) : DeletedOnce tr s := by
  refine Machine.Reach.invariant (I := DeletedOnce) ?_ ?_ h
  · rintro _ rfl
    exact ⟨.nil, fun k hmem => absurd hmem List.not_mem_nil⟩
  · exact fun _ _ _ _ _ hreach honce _ hstep =>
      honce.step (reach_wellFormed hreach) (step_cases hstep)

/-- The destructor follows no dangling pointer, and deletes what it finds once. -/
theorem deleteAll_spec {entries : List Entry} (hobjects : Objects s.timers s.timerCreated_)
    (hnodup : (pointers entries).Nodup)
    (hlive : ∀ e ∈ entries, ∃ timer, s.timers e.second = some timer) :
    ∃ s' es, s.deleteAll entries = .ok (s', es) ∧ (deletions es).Nodup ∧
      ∀ k ∈ deletions es, ∃ e ∈ entries, ∃ timer, s.timers e.second = some timer ∧
        timer.sequence_ = k := by
  induction entries generalizing s with
  | nil => exact ⟨s, [], rfl, .nil, by simp [deletions]⟩
  | cons entry rest ih =>
    rw [pointers_cons, List.nodup_cons] at hnodup
    obtain ⟨hentry, hrest⟩ := hnodup
    obtain ⟨timer, htimer⟩ := hlive entry List.mem_cons_self
    have hapart : ∀ e ∈ rest,
        (s.setTimer entry.second none).timers e.second = s.timers e.second := by
      intro e he
      have hne : e.second ≠ entry.second := fun heq => hentry (heq ▸ mem_pointers he)
      exact Function.update_of_ne hne ..
    have hlive' : ∀ e ∈ rest, ∃ timer,
        (s.setTimer entry.second none).timers e.second = some timer := by
      intro e he
      rw [hapart e he]
      exact hlive e (List.mem_cons_of_mem _ he)
    have hobjects' : Objects (s.setTimer entry.second none).timers
        (s.setTimer entry.second none).timerCreated_ := hobjects.delete
    obtain ⟨s', es, hgo, honce, hfound⟩ := ih hobjects' hrest hlive'
    have hfound' : ∀ k ∈ deletions es, ∃ e ∈ rest, ∃ timer, s.timers e.second = some timer ∧
        timer.sequence_ = k := by
      intro k hk
      obtain ⟨e, he, timer', htimer', hnumber⟩ := hfound k hk
      rw [hapart e he] at htimer'
      exact ⟨e, he, timer', htimer', hnumber⟩
    refine ⟨s', .deleted timer.sequence_ :: es, ?_, ?_, ?_⟩
    · rw [deleteAll, deref_eq_ok_iff.mpr htimer, ok_bind, hgo, ok_bind]
      rfl
    · refine List.nodup_cons.mpr ⟨fun hmem => ?_, honce⟩
      obtain ⟨e, he, timer', htimer', hnumber⟩ := hfound' _ hmem
      rw [← hobjects.unique _ _ timer' timer htimer' htimer hnumber] at hentry
      exact hentry (mem_pointers he)
    · intro k hk
      obtain rfl | hk := List.mem_cons.mp hk
      · exact ⟨entry, List.mem_cons_self, timer, htimer, rfl⟩
      · obtain ⟨e, he, hfound⟩ := hfound' k hk
        exact ⟨e, List.mem_cons_of_mem _ he, hfound⟩

theorem destroy_spec {C : StepCondition TimerSystem TimerAction TimerEvent}
    (h : machine.Reach C tr s) :
    ∃ s' es, s.destroy = .ok (s', es) ∧ (deletions (tr ++ es)).Nodup := by
  have hwf := reach_wellFormed h
  have honce := reach_deletedOnce h
  obtain ⟨s', es, hgo, hnodup, hfound⟩ := deleteAll_spec hwf.objects hwf.nodup_pointers
    fun e he => hwf.ownership.live _ (mem_owned_of_timers (mem_pointers he))
  refine ⟨s', es, hgo, ?_⟩
  rw [deletions_append]
  refine honce.once.append hnodup fun k hmem hk => ?_
  obtain ⟨e, _, timer, hlive, hnumber⟩ := hfound k hk
  exact (honce.gone k hmem).absent e.second timer hlive hnumber

end Deletions

section Stamps

/-- A key enters `activeTiemrs_` with the counter as it stands. -/
theorem active_origin (hstep : Step s a es s') {b : Addr} {n : Nat}
    (hmem : (b, n) ∈ s'.queue.activeTiemrs_) :
    (b, n) ∈ s.queue.activeTiemrs_ ∨ n = s'.timerCreated_ := by
  have hinsert : ∀ {s₀ : TimerSystem} {addr : Addr} {timer : Timer}, Added s₀ addr timer es s' →
      s₀.queue = s.queue → (b, n) ∈ s.queue.activeTiemrs_ ∨ n = s'.timerCreated_ := by
    rintro s₀ addr timer ⟨_, _, _, rfl, _⟩ hqueue
    obtain heq | hold := Finset.mem_insert.mp hmem
    · exact .inr (Prod.mk.inj heq).2
    · exact .inl (hqueue ▸ hold)
  cases hstep with
  | addTimer hcall hadded => exact hinsert hadded rfl
  | callAdd hidle hfunctors hadded => exact hinsert hadded rfl
  | restart hphase hadded => exact hinsert hadded rfl
  | cancel huser hcancel | callCancel hidle hfunctors hcancel =>
    cases hcancel with
    | deleted hactive hlive hentry => exact .inl (Finset.mem_of_mem_erase hmem)
    | remembered hactive hcalling => exact .inl hmem
    | nothing hactive hcalling => exact .inl hmem
  | eraseActive hphase hactive => exact .inl (Finset.mem_of_mem_erase hmem)
  | newTimer hcall hfree hmax | newElsewhere | queueAdd hcall | returnId hcall
  | queueCancel hforeign | handleRead hidle | beginCalling hphase | run hphase hlive
  | endCalling hphase | again hphase hlive hrepeat hkeep | delete hphase hlive hend
  | finishReset hphase => exact .inl hmem

theorem remembered_origin (hstep : Step s a es s') {id : TimerId}
    (hmem : (id.timer_, id.sequence_) ∈ s'.queue.cancelingTimers_) :
    (id.timer_, id.sequence_) ∈ s.queue.cancelingTimers_ ∨ .cancelled id ∈ es := by
  have hinsert : ∀ {s₀ : TimerSystem} {timerId : TimerId}, CancelInLoop s₀ timerId es s' →
      s₀.queue = s.queue →
        (id.timer_, id.sequence_) ∈ s.queue.cancelingTimers_ ∨ .cancelled id ∈ es := by
    intro s₀ timerId hcancel hqueue
    rw [← hqueue]
    cases hcancel with
    | deleted hactive hlive hentry => exact .inl hmem
    | remembered hactive hcalling =>
      obtain heq | hold := Finset.mem_insert.mp hmem
      · obtain ⟨haddr, hnumber⟩ := Prod.mk.inj heq
        have hsame : id = timerId := by
          cases id
          cases timerId
          exact congrArg₂ TimerId.mk haddr hnumber
        exact .inr (hsame ▸ List.mem_cons_self)
      · exact .inl hold
    | nothing hactive hcalling => exact .inl hmem
  cases hstep with
  | cancel huser hcancel => exact hinsert hcancel rfl
  | callCancel hidle hfunctors hcancel => exact hinsert hcancel rfl
  | addTimer hcall hadded | callAdd hidle hfunctors hadded | restart hphase hadded =>
    obtain ⟨_, _, _, rfl, _⟩ := hadded
    exact .inl hmem
  | beginCalling hphase => exact absurd hmem (Finset.notMem_empty _)
  | newTimer hcall hfree hmax | newElsewhere | queueAdd hcall | returnId hcall
  | queueCancel hforeign | handleRead hidle | eraseActive hphase hactive | run hphase hlive
  | endCalling hphase | again hphase hlive hrepeat hkeep | delete hphase hlive hend
  | finishReset hphase => exact .inl hmem

theorem returned_origin (hstep : Step s a es s') {k : Nat} {id : TimerId}
    (hmem : .returned k id ∈ es) :
    id.sequence_ = s.timerCreated_ ∧ ∃ t, s.calls t = some (.added id.timer_ k) := by
  cases hstep with
  | returnId hcall =>
    obtain ⟨rfl, rfl⟩ := TimerEvent.returned.inj (List.mem_singleton.mp hmem)
    exact ⟨rfl, _, hcall⟩
  | addTimer hcall hadded | callAdd hidle hfunctors hadded | restart hphase hadded =>
    exact absurd hmem ((unconcerned_of_inserted hadded.events_inserted).returned k id)
  | cancel huser hcancel | callCancel hidle hfunctors hcancel =>
    obtain ⟨more, rfl, hmore⟩ := hcancel.events
    obtain heq | hmem := List.mem_cons.mp hmem
    · cases heq
    · obtain ⟨_, heq⟩ := hmore _ hmem
      cases heq
  | finishReset hphase =>
    obtain ⟨_, _, heq⟩ := isSettime_of_finishReset hmem
    cases heq
  | newTimer hcall hfree hmax | newElsewhere | queueAdd hcall | queueCancel hforeign
  | handleRead hidle | eraseActive hphase hactive | beginCalling hphase | run hphase hlive
  | endCalling hphase | again hphase hlive hrepeat hkeep | delete hphase hlive hend => simp at hmem

/-- What was made for timer `k` at `b` is older than what is there. -/
structure Since (s : TimerSystem) (b : Addr) (k : Nat) : Prop where
  counted : k < s.timerCreated_
  number : ∀ timer, s.timers b = some timer → k ≤ timer.sequence_

/-- At every address the numbers only grow. -/
theorem Since.step {b : Addr} {k : Nat} (h : s.Since b k) (hstep : Step s a es s') :
    s'.Since b k := by
  refine ⟨Nat.lt_of_lt_of_le h.counted (created_le hstep), fun timer hlive => ?_⟩
  cases timer_origin hstep hlive with
  | made hfree hnumber hcount =>
    have hcounted := h.counted
    omega
  | kept hlive' => exact h.number timer hlive'
  | @restarted now entry todo timer₀ hphase hphase' hb hlive' hrepeat htimer =>
    rw [htimer]
    exact h.number timer₀ hlive'

/-- The stamps of ids and keys against the numbers of the timers: an id is stamped with the
    number behind that of its timer, and a key of `activeTiemrs_` with a later one. -/
structure Stamped (tr : List TimerEvent) (s : TimerSystem) : Prop where
  functors : s.functors = []
  calls : ∀ t b k, s.calls t = some (.created b k) ∨ s.calls t = some (.added b k) →
    t = loopThread ∧ s.timerCreated_ = k + 1 ∧ s.Since b k
  returned : ∀ k id, .returned k id ∈ tr → id.sequence_ = k + 1 ∧ s.Since id.timer_ k
  active : ∀ b n timer, (b, n) ∈ s.queue.activeTiemrs_ → s.timers b = some timer →
    timer.sequence_ < n
  remembered : ∀ id : TimerId, (id.timer_, id.sequence_) ∈ s.queue.cancelingTimers_ →
    .cancelled id ∈ tr

/-- Nobody but the thread of the loop is in `addTimer`, and it has nothing to queue. -/
theorem Stamped.functors_step (h : Stamped tr s) (hcond : inLoopThread tr s a)
    (hgo : s.step a = .ok (s', es)) : s'.functors = [] := by
  have hnone := h.functors
  have hstep := step_cases hgo
  cases hstep with
  | @queueAdd t now addr k hcall =>
    obtain ⟨rfl, _⟩ := h.calls t addr k (.inl hcall)
    simp only [step, hcall, if_true] at hgo
    obtain ⟨timer, hadded⟩ := addTimerInloop_eq_ok hgo
    obtain ⟨more, heq, _⟩ := hadded.events
    cases heq
  | queueCancel hforeign => exact absurd hcond hforeign
  | callAdd hidle hfunctors hadded | callCancel hidle hfunctors hcancel =>
    rw [hnone] at hfunctors
    cases hfunctors
  | addTimer hcall hadded | restart hphase hadded =>
    obtain ⟨_, _, _, rfl, _⟩ := hadded
    exact hnone
  | cancel huser hcancel => cases hcancel <;> exact hnone
  | newTimer hcall hfree hmax | newElsewhere | returnId hcall | handleRead hidle
  | eraseActive hphase hactive | beginCalling hphase | run hphase hlive | endCalling hphase
  | again hphase hlive hrepeat hkeep | delete hphase hlive hend | finishReset hphase => exact hnone

/-- The call of `addTimer` that goes on is the one that made the last timer. -/
theorem Stamped.calls_step (h : Stamped tr s) (hcond : inLoopThread tr s a)
    (hgo : s.step a = .ok (s', es)) {t : ThreadId} {b : Addr} {k : Nat}
    (hcall : s'.calls t = some (.created b k) ∨ s'.calls t = some (.added b k)) :
    t = loopThread ∧ s'.timerCreated_ = k + 1 ∧ s'.Since b k := by
  have hstep := step_cases hgo
  have hkeep : s'.timerCreated_ = s.timerCreated_ →
      s.calls t = some (.created b k) ∨ s.calls t = some (.added b k) →
      t = loopThread ∧ s'.timerCreated_ = k + 1 ∧ s'.Since b k := by
    intro hcount hold
    obtain ⟨ht, hk, hsince⟩ := h.calls t b k hold
    exact ⟨ht, hcount.trans hk, hsince.step hstep⟩
  have hmoves : ∀ {t' : ThreadId} {b' : Addr} {k' : Nat}, s.calls t' = some (.created b' k') →
      s'.calls = Function.update s.calls t' (some (.added b' k')) →
        s.calls t = some (.created b k) ∨ s.calls t = some (.added b k) := by
    intro t' b' k' hcall' hcalls
    rw [hcalls] at hcall
    by_cases ht : t = t'
    · subst ht
      rw [Function.update_self] at hcall
      obtain heq | heq := hcall
      · cases heq
      · cases heq
        exact .inl hcall'
    · rw [Function.update_of_ne ht] at hcall
      exact hcall
  cases hstep with
  | @newTimer t' addr when interval hnone hfree hmax =>
    change Function.update s.calls t' (some (.created addr s.timerCreated_)) t = _ ∨
      Function.update s.calls t' (some (.created addr s.timerCreated_)) t = _ at hcall
    by_cases ht : t = t'
    · subst ht
      rw [Function.update_self] at hcall
      obtain heq | heq := hcall
      · cases heq
        refine ⟨hcond, rfl, Nat.lt_succ_self _, fun timer hlive => ?_⟩
        change Function.update s.timers b _ b = some timer at hlive
        rw [Function.update_self, Option.some.injEq] at hlive
        rw [← hlive]
        exact Nat.le_refl _
      · cases heq
    · rw [Function.update_of_ne ht] at hcall
      exact absurd ((h.calls t b k hcall).1.trans hcond.symm) ht
  | newElsewhere => cases hcond
  | addTimer hcall' hadded =>
    obtain ⟨_, _, _, rfl, _⟩ := hadded
    exact hkeep rfl (hmoves hcall' rfl)
  | queueAdd hcall' => exact hkeep rfl (hmoves hcall' rfl)
  | @returnId t' b' k' hcall' =>
    refine hkeep rfl ?_
    rw [setCall_calls] at hcall
    by_cases ht : t = t'
    · subst ht
      rw [Function.update_self] at hcall
      obtain heq | heq := hcall <;> cases heq
    · rw [Function.update_of_ne ht] at hcall
      exact hcall
  | callAdd hidle hfunctors hadded | restart hphase hadded =>
    obtain ⟨_, _, _, rfl, _⟩ := hadded
    exact hkeep rfl hcall
  | cancel huser hcancel | callCancel hidle hfunctors hcancel =>
    cases hcancel <;> exact hkeep rfl hcall
  | queueCancel hforeign | handleRead hidle
  | eraseActive hphase hactive | beginCalling hphase | run hphase hlive | endCalling hphase
  | again hphase hlive hrepeat hkeep | delete hphase hlive hend | finishReset hphase =>
    exact hkeep rfl hcall

theorem Stamped.step (h : Stamped tr s) (hwf : s.WellFormed) (hcond : inLoopThread tr s a)
    (hgo : s.step a = .ok (s', es)) : Stamped (tr ++ es) s' := by
  have hstep := step_cases hgo
  have hwf' := wellFormed_step hwf hstep
  refine ⟨h.functors_step hcond hgo, fun t b k hcall => h.calls_step hcond hgo hcall,
    fun k id hmem => ?_, fun b n timer hmem hlive => ?_, fun id hmem => ?_⟩
  · obtain hold | hnew := List.mem_append.mp hmem
    · obtain ⟨hk, hsince⟩ := h.returned k id hold
      exact ⟨hk, hsince.step hstep⟩
    · obtain ⟨hstamp, t, hcall⟩ := returned_origin hstep hnew
      obtain ⟨_, hk, hsince⟩ := h.calls t id.timer_ k (.inr hcall)
      exact ⟨hstamp.trans hk, hsince.step hstep⟩
  · obtain hold | rfl := active_origin hstep hmem
    · cases timer_origin hstep hlive with
      | made hfree hnumber hcount =>
        exact absurd hold (hwf.not_active (hwf.not_live_of_free hfree) n)
      | kept hlive' => exact h.active b n timer hold hlive'
      | @restarted now entry todo timer₀ hphase hphase' hb hlive' hrepeat htimer =>
        rw [htimer]
        exact h.active b n timer₀ hold hlive'
    · exact hwf'.objects.counted b timer hlive
  · obtain hold | hnew := remembered_origin hstep hmem
    · exact List.mem_append_left _ (h.remembered id hold)
    · exact List.mem_append_right _ hnew

theorem reach_stamped (h : machine.Reach inLoopThread tr s) : Stamped tr s := by
  refine Machine.Reach.invariant (I := Stamped) ?_ ?_ h
  · rintro _ rfl
    exact ⟨rfl, by simp [start], by simp, by simp [start, TimerQueue.new],
      by simp [start, TimerQueue.new]⟩
  · exact fun _ _ _ _ _ hreach hstamped hcond hstep =>
      hstamped.step (reach_wellFormed hreach) hcond hstep

/-- A key that equals the id of timer `k` is that of timer `k`. -/
theorem Stamped.number_eq (h : Stamped tr s) {id : TimerId} {k : Nat} {timer : Timer}
    (hid : .returned k id ∈ tr) (hlive : s.timers id.timer_ = some timer)
    (hless : timer.sequence_ < id.sequence_) : timer.sequence_ = k := by
  obtain ⟨hk, hsince⟩ := h.returned k id hid
  have hnumber := hsince.number timer hlive
  omega

end Stamps

/-- What `cancelInLoop` may do with the id that `addTimer` returned for timer `k`. -/
inductive CancelsOnly (s : TimerSystem) (id : TimerId) (k : Nat) : TimerSystem → Prop
  | nothing : CancelsOnly s id k s
  | removed {timer : Timer} (hlive : s.timers id.timer_ = some timer)
      (hnumber : timer.sequence_ = k)
      (hentry : ⟨timer.expiration_, id.timer_⟩ ∈ s.queue.timers_.elems)
      (hactive : (id.timer_, id.sequence_) ∈ s.queue.activeTiemrs_) :
      CancelsOnly s id k ({ s with queue := { s.queue with
        timers_ := s.queue.timers_.erase ⟨timer.expiration_, id.timer_⟩
        activeTiemrs_ := s.queue.activeTiemrs_.erase (id.timer_, id.sequence_) } }.setTimer
          id.timer_ none)
  | remembered : CancelsOnly s id k { s with queue := { s.queue with
      cancelingTimers_ := Insert.insert (id.timer_, id.sequence_) s.queue.cancelingTimers_ } }

/-- In `reset`, the repetition of `timer` is stopped by the id of `timer` only. -/
def StoppedByOwnId (tr : List TimerEvent) (s : TimerSystem) (b : Addr) (timer : Timer) : Prop :=
  ∃ id, .cancelled id ∈ tr ∧ id.timer_ = b ∧ id.sequence_ = s.timerCreated_ ∧
    ∀ k, .returned k id ∈ tr → timer.sequence_ = k

theorem Stamped.cancelsOnly (h : Stamped tr s) (hgo : s.step a = .ok (s', es)) {id : TimerId}
    (hcancels : id ∈ s.cancels a) {k : Nat} (hid : .returned k id ∈ tr) :
    CancelsOnly s id k s' := by
  have hnone := h.functors
  have hcancel : CancelInLoop s id es s' := by
    cases step_cases hgo with
    | cancel huser hcancel =>
      obtain rfl := Option.some.inj hcancels
      exact hcancel
    | callAdd hidle hfunctors hadded | callCancel hidle hfunctors hcancel =>
      rw [hnone] at hfunctors
      cases hfunctors
    | queueCancel hforeign =>
      rw [cancels, if_neg hforeign] at hcancels
      cases hcancels
    | newTimer hcall hfree hmax | newElsewhere | addTimer hcall hadded | queueAdd hcall
    | returnId hcall | handleRead hidle | eraseActive hphase hactive | beginCalling hphase
    | run hphase hlive | endCalling hphase | again hphase hlive hrepeat hkeep
    | delete hphase hlive hend | restart hphase hadded | finishReset hphase => cases hcancels
  cases hcancel with
  | @deleted timer hactive hlive hentry =>
    exact .removed hlive (h.number_eq hid hlive (h.active _ _ timer hactive hlive)) hentry hactive
  | remembered hactive hcalling => exact .remembered
  | nothing hactive hcalling => exact .nothing

theorem Stamped.stoppedByOwnId (h : Stamped tr s) (hwf : s.WellFormed) {now : Int} {entry : Entry}
    {todo : List Entry} {timer : Timer} (hphase : s.phase = .resetting now (entry :: todo))
    (hlive : s.timers entry.second = some timer) (hrepeat : timer.repeat_ = true)
    (hgo : s.step .reset = .ok (s', es)) (hdeleted : .deleted timer.sequence_ ∈ es) :
    StoppedByOwnId tr s entry.second timer := by
  cases step_cases hgo with
  | again hphase' hlive' hrepeat' hkeep => cases hdeleted
  | @delete now' entry' todo' timer' hphase' hlive' hend =>
    rw [hphase, Phase.resetting.injEq] at hphase'
    obtain ⟨rfl, hcons⟩ := hphase'
    obtain ⟨rfl, rfl⟩ := List.cons.inj hcons
    rw [hlive] at hlive'
    obtain rfl := Option.some.inj hlive'
    have hmem := hend.resolve_left (by rw [hrepeat]; simp)
    refine ⟨⟨entry.second, s.timerCreated_⟩, h.remembered ⟨entry.second, s.timerCreated_⟩ hmem, rfl,
      rfl, fun k hid => ?_⟩
    exact h.number_eq hid hlive (hwf.objects.counted _ timer hlive)

/-- Where one thread does everything, the id of a timer cancels this timer or none, every
    pointer that the queue follows is that of a timer, and no timer is deleted twice, the
    destructor included. -/
theorem stale_ids (h : machine.Reach inLoopThread tr s) :
    (∀ a s' es id k, s.step a = .ok (s', es) → id ∈ s.cancels a → .returned k id ∈ tr →
      CancelsOnly s id k s') ∧
    (∀ now entry todo timer s' es, s.phase = .resetting now (entry :: todo) →
      s.timers entry.second = some timer → timer.repeat_ = true →
        s.step .reset = .ok (s', es) → .deleted timer.sequence_ ∈ es →
          StoppedByOwnId tr s entry.second timer) ∧
    (∀ e ∈ s.queue.timers_.elems ++ s.phase.held, ∃ timer, s.timers e.second = some timer) ∧
    (deletions tr).Nodup ∧
    (s.Idle → ∃ s' es, s.destroy = .ok (s', es) ∧ (deletions (tr ++ es)).Nodup) := by
  have hstamped := reach_stamped h
  have hwf := reach_wellFormed h
  refine ⟨?_, ?_, fun e he => ?_, (reach_deletedOnce h).once, fun _ => destroy_spec h⟩
  · exact fun a s' es id k hgo hcancels hid => hstamped.cancelsOnly hgo hcancels hid
  · intro now entry todo timer s' es hphase hlive hrepeat hgo hdeleted
    exact hstamped.stoppedByOwnId hwf hphase hlive hrepeat hgo hdeleted
  · obtain he | he := List.mem_append.mp he
    · exact hwf.ownership.live _ (mem_owned_of_timers (mem_pointers he))
    · exact hwf.ownership.live _ (mem_owned_of_held (mem_pointers he))

section Decidable

instance (tr : List TimerEvent) (s : TimerSystem) :
    (a : TimerAction) → Decidable (inLoopThread tr s a)
  | .newTimer t _ _ _ => inferInstanceAs (Decidable (t = loopThread))
  | .cancel t _ => inferInstanceAs (Decidable (t = loopThread))
  | .newElsewhere => .isFalse id
  | .runInLoop _ _ | .returnId _ | .callFunctor _ | .handleRead _ | .eraseActive | .beginCalling
  | .run | .endCalling | .reset | .restart | .finishReset _ => .isTrue trivial

end Decidable

/-- The second timer has taken the place of the first one, which was cancelled, and the id
    of the first one is cancelled again. -/
theorem stale_ids_reused : ∃ tr s s', machine.Reach inLoopThread tr s ∧
    .returned 0 ⟨8, 1⟩ ∈ tr ∧ .returned 1 ⟨8, 2⟩ ∈ tr ∧ CancelsOnly s ⟨8, 1⟩ 0 s' := by
  have hruns : machine.runsIn inLoopThread start
      (addTimer 8 100 second ++ .cancel loopThread ⟨8, 1⟩ :: addTimer 8 200 never)
      (fun tr s => .returned 0 ⟨8, 1⟩ ∈ tr ∧ .returned 1 ⟨8, 2⟩ ∈ tr ∧
        (s.step (.cancel loopThread ⟨8, 1⟩)).isOk = true) = true := by
    decide +kernel
  obtain ⟨tr, s, hreach, htest⟩ := Machine.exists_reachIn rfl hruns
  obtain ⟨hfirst, hsecond, hok⟩ := of_decide_eq_true htest
  cases hstep : s.step (.cancel loopThread ⟨8, 1⟩) with
  | error stop =>
    rw [hstep] at hok
    cases hok
  | ok next =>
    exact ⟨tr, s, next.1, hreach, hfirst, hsecond,
      (stale_ids hreach).1 _ _ _ _ 0 hstep rfl hfirst⟩

end TimerSystem

end TcpNet
