import TcpNet.TimerQueue.Indexes

open Transition Trace

namespace TcpNet

/-- The expired entries that `reset` has still to look at. -/
def Phase.toReset : Phase → List Entry
  | .running _ _ expired => expired
  | .resetting _ todo => todo
  | .restarting _ _ todo => todo
  | _ => []

/-- `cancelInLoop` has been executed with the id that `addTimer` had returned for
    timer `k`. -/
def Cancelled (k : Nat) (tr : List TimerEvent) : Prop :=
  Passed (fun before e => ∃ id, e = .cancelled id ∧ .returned k id ∈ before) tr

/-- A `handleRead` has started since timer `k` was cancelled. -/
def Overdue (k : Nat) (tr : List TimerEvent) : Prop :=
  Passed (fun before e => (∃ now, e = .handleRead now) ∧ Cancelled k before) tr

/-- No `handleRead` that starts after its cancellation runs a timer. -/
def CancelEffective (tr : List TimerEvent) : Prop :=
  ∀ k, ¬ Passed (fun before e => e = .ran k ∧ Overdue k before) tr

section Decidable

instance (k : Nat) (before : List TimerEvent) :
    (e : TimerEvent) → Decidable (∃ id, e = .cancelled id ∧ .returned k id ∈ before)
  | .cancelled id => decidable_of_iff (.returned k id ∈ before) (by simp)
  | .created _ | .inserted _ | .returned _ _ | .handleRead _ | .ran _ | .deleted _
  | .settime _ _ => .isFalse (by simp)

instance (k : Nat) (tr : List TimerEvent) : Decidable (Cancelled k tr) :=
  inferInstanceAs (Decidable (Passed _ _))

instance (k : Nat) (p : TimerId → Prop) [DecidablePred p] :
    (e : TimerEvent) → Decidable (∀ id, e = .returned k id → p id)
  | .returned k' id => decidable_of_iff (k' = k → p id) (by simp)
  | .created _ | .inserted _ | .cancelled _ | .handleRead _ | .ran _ | .deleted _
  | .settime _ _ => .isTrue (by simp)

instance (k : Nat) (p : TimerId → Prop) [DecidablePred p] (tr : List TimerEvent) :
    Decidable (∀ id, .returned k id ∈ tr → p id) :=
  decidable_of_iff (∀ e ∈ tr, ∀ id, e = .returned k id → p id)
    ⟨fun h id hmem => h _ hmem id rfl, fun h _ hmem id heq => h id (heq ▸ hmem)⟩

end Decidable

section Events

variable {tr es : List TimerEvent} {k : Nat}

theorem returned_of_cancelled (h : Cancelled k tr) : ∃ id, .returned k id ∈ tr := by
  obtain ⟨before, e, after, rfl, id, _, hreturned⟩ := h
  exact ⟨id, List.mem_append_left _ hreturned⟩

theorem cancelled_append_iff (h : ∀ id, .cancelled id ∉ es) :
    Cancelled k (tr ++ es) ↔ Cancelled k tr := by
  rw [Cancelled, passed_append_iff]
  refine ⟨fun hpassed => hpassed.resolve_right ?_, .inl⟩
  refine not_passed_of_forall_not ?_
  rintro e he before ⟨id, rfl, _⟩
  exact h id he

theorem overdue_append_iff (h : ∀ now, .handleRead now ∉ es) :
    Overdue k (tr ++ es) ↔ Overdue k tr := by
  rw [Overdue, passed_append_iff]
  refine ⟨fun hpassed => hpassed.resolve_right ?_, .inl⟩
  refine not_passed_of_forall_not ?_
  rintro e he before ⟨⟨now, rfl⟩, _⟩
  exact h now he

theorem cancelled_append_cons_iff {id : TimerId} (h : ∀ id, .cancelled id ∉ es) :
    Cancelled k (tr ++ .cancelled id :: es) ↔ Cancelled k tr ∨ .returned k id ∈ tr := by
  rw [List.append_cons, cancelled_append_iff h, Cancelled, passed_append_iff, passed_cons_iff]
  refine or_congr_right ⟨?_, ?_⟩
  · rintro (⟨id', heq, hreturned⟩ | hnone)
    · rw [TimerEvent.cancelled.injEq] at heq
      rw [heq]
      simpa using hreturned
    · exact absurd hnone passed_nil
  · exact fun hreturned => .inl ⟨id, rfl, by simpa using hreturned⟩

theorem overdue_concat_iff {now : Int} :
    Overdue k (tr ++ [.handleRead now]) ↔ Overdue k tr ∨ Cancelled k tr := by
  rw [Overdue, passed_append_iff, passed_cons_iff]
  refine or_congr_right ⟨?_, ?_⟩
  · rintro (⟨_, hcancelled⟩ | hnone)
    · simpa using hcancelled
    · exact absurd hnone passed_nil
  · exact fun hcancelled => .inl ⟨⟨now, rfl⟩, by simpa using hcancelled⟩

end Events

namespace TimerSystem

variable {tr es : List TimerEvent} {s s₀ s' : TimerSystem}

/-- Where a cancellation finds its timer: one that is pending has been inserted, for
    the last time, with as many timers made as when its id was read; one that
    `handleRead` is holding comes to its turn in `reset` with that many made. -/
def CancelsInTime (tr : List TimerEvent) (s : TimerSystem) (a : TimerAction) : Prop :=
  (∀ id ∈ s.cancels a, ∀ timer ∈ s.timers id.timer_, .returned timer.sequence_ id ∈ tr →
    id.timer_ ∈ pointers s.phase.held ∨
      id.timer_ ∈ pointers s.queue.timers_.elems ∧ insertedAt timer.sequence_ tr = id.sequence_) ∧
  (a = .reset → ∀ entry ∈ s.phase.held.head?, ∀ timer ∈ s.timers entry.second,
    timer.repeat_ = true → Cancelled timer.sequence_ tr →
    ∀ id, .returned timer.sequence_ id ∈ tr → constructed tr = id.sequence_)

instance (tr : List TimerEvent) (s : TimerSystem) (a : TimerAction) :
    Decidable (CancelsInTime tr s a) :=
  inferInstanceAs (Decidable (_ ∧ _))

/-- Cancelled timers are gone, or `reset` is about to find them. -/
structure Settled (tr : List TimerEvent) (s : TimerSystem) : Prop where
  returned : ∀ k id, .returned k id ∈ tr → k < s.timerCreated_ ∧
    ∀ a timer, s.timers a = some timer → timer.sequence_ = k → a = id.timer_
  calls : ∀ t a k, s.calls t = some (.added a k) → k < s.timerCreated_ ∧
    ∀ b timer, s.timers b = some timer → timer.sequence_ = k → b = a
  cancelled : ∀ a timer, s.timers a = some timer → Cancelled timer.sequence_ tr →
    a ∈ pointers s.phase.toReset ∧
      ∃ id, .returned timer.sequence_ id ∈ tr ∧ (a, id.sequence_) ∈ s.queue.cancelingTimers_
  overdue : ∀ a timer, s.timers a = some timer → ¬ Overdue timer.sequence_ tr

/-- A step in which nothing is cancelled and no `handleRead` starts. -/
theorem Settled.quiet (h : Settled tr s) (hwf : s.WellFormed)
    (hcount : s.timerCreated_ ≤ s'.timerCreated_)
    (htimers : ∀ a timer, s'.timers a = some timer →
      timer.sequence_ = s.timerCreated_ ∧ s.timerCreated_ < s'.timerCreated_ ∨
      ∃ timer', s.timers a = some timer' ∧ timer'.sequence_ = timer.sequence_)
    (hcalls : ∀ t a k, s'.calls t = some (.added a k) →
      s.calls t = some (.added a k) ∨ s.calls t = some (.created a k))
    (hreturned : ∀ k id, .returned k id ∈ es → ∃ t, s.calls t = some (.added id.timer_ k))
    (hcancelled : ∀ id, .cancelled id ∉ es) (hread : ∀ now, .handleRead now ∉ es)
    (hreset : ∀ a timer, s'.timers a = some timer → Cancelled timer.sequence_ tr →
      a ∈ pointers s.phase.toReset →
      (∃ id, .returned timer.sequence_ id ∈ tr ∧ (a, id.sequence_) ∈ s.queue.cancelingTimers_) →
      a ∈ pointers s'.phase.toReset)
    (hcanceling : s.phase.toReset = [] ∨ s.queue.cancelingTimers_ ⊆ s'.queue.cancelingTimers_) :
    Settled (tr ++ es) s' := by
  have hplace : ∀ k addr, k < s.timerCreated_ →
      (∀ a timer, s.timers a = some timer → timer.sequence_ = k → a = addr) →
      ∀ a timer, s'.timers a = some timer → timer.sequence_ = k → a = addr := by
    intro k addr hless hold a timer hlive hk
    rcases htimers a timer hlive with ⟨hnew, _⟩ | ⟨timer', hlive', hsame⟩
    · omega
    · exact hold a timer' hlive' (hsame.trans hk)
  have hadded : ∀ t a k, s'.calls t = some (.added a k) → k < s.timerCreated_ ∧
      ∀ b timer, s.timers b = some timer → timer.sequence_ = k → b = a := by
    intro t a k hcall
    rcases hcalls t a k hcall with hold | hmade
    · exact h.calls t a k hold
    · obtain ⟨timer, hlive, hk⟩ := hwf.ownership.made t a k hmade
      refine ⟨hk ▸ hwf.objects.counted a timer hlive, ?_⟩
      intro b timer' hlive' hk'
      exact hwf.objects.unique b a timer' timer hlive' hlive (hk'.trans hk.symm)
  have hold : ∀ a timer, s'.timers a = some timer → Cancelled timer.sequence_ tr →
      ∃ timer', s.timers a = some timer' ∧ timer'.sequence_ = timer.sequence_ := by
    intro a timer hlive hcancel
    refine (htimers a timer hlive).resolve_left ?_
    rintro ⟨hnew, _⟩
    obtain ⟨id, hmem⟩ := returned_of_cancelled hcancel
    have hless := (h.returned _ id hmem).1
    omega
  refine ⟨?_, ?_, ?_, ?_⟩
  · intro k id hmem
    have hk : k < s.timerCreated_ ∧
        ∀ a timer, s.timers a = some timer → timer.sequence_ = k → a = id.timer_ := by
      rcases List.mem_append.mp hmem with hmem | hmem
      · exact h.returned k id hmem
      · obtain ⟨t, hcall⟩ := hreturned k id hmem
        exact h.calls t id.timer_ k hcall
    exact ⟨Nat.lt_of_lt_of_le hk.1 hcount, hplace k id.timer_ hk.1 hk.2⟩
  · intro t a k hcall
    obtain ⟨hless, hwhere⟩ := hadded t a k hcall
    exact ⟨Nat.lt_of_lt_of_le hless hcount, hplace k a hless hwhere⟩
  · intro a timer hlive hcancel
    rw [cancelled_append_iff hcancelled] at hcancel
    obtain ⟨timer', hlive', hsame⟩ := hold a timer hlive hcancel
    obtain ⟨hmem, id, hid, hcanceled⟩ := h.cancelled a timer' hlive' (hsame ▸ hcancel)
    rw [hsame] at hid
    refine ⟨hreset a timer hlive hcancel hmem ⟨id, hid, hcanceled⟩, id,
      List.mem_append_left _ hid, ?_⟩
    rcases hcanceling with hnone | hsub
    · rw [hnone] at hmem
      cases hmem
    · exact hsub hcanceled
  · intro a timer hlive hover
    rw [overdue_append_iff hread] at hover
    obtain ⟨before, e, after, hsplit, _, hcancel⟩ := hover
    have hcancel' : Cancelled timer.sequence_ tr := by
      rw [hsplit, Cancelled, passed_append_iff]
      exact .inl hcancel
    obtain ⟨timer', hlive', hsame⟩ := hold a timer hlive hcancel'
    refine h.overdue a timer' hlive' ?_
    rw [hsame]
    exact ⟨before, e, after, hsplit, ‹_›, hcancel⟩

/-- A timer with the id's number is where its id says, if it is anywhere. -/
theorem Settled.at_id (h : Settled tr s) {id : TimerId} {a : Addr} {timer : Timer}
    (hlive : s.timers a = some timer) (hid : .returned timer.sequence_ id ∈ tr) : a = id.timer_ :=
  (h.returned _ id hid).2 a timer hlive rfl

theorem CancelInLoop.events {timerId : TimerId} (h : CancelInLoop s timerId es s') :
    ∃ more, es = .cancelled timerId :: more ∧ ∀ e ∈ more, ∃ k, e = .deleted k := by
  cases h with
  | deleted _ _ _ => exact ⟨[_], rfl, by simp⟩
  | remembered _ _ | nothing _ _ => exact ⟨[], rfl, by simp⟩

/-- A cancellation finds its timer: it deletes it, or leaves its id for `reset`. -/
theorem CancelInLoop.settled {timerId : TimerId} (hcancel : CancelInLoop s timerId es s')
    (h : Settled tr s) (hwf : s.WellFormed) (hkeyed : Keyed tr s) (huser : s.phase.RunsUserCode)
    (hcond : ∀ timer ∈ s.timers timerId.timer_, .returned timer.sequence_ timerId ∈ tr →
      timerId.timer_ ∈ pointers s.phase.held ∨
        timerId.timer_ ∈ pointers s.queue.timers_.elems ∧
          insertedAt timer.sequence_ tr = timerId.sequence_) : Settled (tr ++ es) s' := by
  have hframe : s'.calls = s.calls ∧ s'.timerCreated_ = s.timerCreated_ ∧ s'.phase = s.phase ∧
      ∀ a timer, s'.timers a = some timer → s.timers a = some timer := by
    cases hcancel with
    | deleted _ _ _ =>
      refine ⟨rfl, rfl, rfl, ?_⟩
      intro a timer hlive
      have hother : a ≠ timerId.timer_ := by
        rintro rfl
        simp at hlive
      rwa [setTimer_timers, Function.update_of_ne hother] at hlive
    | remembered _ _ | nothing _ _ => exact ⟨rfl, rfl, rfl, fun _ _ hlive => hlive⟩
  obtain ⟨hcalls, hcount, hphase, htimers⟩ := hframe
  have hsub : s.queue.cancelingTimers_ ⊆ s'.queue.cancelingTimers_ := by
    cases hcancel with
    | deleted _ _ _ | nothing _ _ => exact fun _ hmem => hmem
    | remembered _ _ => exact Finset.subset_insert _ _
  -- The timer that is cancelled now, where it is still there.
  have hfound : ∀ timer, s'.timers timerId.timer_ = some timer →
      .returned timer.sequence_ timerId ∈ tr → timerId.timer_ ∈ pointers s.phase.toReset ∧
        (timerId.timer_, timerId.sequence_) ∈ s'.queue.cancelingTimers_ := by
    intro timer hlive' hid
    have hlive := htimers _ timer hlive'
    have hpending : (timerId.timer_, timerId.sequence_) ∉ s.queue.activeTiemrs_ →
        timerId.timer_ ∈ pointers s.phase.held := by
      intro hactive
      refine (hcond timer hlive hid).resolve_right ?_
      rintro ⟨hmem, hkey⟩
      obtain ⟨n, hn⟩ := (hwf.indexed.active _).mpr (.inl hmem)
      rw [hkeyed.keys _ n timer hn hlive, hkey] at hn
      exact hactive hn
    cases hcancel with
    | deleted _ _ _ => simp at hlive'
    | remembered hactive hcalling =>
      have hheld := hpending hactive
      refine ⟨?_, Finset.mem_insert_self _ _⟩
      have hrunning := hwf.calling
      rw [hcalling] at hrunning
      cases hp : s.phase with
      | running now todo expired =>
        rw [hp] at hheld
        exact hheld
      | idle | expiring _ _ _ | resetting _ _ | restarting _ _ _ =>
        rw [hp] at hrunning
        cases hrunning
    | nothing hactive hcalling =>
      have hheld := hpending hactive
      have hrunning := hwf.calling
      rw [hcalling] at hrunning
      cases hp : s.phase with
      | idle =>
        rw [hp] at hheld
        cases hheld
      | running now todo expired =>
        rw [hp] at hrunning
        cases hrunning
      | expiring _ _ _ | resetting _ _ | restarting _ _ _ =>
        rw [hp] at huser
        cases huser
  obtain ⟨more, rfl, hmore⟩ := hcancel.events
  have hnotCancelled : ∀ id, .cancelled id ∉ more := by
    intro id hmem
    obtain ⟨_, heq⟩ := hmore _ hmem
    cases heq
  have hnotRead : ∀ now, .handleRead now ∉ TimerEvent.cancelled timerId :: more := by
    intro now hmem
    rcases List.mem_cons.mp hmem with heq | hmem
    · cases heq
    · obtain ⟨_, heq⟩ := hmore _ hmem
      cases heq
  refine ⟨?_, ?_, ?_, ?_⟩
  · intro k id hmem
    have hold : .returned k id ∈ tr := by
      rcases List.mem_append.mp hmem with hmem | hmem
      · exact hmem
      · rcases List.mem_cons.mp hmem with heq | hmem
        · cases heq
        · obtain ⟨_, heq⟩ := hmore _ hmem
          cases heq
    obtain ⟨hless, hplace⟩ := h.returned k id hold
    rw [hcount]
    exact ⟨hless, fun a timer hlive => hplace a timer (htimers a timer hlive)⟩
  · intro t a k hcall
    rw [hcalls] at hcall
    obtain ⟨hless, hplace⟩ := h.calls t a k hcall
    rw [hcount]
    exact ⟨hless, fun b timer hlive => hplace b timer (htimers b timer hlive)⟩
  · intro a timer hlive hdone
    rw [hphase]
    rcases (cancelled_append_cons_iff hnotCancelled).mp hdone with hbefore | hnow
    · obtain ⟨hmem, id, hid, hcanceled⟩ := h.cancelled a timer (htimers a timer hlive) hbefore
      exact ⟨hmem, id, List.mem_append_left _ hid, hsub hcanceled⟩
    · have ha := h.at_id (htimers a timer hlive) hnow
      subst ha
      obtain ⟨hmem, hcanceled⟩ := hfound timer hlive hnow
      exact ⟨hmem, timerId, List.mem_append_left _ hnow, hcanceled⟩
  · intro a timer hlive hover
    rw [overdue_append_iff hnotRead] at hover
    exact h.overdue a timer (htimers a timer hlive) hover

/-- Events that concern no cancellation. -/
structure Unconcerned (es : List TimerEvent) : Prop where
  returned : ∀ k id, .returned k id ∉ es
  cancelled : ∀ id, .cancelled id ∉ es
  handleRead : ∀ now, .handleRead now ∉ es

theorem unconcerned_nil : Unconcerned [] := ⟨nofun, nofun, nofun⟩

theorem unconcerned_of_inserted (h : ∀ e ∈ es, (∃ k, e = .inserted k) ∨ IsSettime e) :
    Unconcerned es := by
  refine ⟨?_, ?_, ?_⟩
  · intro k id hmem
    rcases h _ hmem with ⟨_, heq⟩ | ⟨_, _, heq⟩ <;> cases heq
  · intro id hmem
    rcases h _ hmem with ⟨_, heq⟩ | ⟨_, _, heq⟩ <;> cases heq
  · intro now hmem
    rcases h _ hmem with ⟨_, heq⟩ | ⟨_, _, heq⟩ <;> cases heq

/-- A step that leaves the timers and the calls alone, and after which `reset` still comes
    to the timers it was to come to. -/
theorem Settled.onward (h : Settled tr s) (hwf : s.WellFormed) (hes : Unconcerned es)
    (hcount : s'.timerCreated_ = s.timerCreated_) (htimers : s'.timers = s.timers)
    (hcalls : s'.calls = s.calls) (htoReset : s.phase.toReset ⊆ s'.phase.toReset)
    (hcanceling : s.phase.toReset = [] ∨ s.queue.cancelingTimers_ ⊆ s'.queue.cancelingTimers_) :
    Settled (tr ++ es) s' := by
  refine h.quiet hwf hcount.ge ?_ ?_ (fun k id hmem => absurd hmem (hes.returned k id))
    hes.cancelled hes.handleRead ?_ hcanceling
  · intro a timer hlive
    rw [htimers] at hlive
    exact .inr ⟨timer, hlive, rfl⟩
  · intro t a k hcall
    rw [hcalls] at hcall
    exact .inl hcall
  · intro a timer hlive hdone hmem _
    exact List.map_subset _ htoReset hmem

theorem Added.events_inserted {a : Addr} {timer : Timer} (h : Added s₀ a timer es s') :
    ∀ e ∈ es, (∃ k, e = .inserted k) ∨ IsSettime e := by
  obtain ⟨more, rfl, hmore⟩ := h.events
  intro e he
  rcases List.mem_cons.mp he with rfl | he
  · exact .inl ⟨_, rfl⟩
  · exact .inr (hmore e he)

theorem settled_start : Settled [] start where
  returned := by simp
  calls := by simp [start]
  cancelled := by simp [start]
  overdue := by simp [start]

theorem settled_step (h : Settled tr s) (hwf : s.WellFormed) (hkeyed : Keyed tr s)
    {a : TimerAction} (hcond : CancelsInTime tr s a) (hstep : Step s a es s') :
    Settled (tr ++ es) s' := by
  obtain ⟨hcancels, hresets⟩ := hcond
  have hsame : ∀ a timer, s.timers a = some timer →
      timer.sequence_ = s.timerCreated_ ∧ s.timerCreated_ < s.timerCreated_ ∨
        ∃ timer', s.timers a = some timer' ∧ timer'.sequence_ = timer.sequence_ :=
    fun _ timer hlive => .inr ⟨timer, hlive, rfl⟩
  have hkeep : ∀ t a k, s.calls t = some (.added a k) →
      s.calls t = some (.added a k) ∨ s.calls t = some (.created a k) :=
    fun _ _ _ hcall => .inl hcall
  have hmoves : ∀ {t : ThreadId} {addr : Addr} {k : Nat}, s.calls t = some (.created addr k) →
      ∀ t' a k', Function.update s.calls t (some (.added addr k)) t' = some (.added a k') →
        s.calls t' = some (.added a k') ∨ s.calls t' = some (.created a k') := by
    intro t addr k hcall t' a k' hcall'
    by_cases ht : t' = t
    · subst ht
      rw [Function.update_self, Option.some.injEq, AddTimer.added.injEq] at hcall'
      obtain ⟨rfl, rfl⟩ := hcall'
      exact .inr hcall
    · rw [Function.update_of_ne ht] at hcall'
      exact .inl hcall'
  cases hstep with
  | @newTimer t addr when interval hcall hfree hmax =>
    refine h.quiet hwf (Nat.le_succ _) ?_ ?_ (by simp) (by simp) (by simp)
      (fun _ _ _ _ hmem _ => hmem) (.inr (fun _ hmem => hmem))
    · intro b timer hlive
      by_cases hb : b = addr
      · subst hb
        have hnew : Function.update s.timers b _ b = some timer := hlive
        rw [Function.update_self, Option.some.injEq] at hnew
        exact .inl ⟨by rw [← hnew]; rfl, Nat.lt_succ_self _⟩
      · have hold : Function.update s.timers addr _ b = some timer := hlive
        rw [Function.update_of_ne hb] at hold
        exact .inr ⟨timer, hold, rfl⟩
    · intro t' b k hcall'
      have hother : t' ≠ t := by
        rintro rfl
        have hmade : Function.update s.calls t' _ t' = some (.added b k) := hcall'
        rw [Function.update_self, Option.some.injEq] at hmade
        cases hmade
      have hold : Function.update s.calls t _ t' = some (.added b k) := hcall'
      rw [Function.update_of_ne hother] at hold
      exact .inl hold
  | newElsewhere =>
    exact h.quiet hwf (Nat.le_succ _) (fun _ timer hlive => .inr ⟨timer, hlive, rfl⟩) hkeep
      (by simp) (by simp) (by simp) (fun _ _ _ _ hmem _ => hmem) (.inr (fun _ hmem => hmem))
  | addTimer hcall hadded =>
    have hes := unconcerned_of_inserted hadded.events_inserted
    obtain ⟨_, _, _, rfl, _⟩ := hadded
    exact h.quiet hwf (Nat.le_refl _) hsame (hmoves hcall)
      (fun k id hmem => absurd hmem (hes.returned k id)) hes.cancelled hes.handleRead
      (fun _ _ _ _ hmem _ => hmem) (.inr (fun _ hmem => hmem))
  | queueAdd hcall =>
    exact h.quiet hwf (Nat.le_refl _) hsame (hmoves hcall) (by simp) (by simp) (by simp)
      (fun _ _ _ _ hmem _ => hmem) (.inr (fun _ hmem => hmem))
  | @returnId t addr k hcall =>
    refine h.quiet hwf (Nat.le_refl _) hsame ?_ ?_ (by simp) (by simp)
      (fun _ _ _ _ hmem _ => hmem) (.inr (fun _ hmem => hmem))
    · intro t' b k' hcall'
      have hother : t' ≠ t := by
        rintro rfl
        simp [setCall] at hcall'
      have hold : Function.update s.calls t none t' = some (.added b k') := hcall'
      rw [Function.update_of_ne hother] at hold
      exact .inl hold
    · intro k' id hmem
      rw [List.mem_singleton, TimerEvent.returned.injEq] at hmem
      obtain ⟨rfl, rfl⟩ := hmem
      exact ⟨t, hcall⟩
  | cancel huser hcancel =>
    exact hcancel.settled h hwf hkeyed huser (hcancels _ (by simp [cancels]))
  | queueCancel hforeign =>
    exact h.onward hwf unconcerned_nil rfl rfl rfl (List.Subset.refl _) (.inr (Finset.Subset.refl _))
  | callAdd hidle hfunctors hadded =>
    have hes := unconcerned_of_inserted hadded.events_inserted
    obtain ⟨_, _, _, rfl, _⟩ := hadded
    exact h.onward hwf hes rfl rfl rfl (List.Subset.refl _) (.inr (Finset.Subset.refl _))
  | callCancel hidle hfunctors hcancel =>
    refine hcancel.settled ⟨h.returned, h.calls, h.cancelled, h.overdue⟩ (hwf.popCancel hfunctors)
      ⟨hkeyed.count, hkeyed.keys⟩ ?_ (hcancels _ (by simp [cancels, hfunctors]))
    simp only [hidle]
    trivial
  | handleRead hidle =>
    have hgone : ∀ b timer, s.timers b = some timer → ¬ Cancelled timer.sequence_ tr := by
      intro b timer hlive hdone
      have hmem := (h.cancelled b timer hlive hdone).1
      rw [hidle] at hmem
      cases hmem
    refine ⟨?_, h.calls, ?_, ?_⟩
    · intro k id hmem
      exact h.returned k id (by simpa using hmem)
    · intro b timer hlive hdone
      rw [cancelled_append_iff (by simp)] at hdone
      exact absurd hdone (hgone b timer hlive)
    · intro b timer hlive hover
      rcases overdue_concat_iff.mp hover with hover | hdone
      · exact h.overdue b timer hlive hover
      · exact hgone b timer hlive hdone
  | eraseActive hphase hactive =>
    refine h.onward hwf unconcerned_nil rfl rfl rfl ?_ (.inr (Finset.Subset.refl _))
    rw [hphase]
    exact List.nil_subset _
  | beginCalling hphase =>
    refine h.onward hwf unconcerned_nil rfl rfl rfl ?_ (.inl (by rw [hphase]; rfl))
    rw [hphase]
    exact List.nil_subset _
  | run hphase hlive =>
    refine h.onward hwf ⟨by simp, by simp, by simp⟩ rfl rfl rfl ?_ (.inr (Finset.Subset.refl _))
    rw [hphase]
    exact List.Subset.refl _
  | endCalling hphase =>
    refine h.onward hwf unconcerned_nil rfl rfl rfl ?_ (.inr (Finset.Subset.refl _))
    rw [hphase]
    exact List.Subset.refl _
  | @again now entry todo timer hphase hlive hrepeat hkeep' =>
    refine h.quiet hwf (Nat.le_refl _) ?_ hkeep (by simp) (by simp) (by simp) ?_
      (.inr (fun _ hmem => hmem))
    · intro b timer' hlive'
      by_cases hb : b = entry.second
      · subst hb
        rw [setTimer_timers, Function.update_self, Option.some.injEq] at hlive'
        exact .inr ⟨timer, hlive, by rw [← hlive']; rfl⟩
      · rw [setTimer_timers, Function.update_of_ne hb] at hlive'
        exact .inr ⟨timer', hlive', rfl⟩
    · rintro b timer' hlive' hdone hmem ⟨id, hid, hcanceled⟩
      rw [hphase] at hmem
      rcases List.mem_cons.mp hmem with rfl | hmem
      · rw [setTimer_timers, Function.update_self, Option.some.injEq] at hlive'
        have hnumber : timer'.sequence_ = timer.sequence_ := by
          rw [← hlive']
          rfl
        rw [hnumber] at hdone hid
        have hnow := hresets rfl entry (by rw [hphase]; rfl) timer hlive hrepeat hdone id hid
        rw [← hnow, ← hkeyed.count] at hcanceled
        exact absurd hcanceled hkeep'
      · exact hmem
  | @delete now entry todo timer hphase hlive hend =>
    refine h.quiet hwf (Nat.le_refl _) ?_ hkeep (by simp) (by simp) (by simp) ?_
      (.inr (fun _ hmem => hmem))
    · intro b timer' hlive'
      have hb : b ≠ entry.second := by
        rintro rfl
        simp at hlive'
      rw [setTimer_timers, Function.update_of_ne hb] at hlive'
      exact .inr ⟨timer', hlive', rfl⟩
    · intro b timer' hlive' hdone hmem _
      rw [hphase] at hmem
      rcases List.mem_cons.mp hmem with rfl | hmem
      · simp at hlive'
      · exact hmem
  | restart hphase hadded =>
    have hes := unconcerned_of_inserted hadded.events_inserted
    obtain ⟨_, _, _, rfl, _⟩ := hadded
    refine h.onward hwf hes rfl rfl rfl ?_ (.inr (Finset.Subset.refl _))
    rw [hphase]
    exact List.Subset.refl _
  | @finishReset now now' hphase =>
    have hes : Unconcerned (s.finishReset now').2 :=
      unconcerned_of_inserted fun _ he => .inr (isSettime_of_finishReset he)
    refine h.onward hwf hes rfl rfl rfl ?_ (.inr (Finset.Subset.refl _))
    rw [hphase]
    exact List.nil_subset _

theorem reach_settled (h : machine.Reach CancelsInTime tr s) : Settled tr s := by
  refine Machine.Reach.invariant (I := Settled) ?_ ?_ h
  · rintro _ rfl
    exact settled_start
  · exact fun _ _ _ _ _ hreach hsettled hcond hstep =>
      settled_step hsettled (reach_wellFormed hreach) (reach_keyed hreach) hcond (step_cases hstep)

/-- Only a step of `handleRead` runs a timer, and that one is still there. -/
theorem live_of_ran {a : TimerAction} (hstep : Step s a es s') {k : Nat} (hran : .ran k ∈ es) :
    es = [.ran k] ∧ ∃ addr timer, s.timers addr = some timer ∧ timer.sequence_ = k := by
  have hadds : ∀ {s₀ : TimerSystem} {addr : Addr} {timer : Timer}, Added s₀ addr timer es s' →
      es = [.ran k] ∧ ∃ addr timer, s.timers addr = some timer ∧ timer.sequence_ = k := by
    intro s₀ addr timer hadded
    rcases hadded.events_inserted _ hran with ⟨_, heq⟩ | ⟨_, _, heq⟩ <;> cases heq
  have hcancels : ∀ {s₀ : TimerSystem} {id : TimerId}, CancelInLoop s₀ id es s' →
      es = [.ran k] ∧ ∃ addr timer, s.timers addr = some timer ∧ timer.sequence_ = k := by
    intro s₀ id hcancel
    obtain ⟨more, rfl, hmore⟩ := hcancel.events
    rcases List.mem_cons.mp hran with heq | hmem
    · cases heq
    · obtain ⟨_, heq⟩ := hmore _ hmem
      cases heq
  cases hstep with
  | run hphase hlive =>
    rw [List.mem_singleton, TimerEvent.ran.injEq] at hran
    exact ⟨by rw [hran], _, _, hlive, hran.symm⟩
  | addTimer _ hadded | callAdd _ _ hadded | restart _ hadded => exact hadds hadded
  | cancel _ hcancel | callCancel _ _ hcancel => exact hcancels hcancel
  | finishReset _ =>
    obtain ⟨_, _, heq⟩ := isSettime_of_finishReset hran
    cases heq
  | newTimer _ _ _ | newElsewhere | queueAdd _ | returnId _ | queueCancel _ | handleRead _
  | eraseActive _ _ | beginCalling _ | endCalling _ | again _ _ _ _ | delete _ _ _ => simp at hran

/-- In a run in which every cancellation comes in time, no `handleRead` that starts
    behind `cancelInLoop` runs the timer. -/
theorem cancel_effective (h : machine.Reach CancelsInTime tr s) : CancelEffective tr := by
  refine Machine.Reach.invariant (I := fun tr _ => CancelEffective tr) ?_ ?_ h
  · exact fun _ _ _ => passed_nil
  · intro tr s a s' es hreach hbefore hcond hstep k hpassed
    rcases passed_append_iff.mp hpassed with hold | ⟨before, e, after, rfl, rfl, hover⟩
    · exact hbefore k hold
    · have hran : .ran k ∈ before ++ .ran k :: after :=
        List.mem_append_right _ List.mem_cons_self
      obtain ⟨honly, addr, timer, hlive, rfl⟩ := live_of_ran (step_cases hstep) hran
      rw [List.append_eq_singleton_iff] at honly
      rcases honly with ⟨rfl, _⟩ | ⟨_, hnil⟩
      · rw [List.append_nil] at hover
        exact (reach_settled hreach).overdue addr timer hlive hover
      · cases hnil

/-- `handleRead` with one expired timer, up to its callback. -/
def expireOne (now : Int) : List TimerAction := [.handleRead now, .eraseActive, .beginCalling, .run]

/-- The only timer of the process cancels itself in its callback, and does not run
    again. -/
theorem cancel_effective_self : ∃ tr s, machine.Reach CancelsInTime tr s ∧
    Overdue 0 tr ∧ CancelEffective tr := by
  have hruns : machine.runsIn CancelsInTime start
      (addTimer 8 100 second ++ expireOne 150 ++ [.cancel loopThread ⟨8, 1⟩, .endCalling, .reset,
        .finishReset 150, .handleRead 2000000])
      (fun tr _ => Passed (fun before e => e = .handleRead 2000000 ∧ Cancelled 0 before) tr) =
        true := by
    decide +kernel
  obtain ⟨tr, s, hreach, htest⟩ := Machine.exists_reachIn rfl hruns
  obtain ⟨before, e, after, hsplit, rfl, hdone⟩ := of_decide_eq_true htest
  exact ⟨tr, s, hreach, ⟨before, _, after, hsplit, ⟨_, rfl⟩, hdone⟩, cancel_effective hreach⟩

/-- The callback of a repeating timer adds another timer. -/
def repeatAndAdd : List TimerAction :=
  addTimer 8 100 second ++ expireOne 150 ++ addTimer 16 5000000 never ++
    [.endCalling, .reset, .restart, .finishReset 150]

/-- From then on `cancelInLoop` does not find the repeating timer. -/
theorem cancel_ineffective : ¬ ∀ tr s, machine.Reach anyStep tr s → CancelEffective tr := by
  intro hall
  have hruns : machine.runs start
      (repeatAndAdd ++ [.cancel loopThread ⟨8, 1⟩] ++ expireOne 2000000)
      (fun tr _ => Passed (fun before e => e = .ran 0 ∧
        Passed (fun before e => e = .handleRead 2000000 ∧ Cancelled 0 before) before) tr) =
          true := by
    decide +kernel
  obtain ⟨tr, s, hreach, htest⟩ := Machine.exists_reach rfl hruns
  obtain ⟨before, _, after, hsplit, rfl, before', _, after', hsplit', rfl, hdone⟩ :=
    of_decide_eq_true htest
  exact hall tr s hreach 0 ⟨before, _, after, hsplit, rfl, before', _, after', hsplit', ⟨_, rfl⟩,
    hdone⟩

end TimerSystem

end TcpNet
