import TcpNet.TimerQueue.Cancel
import TcpNet.TimerQueue.Wakeups

open Transition

namespace TcpNet

/-- The timers whose callbacks have run, in that order. -/
def callbacks (tr : List TimerEvent) : List Nat :=
  tr.filterMap fun
    | .ran timer => some timer
    | _ => none

/-- The expired entries whose callbacks are still to run. -/
def Phase.uncalled : Phase → List Entry
  | .expiring _ _ expired => expired
  | .running _ todo _ => todo
  | _ => []

/-- The callback of the timer at `b` has run in this `handleRead`, and `reset` has not come
    to it. -/
def Phase.AwaitsReset (phase : Phase) (b : Addr) : Prop :=
  b ∈ TimerSystem.pointers phase.toReset ∧ b ∉ TimerSystem.pointers phase.uncalled

theorem Phase.not_awaitsReset {phase : Phase} (h : phase.toReset = []) (b : Addr) :
    ¬ phase.AwaitsReset b := by
  intro hawaits
  have hmem := hawaits.1
  rw [h] at hmem
  cases hmem

theorem callbacks_append (tr es : List TimerEvent) :
    callbacks (tr ++ es) = callbacks tr ++ callbacks es :=
  List.filterMap_append

theorem callbacks_eq_nil {es : List TimerEvent} (h : ∀ k, .ran k ∉ es) : callbacks es = [] := by
  apply List.filterMap_eq_nil_iff.mpr
  intro e he
  cases e with
  | ran k => exact absurd he (h k)
  | created _ | inserted _ | returned _ _ | cancelled _ | handleRead _ | deleted _ | settime _ _ =>
    rfl

namespace TimerSystem

/-- The entries of `timers_` that have expired at `now`. -/
def due (s : TimerSystem) (now : Int) : List Entry :=
  s.queue.timers_.elems.filter (fun e => e.first ≤ now)

/-- The numbers of the timers that entries point to. -/
def numbers (s : TimerSystem) (entries : List Entry) : List (Option Nat) :=
  entries.map fun e => (s.timers e.second).map Timer.sequence_

/-- In a `handleRead` that goes by `now`, the callback of `timer` runs. -/
structure Calls (s : TimerSystem) (now : Int) (timer : Timer) (s' : TimerSystem) : Prop where
  step : s.step .run = .ok (s', [.ran timer.sequence_])
  turn : ∃ entry todo expired, s.phase = .running now (entry :: todo) expired ∧
    s.timers entry.second = some timer

variable {tr es : List TimerEvent} {s s₀ s' : TimerSystem} {a : TimerAction}

/-- The sentry of `getExpired` is behind everything that has expired, and in front of the
    rest. -/
theorem WellFormed.below_sentry (h : s.WellFormed) (now : Int) :
    s.queue.timers_.below (TimerQueue.sentry now) = s.due now := by
  rw [OrderedSet.below_eq_filter, due]
  apply List.filter_congr
  intro e he
  obtain ⟨timer, hlive⟩ := h.ownership.live _ (mem_owned_of_timers (mem_pointers he))
  have haddr : e.second < UINTPTR_MAX := h.objects.addrs _ timer hlive
  rw [decide_eq_decide, Entry.lt_iff]
  change e.first < now ∨ e.first = now ∧ e.second < UINTPTR_MAX ↔ _
  constructor
  · rintro (hbefore | ⟨hequal, _⟩)
    · exact le_of_lt hbefore
    · exact le_of_eq hequal
  · intro hle
    obtain hbefore | hequal := lt_or_eq_of_le hle
    · exact .inl hbefore
    · exact .inr ⟨hequal, haddr⟩

theorem numbers_congr {entries : List Entry}
    (h : ∀ e ∈ entries, s'.timers e.second = s.timers e.second) :
    s'.numbers entries = s.numbers entries := by
  apply List.map_congr_left
  intro e he
  rw [h e he]

theorem WellFormed.held_of_uncalled (h : s.WellFormed) {entry : Entry}
    (hmem : entry ∈ s.phase.uncalled) : entry ∈ s.phase.held := by
  have hsplit := h.split
  cases hphase : s.phase with
  | expiring now todo expired =>
    rw [hphase] at hmem
    exact hmem
  | running now todo expired =>
    rw [hphase] at hmem hsplit
    exact hsplit.subset hmem
  | idle | resetting _ _ | restarting _ _ _ =>
    rw [hphase] at hmem
    cases hmem

/-- What a step does to the callbacks that are still to run. -/
inductive Fires (s : TimerSystem) : TimerAction → List TimerEvent → TimerSystem → Prop
  | read {now : Int} {s' : TimerSystem} (hphase : s'.phase.uncalled = s.due now)
      (hnow : s'.phase.now? = some now) (htimers : s'.timers = s.timers) :
      Fires s (.handleRead now) [.handleRead now] s'
  | called {now : Int} {entry : Entry} {todo expired : List Entry} {timer : Timer}
      (hphase : s.phase = .running now (entry :: todo) expired)
      (hlive : s.timers entry.second = some timer) :
      Fires s .run [.ran timer.sequence_] { s with phase := .running now todo expired }
  | quiet {a : TimerAction} {es : List TimerEvent} {s' : TimerSystem} (hran : ∀ k, .ran k ∉ es)
      (hread : ∀ now, a ≠ .handleRead now) (hphase : s'.phase.uncalled = s.phase.uncalled)
      (hnow : s'.phase.now? = s.phase.now? ∨ s'.phase = .idle)
      (hkept : ∀ e ∈ s.phase.uncalled, s'.timers e.second = s.timers e.second) : Fires s a es s'

theorem Added.not_ran {addr : Addr} {timer : Timer} (h : Added s₀ addr timer es s') (k : Nat) :
    .ran k ∉ es := by
  intro hmem
  obtain ⟨_, heq⟩ | ⟨_, _, heq⟩ := h.events_inserted _ hmem
  · cases heq
  · cases heq

theorem CancelInLoop.not_ran {timerId : TimerId} (h : CancelInLoop s₀ timerId es s') (k : Nat) :
    .ran k ∉ es := by
  obtain ⟨more, rfl, hmore⟩ := h.events
  intro hmem
  obtain heq | hmem := List.mem_cons.mp hmem
  · cases heq
  · obtain ⟨_, heq⟩ := hmore _ hmem
    cases heq

theorem CancelInLoop.phase_eq {timerId : TimerId} (h : CancelInLoop s₀ timerId es s') :
    s'.phase = s₀.phase := by
  cases h <;> rfl

/-- A cancellation deletes no timer that `handleRead` holds. -/
theorem CancelInLoop.keeps {timerId : TimerId} (hcancel : CancelInLoop s timerId es s')
    (h : s.WellFormed) {entry : Entry} (hmem : entry ∈ s.phase.held) :
    s'.timers entry.second = s.timers entry.second := by
  cases hcancel with
  | deleted hactive hlive hentry =>
    have hne : entry.second ≠ timerId.timer_ := by
      intro heq
      refine h.not_mem_of_held (mem_pointers hmem) ?_
      rw [heq]
      exact mem_pointers hentry
    rw [setTimer_timers, Function.update_of_ne hne]
  | remembered hactive hcalling => rfl
  | nothing hactive hcalling => rfl

theorem step_fires (h : s.WellFormed) (hstep : Step s a es s') : Fires s a es s' := by
  have hnone : s.phase.uncalled = [] → ∀ e ∈ s.phase.uncalled,
      s'.timers e.second = s.timers e.second := by
    intro hempty e he
    rw [hempty] at he
    cases he
  cases hstep with
  | @newTimer t addr when interval hcall hfree hmax =>
    refine .quiet (by simp) (by simp) rfl (.inl rfl) ?_
    intro e he
    have hne : e.second ≠ addr := by
      intro heq
      refine h.not_live_of_free hfree (heq ▸ mem_owned_of_held ?_)
      exact mem_pointers (h.held_of_uncalled he)
    exact Function.update_of_ne hne ..
  | newElsewhere | queueAdd hcall | returnId hcall | queueCancel hforeign =>
    exact .quiet (by simp) (by simp) rfl (.inl rfl) (fun _ _ => rfl)
  | addTimer hcall hadded =>
    have hphase := hadded.phase_eq
    refine .quiet hadded.not_ran (by simp) (congrArg Phase.uncalled hphase)
      (.inl (congrArg Phase.now? hphase)) ?_
    intro e _
    rw [hadded.timers_eq]
    rfl
  | cancel huser hcancel =>
    have hphase := hcancel.phase_eq
    refine .quiet hcancel.not_ran (by simp) (congrArg Phase.uncalled hphase)
      (.inl (congrArg Phase.now? hphase)) ?_
    exact fun e he => hcancel.keeps h (h.held_of_uncalled he)
  | callAdd hidle hfunctors hadded =>
    have hphase := hadded.phase_eq
    exact .quiet hadded.not_ran (by simp) (congrArg Phase.uncalled hphase)
      (.inl (congrArg Phase.now? hphase)) (hnone (by rw [hidle]; rfl))
  | callCancel hidle hfunctors hcancel =>
    have hphase := hcancel.phase_eq
    exact .quiet hcancel.not_ran (by simp) (congrArg Phase.uncalled hphase)
      (.inl (congrArg Phase.now? hphase)) (hnone (by rw [hidle]; rfl))
  | handleRead hidle => exact .read (h.below_sentry _) rfl rfl
  | eraseActive hphase hactive =>
    exact .quiet (by simp) (by simp) (by rw [hphase]; rfl) (.inl (by rw [hphase]; rfl))
      (fun _ _ => rfl)
  | beginCalling hphase =>
    exact .quiet (by simp) (by simp) (by rw [hphase]; rfl) (.inl (by rw [hphase]; rfl))
      (fun _ _ => rfl)
  | run hphase hlive => exact .called hphase hlive
  | endCalling hphase =>
    exact .quiet (by simp) (by simp) (by rw [hphase]; rfl) (.inl (by rw [hphase]; rfl))
      (fun _ _ => rfl)
  | again hphase hlive hrepeat hkeep =>
    exact .quiet (by simp) (by simp) (by rw [hphase]; rfl) (.inl (by rw [hphase]; rfl))
      (hnone (by rw [hphase]; rfl))
  | delete hphase hlive hend =>
    exact .quiet (by simp) (by simp) (by rw [hphase]; rfl) (.inl (by rw [hphase]; rfl))
      (hnone (by rw [hphase]; rfl))
  | restart hphase hadded =>
    refine .quiet hadded.not_ran (by simp) ?_ (.inl ?_) (hnone (by rw [hphase]; rfl))
    · rw [hadded.phase_eq, hphase]
      rfl
    · rw [hadded.phase_eq, hphase]
      rfl
  | finishReset hphase =>
    refine .quiet ?_ (by simp) (by rw [hphase]; rfl) (.inr rfl) (hnone (by rw [hphase]; rfl))
    intro k hmem
    obtain ⟨_, _, heq⟩ := isSettime_of_finishReset hmem
    cases heq

/-- The steps that belong to a `handleRead` that has begun, or to what goes on between two. -/
def betweenReads : StepCondition TimerSystem TimerAction TimerEvent :=
  fun _ _ a => ∀ now, a ≠ .handleRead now

/-- What has run and what is still to run of the callbacks stays the same in sum. -/
theorem Fires.callbacks_append (h : Fires s a es s') (hread : ∀ now, a ≠ .handleRead now) :
    (callbacks es).map some ++ s'.numbers s'.phase.uncalled = s.numbers s.phase.uncalled := by
  cases h with
  | read hphase hnow htimers => exact absurd rfl (hread _)
  | called hphase hlive =>
    rw [hphase]
    simp only [callbacks, numbers, Phase.uncalled, List.filterMap_cons, List.filterMap_nil,
      List.map_cons, hlive, Option.map_some]
    rfl
  | quiet hran hread hphase hnow hkept =>
    rw [callbacks_eq_nil hran, hphase]
    exact numbers_congr hkept

theorem Fires.now_eq (h : Fires s a es s') (hread : ∀ now, a ≠ .handleRead now) :
    s'.phase.now? = s.phase.now? ∨ s'.phase.now? = none := by
  cases h with
  | read hphase hnow htimers => exact absurd rfl (hread _)
  | called hphase hlive =>
    rw [hphase]
    exact .inl rfl
  | quiet hran hread hphase hnow hkept => exact hnow.imp_right (congrArg Phase.now?)

/-- Over a run up to the next `handleRead`. -/
theorem callbacks_run (h : machine.Reach anyStep tr s)
    (hafter : (machine.after s).Reach betweenReads es s') :
    (callbacks es).map some ++ s'.numbers s'.phase.uncalled = s.numbers s.phase.uncalled ∧
      (s'.phase.now? = s.phase.now? ∨ s'.phase.now? = none) := by
  induction hafter with
  | init hinit =>
    rw [show _ = s from hinit]
    exact ⟨rfl, .inl rfl⟩
  | @step es es' s₁ s₂ a hreach hcond hstep ih =>
    obtain ⟨hsum, hnow⟩ := ih
    have hfires := step_fires (reach_wellFormed (h.trans hreach)) (step_cases hstep)
    refine ⟨?_, ?_⟩
    · rw [TcpNet.callbacks_append, List.map_append, List.append_assoc,
        hfires.callbacks_append hcond]
      exact hsum
    · obtain hsame | hnone := hfires.now_eq hcond
      · rw [hsame]
        exact hnow
      · exact .inr hnone

/-- The callbacks that are still to run are those of timers that have expired. -/
def Expired (s : TimerSystem) : Prop :=
  ∀ e ∈ s.phase.uncalled, (∀ now ∈ s.phase.now?, e.first ≤ now) ∧
    ∀ timer, s.timers e.second = some timer → timer.expiration_ = e.first

theorem Expired.step (h : s.Expired) (hwf : s.WellFormed) (hfires : Fires s a es s') :
    s'.Expired := by
  cases hfires with
  | read hphase hnow htimers =>
    intro e he
    rw [hphase, due, List.mem_filter, decide_eq_true_iff] at he
    refine ⟨?_, ?_⟩
    · rw [hnow]
      rintro _ ⟨⟩
      exact he.2
    · rw [htimers]
      exact hwf.indexed.keyed e he.1
  | called hphase hlive =>
    rw [Expired, hphase] at h
    exact fun e he => h e (List.mem_cons_of_mem _ he)
  | quiet hran hread hphase hnow hkept =>
    intro e he
    rw [hphase] at he
    obtain ⟨hdue, hkey⟩ := h e he
    refine ⟨?_, by rw [hkept e he]; exact hkey⟩
    obtain hsame | hidle := hnow
    · rw [hsame]
      exact hdue
    · rw [hidle]
      nofun

theorem reach_expired (h : machine.Reach anyStep tr s) : s.Expired := by
  refine Machine.Reach.invariant (I := fun _ s => s.Expired) ?_ ?_ h
  · rintro _ rfl
    exact nofun
  · intro tr s a s' es hreach hexpired _ hstep
    have hwf := reach_wellFormed hreach
    exact hexpired.step hwf (step_fires hwf (step_cases hstep))

/-- Behind a call of its callback at `now`, a timer waits for `reset`, or has been set to
    run again no earlier than its interval later. -/
structure Served (timer₀ : Timer) (now : Int) (s : TimerSystem) : Prop where
  counted : timer₀.sequence_ < s.timerCreated_
  same : ∀ b timer, s.timers b = some timer → timer.sequence_ = timer₀.sequence_ →
    timer.interval_ = timer₀.interval_ ∧ timer.repeat_ = timer₀.repeat_
  waits : ∀ b timer, s.timers b = some timer → timer.sequence_ = timer₀.sequence_ →
    s.phase.AwaitsReset b → s.phase.now? = some now
  later : ∀ b timer, s.timers b = some timer → timer.sequence_ = timer₀.sequence_ →
    ¬ s.phase.AwaitsReset b →
      timer₀.repeat_ = true ∧ now + timer₀.interval_.micros ≤ timer.expiration_

variable {timer₀ : Timer} {now : Int}

/-- A step that leaves the timer and its place in `handleRead` as they are. -/
theorem Served.keep (h : s.Served timer₀ now) (hcount : s.timerCreated_ ≤ s'.timerCreated_)
    (hlive : ∀ b timer, s'.timers b = some timer → timer.sequence_ = timer₀.sequence_ →
      s.timers b = some timer ∧ (s'.phase.AwaitsReset b ↔ s.phase.AwaitsReset b))
    (hnow : s'.phase.now? = s.phase.now? ∨ ∀ b, ¬ s.phase.AwaitsReset b) :
    s'.Served timer₀ now where
  counted := Nat.lt_of_lt_of_le h.counted hcount
  same b timer hlive' hk := h.same b timer (hlive b timer hlive' hk).1 hk
  waits b timer hlive' hk hawaits := by
    obtain ⟨hold, hiff⟩ := hlive b timer hlive' hk
    have hbefore := hiff.mp hawaits
    rw [hnow.resolve_right fun hnone => hnone b hbefore]
    exact h.waits b timer hold hk hbefore
  later b timer hlive' hk hnot := by
    obtain ⟨hold, hiff⟩ := hlive b timer hlive' hk
    exact h.later b timer hold hk fun hbefore => hnot (hiff.mpr hbefore)

/-- The timers that `handleRead` holds are all different. -/
theorem WellFormed.nodup_held (h : s.WellFormed) : (pointers s.phase.held).Nodup :=
  (List.nodup_append.mp h.ownership.nodup).2.1

theorem WellFormed.notMem_of_running (h : s.WellFormed) {entry : Entry} {todo expired : List Entry}
    (hphase : s.phase = .running now (entry :: todo) expired) :
    entry.second ∈ pointers expired ∧ entry.second ∉ pointers todo := by
  have hsplit := h.split
  have hnodup := h.nodup_held
  rw [hphase] at hsplit hnodup
  have hsuffix : entry.second :: pointers todo <:+ pointers expired :=
    List.IsSuffix.map Entry.second hsplit
  exact ⟨hsuffix.subset List.mem_cons_self, (List.nodup_cons.mp (hnodup.sublist hsuffix.sublist)).1⟩

/-- `reset` sets a timer that repeats to run again. -/
theorem Served.again (h : s.Served timer₀ now) (hwf : s.WellFormed) {now' : Int} {entry : Entry}
    {todo : List Entry} {timer₁ : Timer} (hphase : s.phase = .resetting now' (entry :: todo))
    (hlive₁ : s.timers entry.second = some timer₁) (hrepeat : timer₁.repeat_ = true) :
    ({ s with
      timers := Function.update s.timers entry.second (some (timer₁.restart now'))
      phase := .restarting now' entry todo } : TimerSystem).Served timer₀ now := by
  have hnodup := hwf.nodup_held
  rw [hphase] at hnodup
  have hwaited : s.phase.AwaitsReset entry.second := by
    rw [hphase]
    exact ⟨List.mem_cons_self, List.not_mem_nil⟩
  have hcases : ∀ b timer, Function.update s.timers entry.second (some (timer₁.restart now')) b =
      some timer → b = entry.second ∧ timer = timer₁.restart now' ∨
        b ≠ entry.second ∧ s.timers b = some timer := by
    intro b timer hlive
    by_cases hb : b = entry.second
    · rw [hb, Function.update_self, Option.some.injEq] at hlive
      exact .inl ⟨hb, hlive.symm⟩
    · rw [Function.update_of_ne hb] at hlive
      exact .inr ⟨hb, hlive⟩
  refine ⟨h.counted, fun b timer hlive hk => ?_, fun b timer hlive hk hawaits => ?_,
    fun b timer hlive hk hnot => ?_⟩
  · obtain ⟨rfl, rfl⟩ | ⟨_, hkept⟩ := hcases b timer hlive
    · exact h.same entry.second timer₁ hlive₁ hk
    · exact h.same b timer hkept hk
  · obtain ⟨rfl, rfl⟩ | ⟨_, hkept⟩ := hcases b timer hlive
    · exact absurd hawaits.1 (List.nodup_cons.mp hnodup).1
    · have hnow : s.phase.now? = some now := by
        refine h.waits b timer hkept hk ?_
        rw [hphase]
        exact ⟨List.mem_cons_of_mem _ hawaits.1, List.not_mem_nil⟩
      rw [hphase] at hnow
      exact hnow
  · obtain ⟨rfl, rfl⟩ | ⟨hb, hkept⟩ := hcases b timer hlive
    · have hnow := h.waits entry.second timer₁ hlive₁ hk hwaited
      rw [hphase, Phase.now?, Option.some.injEq] at hnow
      obtain ⟨hinterval, hsameRepeat⟩ := h.same entry.second timer₁ hlive₁ hk
      refine ⟨hsameRepeat ▸ hrepeat, ?_⟩
      rw [Timer.restart, hrepeat, if_pos rfl, hinterval, hnow]
    · refine h.later b timer hkept hk fun hbefore => hnot ⟨?_, List.not_mem_nil⟩
      rw [hphase] at hbefore
      exact (List.mem_cons.mp hbefore.1).resolve_left hb

/-- Apart from `reset`, and from the callback of the timer, no step changes where the timer
    stands. -/
theorem Served.step (h : s.Served timer₀ now) (hwf : s.WellFormed) (hstep : Step s a es s')
    (hran : .ran timer₀.sequence_ ∉ es) : s'.Served timer₀ now := by
  have hcount := created_le hstep
  have hold : (∀ now' entry todo, s.phase = .resetting now' (entry :: todo) →
        s'.phase ≠ .restarting now' entry todo) →
      ∀ b timer, s'.timers b = some timer → timer.sequence_ = timer₀.sequence_ →
        s.timers b = some timer := by
    intro hnot b timer hlive hk
    cases timer_origin hstep hlive with
    | made hfree hnumber hcount =>
      have hcounted := h.counted
      omega
    | kept hlive => exact hlive
    | restarted hphase hphase' hb hlive hrepeat htimer => exact absurd hphase' (hnot _ _ _ hphase)
  have hsame : s'.phase = s.phase → s'.Served timer₀ now := by
    intro hphase
    refine h.keep hcount (fun b timer hlive hk => ⟨hold ?_ b timer hlive hk, ?_⟩) (.inl ?_)
    · intro now' entry todo hresetting hrestarting
      rw [hphase, hresetting] at hrestarting
      cases hrestarting
    · rw [hphase]
    · rw [hphase]
  have hnobody : (∀ b, ¬ s.phase.AwaitsReset b) → (∀ b, ¬ s'.phase.AwaitsReset b) →
      (∀ now' entry todo, s'.phase ≠ .restarting now' entry todo) → s'.Served timer₀ now := by
    intro hbefore hbehind hnot
    refine h.keep hcount (fun b timer hlive hk => ⟨hold ?_ b timer hlive hk, ?_⟩) (.inr hbefore)
    · exact fun now' entry todo _ => hnot now' entry todo
    · exact iff_of_false (hbehind b) (hbefore b)
  cases hstep with
  | newTimer hcall hfree hmax => exact hsame rfl
  | newElsewhere => exact hsame rfl
  | queueAdd hcall => exact hsame rfl
  | returnId hcall => exact hsame rfl
  | queueCancel hforeign => exact hsame rfl
  | addTimer hcall hadded => exact hsame hadded.phase_eq
  | callAdd hidle hfunctors hadded => exact hsame hadded.phase_eq
  | cancel huser hcancel => exact hsame hcancel.phase_eq
  | callCancel hidle hfunctors hcancel => exact hsame hcancel.phase_eq
  | handleRead hidle =>
    exact hnobody (Phase.not_awaitsReset (by rw [hidle]; rfl)) (Phase.not_awaitsReset rfl) (by simp)
  | eraseActive hphase hactive =>
    exact hnobody (Phase.not_awaitsReset (by rw [hphase]; rfl)) (Phase.not_awaitsReset rfl)
      (by simp)
  | beginCalling hphase =>
    exact hnobody (Phase.not_awaitsReset (by rw [hphase]; rfl))
      (fun _ hawaits => hawaits.2 hawaits.1) (by simp)
  | @run now' entry todo expired timer' hphase hlive' =>
    refine h.keep hcount (fun b timer hlive hk => ⟨hlive, ?_⟩) (.inl (by rw [hphase]; rfl))
    have hne : b ≠ entry.second := by
      rintro rfl
      rw [hlive'] at hlive
      obtain rfl := Option.some.inj hlive
      exact hran (hk ▸ List.mem_cons_self)
    rw [hphase]
    simp only [Phase.AwaitsReset, Phase.toReset, Phase.uncalled, pointers_cons, List.mem_cons, hne,
      false_or]
  | endCalling hphase =>
    refine h.keep hcount (fun b timer hlive hk => ⟨hold (by simp) b timer hlive hk, ?_⟩)
      (.inl (by rw [hphase]; rfl))
    rw [hphase]
    exact Iff.rfl
  | again hphase hlive hrepeat => exact h.again hwf hphase hlive hrepeat
  | @delete now' entry todo timer' hphase hlive' hend =>
    refine h.keep hcount (fun b timer hlive hk => ⟨live_of_update_none hlive, ?_⟩)
      (.inl (by rw [hphase]; rfl))
    have hb : b ≠ entry.second := by
      rintro rfl
      simp at hlive
    rw [hphase]
    simp only [Phase.AwaitsReset, Phase.toReset, Phase.uncalled, pointers_cons, setTimer_phase,
      List.mem_cons, hb, false_or]
  | restart hphase hadded =>
    have hphase' := hadded.phase_eq
    refine h.keep hcount (fun b timer hlive hk => ⟨hold ?_ b timer hlive hk, ?_⟩) (.inl ?_)
    · rw [hphase]
      simp
    · rw [hphase', hphase]
      exact Iff.rfl
    · rw [hphase', hphase]
      rfl
  | finishReset hphase =>
    exact hnobody (Phase.not_awaitsReset (by rw [hphase]; rfl)) (Phase.not_awaitsReset rfl)
      (by simp)

theorem Calls.eq {now : Int} {timer : Timer} (h : Calls s now timer s') :
    ∃ entry todo expired, s.phase = .running now (entry :: todo) expired ∧
      s.timers entry.second = some timer ∧ s' = { s with phase := .running now todo expired } := by
  obtain ⟨hstep, entry, todo, expired, hphase, hlive⟩ := h
  refine ⟨entry, todo, expired, hphase, hlive, ?_⟩
  have hcase := step_cases hstep
  generalize [TimerEvent.ran timer.sequence_] = es at hcase
  cases hcase with
  | @run now' entry' todo' expired' timer' hphase' hlive' =>
    rw [hphase, Phase.running.injEq] at hphase'
    obtain ⟨rfl, hcons, rfl⟩ := hphase'
    obtain ⟨rfl, rfl⟩ := List.cons.inj hcons
    rfl

theorem Calls.served {now : Int} {timer : Timer} (h : Calls s now timer s') (hwf : s.WellFormed) :
    s'.Served timer now := by
  obtain ⟨entry, todo, expired, hphase, hlive, rfl⟩ := h.eq
  have hplace : ∀ b timer', s.timers b = some timer' → timer'.sequence_ = timer.sequence_ →
      b = entry.second ∧ timer' = timer := by
    intro b timer' hlive' hk
    obtain rfl := hwf.objects.unique b entry.second timer' timer hlive' hlive hk
    exact ⟨rfl, Option.some.inj (hlive'.symm.trans hlive)⟩
  refine ⟨hwf.objects.counted _ timer hlive, fun b timer' hlive' hk => ?_, fun _ _ _ _ _ => rfl,
    fun b timer' hlive' hk hnot => ?_⟩
  · obtain ⟨_, rfl⟩ := hplace b timer' hlive' hk
    exact ⟨rfl, rfl⟩
  · obtain ⟨rfl, _⟩ := hplace b timer' hlive' hk
    exact absurd (hwf.notMem_of_running hphase) hnot

/-- The next call of a timer that has been served. -/
theorem Calls.later {now now' : Int} {timer timer' : Timer} (h : Calls s now' timer' s')
    (hexpired : s.Expired) (hserved : s.Served timer now)
    (hk : timer'.sequence_ = timer.sequence_) :
    timer.repeat_ = true ∧ now + timer.interval_.micros ≤ now' := by
  obtain ⟨entry, todo, expired, hphase, hlive, _⟩ := h.eq
  have hmem : entry ∈ s.phase.uncalled := by
    rw [hphase]
    exact List.mem_cons_self
  obtain ⟨hrepeat, hlater⟩ := hserved.later entry.second timer' hlive hk fun hawaits =>
    hawaits.2 (mem_pointers hmem)
  obtain ⟨hdue, hkey⟩ := hexpired entry hmem
  rw [hkey timer' hlive] at hlater
  exact ⟨hrepeat, le_trans hlater (hdue now' (by rw [hphase]; rfl))⟩

theorem calls_of_ran (hwf : s.WellFormed) {k : Nat} (hstep : s.step a = .ok (s', es))
    (hran : .ran k ∈ es) : ∃ now timer, Calls s now timer s' ∧ timer.sequence_ = k := by
  cases step_fires hwf (step_cases hstep) with
  | read hphase hnow htimers => cases List.mem_singleton.mp hran
  | @called now entry todo expired timer hphase hlive =>
    have hk : k = timer.sequence_ := TimerEvent.ran.inj (List.mem_singleton.mp hran)
    exact ⟨now, timer, ⟨hstep, entry, todo, expired, hphase, hlive⟩, hk.symm⟩
  | quiet hnone hread hphase hnow hkept => exact absurd hran (hnone k)

/-- As long as its callback does not run again. -/
theorem served_run {now : Int} {timer : Timer} (h : machine.Reach anyStep tr s)
    (hserved : s.Served timer now) (hafter : (machine.after s).Reach anyStep es s')
    (hran : .ran timer.sequence_ ∉ es) : s'.Served timer now := by
  induction hafter with
  | init hinit =>
    rw [show _ = s from hinit]
    exact hserved
  | @step es es' s₁ s₂ a hreach hcond hstep ih =>
    rw [List.mem_append, not_or] at hran
    exact (ih hran.1).step (reach_wellFormed (h.trans hreach)) (step_cases hstep) hran.2

/-- A timer that does not repeat is not served twice. -/
theorem not_ran_again {now : Int} {timer : Timer} (h : machine.Reach anyStep tr s)
    (hserved : s.Served timer now) (hrepeat : timer.repeat_ = false)
    (hafter : (machine.after s).Reach anyStep es s') : .ran timer.sequence_ ∉ es := by
  induction hafter with
  | init hinit => simp
  | @step es es' s₁ s₂ a hreach hcond hstep ih =>
    rw [List.mem_append, not_or]
    refine ⟨ih, fun hran => ?_⟩
    have hreach' := h.trans hreach
    have hwf := reach_wellFormed hreach'
    obtain ⟨now', timer', hcalls, hk⟩ := calls_of_ran hwf hstep hran
    obtain ⟨hagain, _⟩ := hcalls.later (reach_expired hreach') (served_run h hserved hreach ih) hk
    rw [hrepeat] at hagain
    cases hagain

theorem WellFormed.nodup_numbers (h : s.WellFormed) (now : Int) :
    (s.numbers (s.due now)).Nodup := by
  have hmem : ∀ {e}, e ∈ s.due now → e ∈ s.queue.timers_.elems := fun he =>
    (List.mem_filter.mp he).1
  refine List.Nodup.map_on ?_ ((s.queue.timers_.sorted.imp ne_of_lt).filter _)
  intro e he e' he' hsame
  obtain ⟨timer, hlive⟩ := h.ownership.live _ (mem_owned_of_timers (mem_pointers (hmem he)))
  obtain ⟨timer', hlive'⟩ := h.ownership.live _ (mem_owned_of_timers (mem_pointers (hmem he')))
  rw [hlive, hlive', Option.map_some, Option.map_some, Option.some.injEq] at hsame
  have hsecond := h.objects.unique _ _ timer timer' hlive hlive' hsame
  rw [hsecond, hlive'] at hlive
  obtain rfl := Option.some.inj hlive
  have hfirst := h.indexed.keyed e (hmem he) timer' (by rw [hsecond, hlive'])
  rw [h.indexed.keyed e' (hmem he') timer' hlive'] at hfirst
  exact Entry.ext hfirst.symm hsecond

/-- What runs in the `handleRead` that begins in `s`, reads `now` off the clock, and goes on
    from `s₁`. -/
structure FiresDue (s : TimerSystem) (now : Int) (s₁ : TimerSystem) : Prop where
  expired : ∀ e ∈ s.due now, ∃ timer, s.timers e.second = some timer ∧ timer.expiration_ = e.first
  ordered : (s.due now).Pairwise fun e e' => e.first ≤ e'.first
  once : (s.numbers (s.due now)).Nodup
  calls : ∀ es s₂, (machine.after s₁).Reach betweenReads es s₂ →
    (callbacks es).map some <+: s.numbers (s.due now) ∧
      (s₂.phase = .idle → (callbacks es).map some = s.numbers (s.due now)) ∧
      ∀ now' ∈ s₂.phase.now?, now' = now

/-- A callback does not run before its timer expires, and it runs again only if the timer
    repeats, and then an interval later. -/
structure FiresInTime (now : Int) (timer : Timer) (s₁ : TimerSystem) : Prop where
  expired : timer.expiration_ ≤ now
  oneShot : timer.repeat_ = false →
    ∀ es s₂, (machine.after s₁).Reach anyStep es s₂ → .ran timer.sequence_ ∉ es
  again : ∀ es s₂ now' timer' s₃, (machine.after s₁).Reach anyStep es s₂ →
    .ran timer.sequence_ ∉ es → Calls s₂ now' timer' s₃ → timer'.sequence_ = timer.sequence_ →
      now + timer.interval_.micros ≤ now'

theorem fires_due (h : machine.Reach anyStep tr s) {now : Int} {s₁ : TimerSystem}
    {es₁ : List TimerEvent} (hstep : s.step (.handleRead now) = .ok (s₁, es₁)) :
    FiresDue s now s₁ := by
  have hwf := reach_wellFormed h
  refine ⟨fun e he => ?_, ?_, hwf.nodup_numbers now, fun es s₂ hafter => ?_⟩
  · have hmem : e ∈ s.queue.timers_.elems := (List.mem_filter.mp he).1
    obtain ⟨timer, hlive⟩ := hwf.ownership.live _ (mem_owned_of_timers (mem_pointers hmem))
    exact ⟨timer, hlive, hwf.indexed.keyed e hmem timer hlive⟩
  · exact (s.queue.timers_.sorted.imp fun hlt => Entry.first_le_of_le (le_of_lt hlt)).filter _
  · cases step_fires hwf (step_cases hstep) with
    | quiet hran hread hphase hnow hkept => exact absurd rfl (hread now)
    | read hphase hnow htimers =>
      have hread : machine.step s (.handleRead now) = .ok (s₁, [.handleRead now]) := hstep
      obtain ⟨hsum, hclock⟩ := callbacks_run (h.step trivial hread) hafter
      have hdue : s₁.numbers s₁.phase.uncalled = s.numbers (s.due now) := by
        rw [hphase]
        exact numbers_congr fun e _ => congrFun htimers e.second
      rw [hdue] at hsum
      refine ⟨⟨_, hsum⟩, fun hidle => ?_, fun now' hnow' => ?_⟩
      · rw [hidle] at hsum
        simpa [Phase.uncalled, numbers] using hsum
      · rw [hnow] at hclock
        obtain hsame | hnone := hclock
        · rw [hsame] at hnow'
          exact (Option.some.inj hnow').symm
        · rw [hnone] at hnow'
          cases hnow'

theorem fires_in_time (h : machine.Reach anyStep tr s) {now : Int} {timer : Timer}
    {s₁ : TimerSystem} (hcalls : Calls s now timer s₁) : FiresInTime now timer s₁ := by
  have hwf := reach_wellFormed h
  have hserved := hcalls.served hwf
  have hrun : machine.step s .run = .ok (s₁, [.ran timer.sequence_]) := hcalls.step
  have hreach₁ := h.step trivial hrun
  refine ⟨?_, fun hrepeat es s₂ hafter => not_ran_again hreach₁ hserved hrepeat hafter, ?_⟩
  · obtain ⟨entry, todo, expired, hphase, hlive, _⟩ := hcalls.eq
    obtain ⟨hdue, hkey⟩ := reach_expired h entry (by rw [hphase]; exact List.mem_cons_self)
    rw [hkey timer hlive]
    exact hdue now (by rw [hphase]; rfl)
  · intro es s₂ now' timer' s₃ hafter hran hcalls' hk
    have hreach₂ := hreach₁.trans hafter
    exact (hcalls'.later (reach_expired hreach₂)
      (served_run hreach₁ hserved hafter hran) hk).2

/-- In every run, `handleRead` runs the callbacks of the timers that have expired when it
    begins, and no others, and every callback runs in time. -/
theorem fires_when_due (h : machine.Reach anyStep tr s) :
    (∀ now s₁ es, s.step (.handleRead now) = .ok (s₁, es) → FiresDue s now s₁) ∧
    (∀ a s₁ es k, s.step a = .ok (s₁, es) → .ran k ∈ es →
      ∃ now timer, Calls s now timer s₁ ∧ timer.sequence_ = k) ∧
    ∀ now timer s₁, Calls s now timer s₁ → FiresInTime now timer s₁ :=
  ⟨fun _ _ _ hstep => fires_due h hstep,
    fun _ _ _ _ hstep hran => calls_of_ran (reach_wellFormed h) hstep hran,
    fun _ _ _ hcalls => fires_in_time h hcalls⟩

/-- Two timers with one expiration run. The callback of the first one adds a timer of the
    past, which does not run before the next `handleRead`. -/
theorem fires_when_due_twice : ∃ tr s s₁, machine.Reach anyStep tr s ∧ callbacks tr = [0, 1] ∧
    s.due 2000000 = [⟨-5, 24⟩, ⟨1000150, 8⟩] ∧ FiresDue s 2000000 s₁ := by
  have hruns : machine.runs start
      [.newTimer 1 8 100 second, .newTimer 2 16 100 never, .runInLoop 1 0, .runInLoop 2 0,
        .callFunctor 0, .callFunctor 0, .handleRead 150, .eraseActive, .eraseActive, .beginCalling,
        .run, .newTimer loopThread 24 (-5) never, .runInLoop loopThread 0, .returnId loopThread,
        .run, .endCalling, .reset, .restart, .reset, .finishReset 160]
      (fun tr s => callbacks tr = [0, 1] ∧ s.due 2000000 = [⟨-5, 24⟩, ⟨1000150, 8⟩] ∧
        (s.step (.handleRead 2000000)).isOk = true) = true := by
    decide +kernel
  obtain ⟨tr, s, hreach, htest⟩ := Machine.exists_reach rfl hruns
  obtain ⟨hran, hdue, hok⟩ := of_decide_eq_true htest
  cases hstep : s.step (.handleRead 2000000) with
  | error stop =>
    rw [hstep] at hok
    cases hok
  | ok next => exact ⟨tr, s, next.1, hreach, hran, hdue, (fires_when_due hreach).1 _ _ _ hstep⟩

end TimerSystem

end TcpNet
