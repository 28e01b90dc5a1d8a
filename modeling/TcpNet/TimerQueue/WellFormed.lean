import TcpNet.TimerQueue.Ownership

open Transition

namespace TcpNet

namespace TimerSystem

/-- The two indexes of a queue, with the expired entries that are still to be taken
    out of the second one. -/
structure Indexed (queue : TimerQueue) (timers : Addr → Option Timer) (unerased : List Entry) :
    Prop where
  keyed : ∀ e ∈ queue.timers_.elems, ∀ timer, timers e.second = some timer →
    timer.expiration_ = e.first
  active : ∀ a, (∃ n, (a, n) ∈ queue.activeTiemrs_) ↔
    a ∈ pointers queue.timers_.elems ∨ a ∈ pointers unerased
  single : ∀ a n m, (a, n) ∈ queue.activeTiemrs_ → (a, m) ∈ queue.activeTiemrs_ → n = m

/-- Part of the expired entries is done. -/
def Phase.Split : Phase → Prop
  | .expiring _ todo expired => todo <:+ expired
  | .running _ todo expired => todo <:+ expired
  | _ => True

/-- `handleRead` is in its loop over the callbacks. -/
def Phase.isRunning : Phase → Bool
  | .running _ _ _ => true
  | _ => false

structure WellFormed (s : TimerSystem) : Prop where
  ownership : Ownership s.owned s.calls s.timers
  objects : Objects s.timers s.timerCreated_
  indexed : Indexed s.queue s.timers s.phase.unerased
  split : Phase.Split s.phase
  calling : s.queue.callingExpiredTimers_ = Phase.isRunning s.phase

namespace Indexed

variable {queue : TimerQueue} {timers : Addr → Option Timer} {unerased : List Entry} {a : Addr}
  {timer : Timer}

/-- A change of a timer that is not in `timers_`. -/
theorem update (h : Indexed queue timers unerased) (ha : a ∉ pointers queue.timers_.elems)
    (cell : Option Timer) : Indexed queue (Function.update timers a cell) unerased where
  keyed := by
    intro e he timer hlive
    have hother : e.second ≠ a := by
      rintro rfl
      exact ha (mem_pointers he)
    rw [Function.update_of_ne hother] at hlive
    exact h.keyed e he timer hlive
  active := h.active
  single := h.single

/-- Both inserts of a timer. -/
theorem insert (h : Indexed queue timers unerased) (created : Nat) (hlive : timers a = some timer)
    (hnew : a ∉ pointers queue.timers_.elems) (hunerased : a ∉ pointers unerased)
    (hentry : ⟨timer.expiration_, a⟩ ∉ queue.timers_.elems) :
    Indexed { queue with
      timers_ := queue.timers_.insert ⟨timer.expiration_, a⟩
      activeTiemrs_ := Insert.insert (a, created) queue.activeTiemrs_ } timers unerased := by
  have hperm := OrderedSet.perm_insert hentry
  have hmem : ∀ e, e ∈ (queue.timers_.insert ⟨timer.expiration_, a⟩).elems ↔
      e = ⟨timer.expiration_, a⟩ ∨ e ∈ queue.timers_.elems := by
    intro e
    rw [hperm.mem_iff, List.mem_cons]
  have hpointers : ∀ b, b ∈ pointers (queue.timers_.insert ⟨timer.expiration_, a⟩).elems ↔
      b = a ∨ b ∈ pointers queue.timers_.elems := by
    intro b
    rw [pointers, (hperm.map _).mem_iff]
    exact List.mem_cons
  have hnone : ∀ n, (a, n) ∉ queue.activeTiemrs_ := by
    intro n hn
    rcases (h.active a).mp ⟨n, hn⟩ with hold | hold
    · exact hnew hold
    · exact hunerased hold
  refine ⟨?_, ?_, ?_⟩
  · intro e he timer' hlive'
    rcases (hmem e).mp he with rfl | hold
    · rw [hlive, Option.some.injEq] at hlive'
      rw [hlive']
    · exact h.keyed e hold timer' hlive'
  · intro b
    rw [hpointers b]
    constructor
    · rintro ⟨n, hn⟩
      rcases Finset.mem_insert.mp hn with heq | hold
      · rw [Prod.mk.injEq] at heq
        exact .inl (.inl heq.1)
      · rcases (h.active b).mp ⟨n, hold⟩ with hold | hold
        · exact .inl (.inr hold)
        · exact .inr hold
    · rintro ((rfl | hold) | hold)
      · exact ⟨created, Finset.mem_insert_self _ _⟩
      · obtain ⟨n, hn⟩ := (h.active b).mpr (.inl hold)
        exact ⟨n, Finset.mem_insert_of_mem hn⟩
      · obtain ⟨n, hn⟩ := (h.active b).mpr (.inr hold)
        exact ⟨n, Finset.mem_insert_of_mem hn⟩
  · intro b n m hn hm
    rcases Finset.mem_insert.mp hn with heq | hold
    · rw [Prod.mk.injEq] at heq
      rcases Finset.mem_insert.mp hm with heq' | hold'
      · rw [Prod.mk.injEq] at heq'
        rw [heq.2, heq'.2]
      · rw [heq.1] at hold'
        exact absurd hold' (hnone m)
    · rcases Finset.mem_insert.mp hm with heq' | hold'
      · rw [Prod.mk.injEq] at heq'
        rw [heq'.1] at hold
        exact absurd hold (hnone n)
      · exact h.single b n m hold hold'

/-- An entry leaves `activeTiemrs_`, and with it a pointer the rest of the indexes. -/
theorem erase (h : Indexed queue timers unerased) {n : Nat} {queue' : TimerQueue}
    {unerased' : List Entry} (hn : (a, n) ∈ queue.activeTiemrs_)
    (hactive : queue'.activeTiemrs_ = queue.activeTiemrs_.erase (a, n))
    (hsub : ∀ e ∈ queue'.timers_.elems, e ∈ queue.timers_.elems)
    (hpointers : ∀ b, (b ∈ pointers queue'.timers_.elems ∨ b ∈ pointers unerased') ↔
      b ≠ a ∧ (b ∈ pointers queue.timers_.elems ∨ b ∈ pointers unerased)) :
    Indexed queue' timers unerased' where
  keyed := fun e he timer hlive => h.keyed e (hsub e he) timer hlive
  active := by
    intro b
    rw [hpointers b, ← h.active b, hactive]
    constructor
    · rintro ⟨m, hm⟩
      obtain ⟨hne, hold⟩ := Finset.mem_erase.mp hm
      refine ⟨?_, m, hold⟩
      rintro rfl
      rw [h.single b m n hold hn] at hne
      exact hne rfl
    · rintro ⟨hne, m, hm⟩
      refine ⟨m, Finset.mem_erase.mpr ⟨?_, hm⟩⟩
      intro heq
      rw [Prod.mk.injEq] at heq
      exact hne heq.1
  single := by
    intro b m m' hm hm'
    rw [hactive] at hm hm'
    exact h.single b m m' (Finset.mem_of_mem_erase hm) (Finset.mem_of_mem_erase hm')

/-- With no duplicates, `activeTiemrs_` is as large as the rest. -/
theorem card_active (h : Indexed queue timers []) (hnodup : (pointers queue.timers_.elems).Nodup) :
    queue.timers_.size = queue.activeTiemrs_.card := by
  have himage : queue.activeTiemrs_.image Prod.fst = (pointers queue.timers_.elems).toFinset := by
    ext a
    have hactive := h.active a
    simp only [pointers, List.map_nil, List.not_mem_nil, or_false] at hactive
    rw [List.mem_toFinset, pointers, ← hactive, Finset.mem_image]
    constructor
    · rintro ⟨⟨b, n⟩, hn, rfl⟩
      exact ⟨n, hn⟩
    · rintro ⟨n, hn⟩
      exact ⟨(a, n), hn, rfl⟩
  have hinj : Set.InjOn Prod.fst (queue.activeTiemrs_ : Set ActiveTimer) := by
    rintro ⟨a, n⟩ hn ⟨b, m⟩ hm hsame
    have hab : a = b := hsame
    subst hab
    rw [h.single a n m (Finset.mem_coe.mp hn) (Finset.mem_coe.mp hm)]
  rw [← Finset.card_image_of_injOn hinj, himage, List.toFinset_card_of_nodup hnodup]
  exact (List.length_map _).symm

end Indexed

section Owned

variable {s s' : TimerSystem} {a : Addr} {timer : Timer} {es : List TimerEvent}

theorem Added.perm_owned (h : Added s a timer es s') : List.Perm s'.owned (a :: s.owned) := by
  have hperm := (OrderedSet.perm_insert h.entry).map Entry.second
  rw [h.state]
  simp only [owned]
  refine ((hperm.append_left _).append_right _).trans ?_
  rw [List.map_cons, List.append_assoc, List.append_assoc, List.cons_append]
  exact List.perm_middle

theorem WellFormed.nodup_pointers (h : s.WellFormed) : (pointers s.queue.timers_.elems).Nodup :=
  (List.nodup_append.mp (List.nodup_append.mp h.ownership.nodup).1).2.1

theorem mem_owned_of_timers (h : a ∈ pointers s.queue.timers_.elems) : a ∈ s.owned :=
  List.mem_append_left _ (List.mem_append_right _ h)

theorem mem_owned_of_held (h : a ∈ pointers s.phase.held) : a ∈ s.owned :=
  List.mem_append_right _ h

/-- The entries still in `activeTiemrs_` are held as well. -/
theorem WellFormed.held_of_unerased (h : s.WellFormed) (ha : a ∈ pointers s.phase.unerased) :
    a ∈ pointers s.phase.held := by
  have hsplit := h.split
  cases hphase : s.phase with
  | expiring now todo expired =>
    rw [hphase] at hsplit ha
    exact (List.IsSuffix.subset (hsplit.map Entry.second)) ha
  | idle | running _ _ _ | resetting _ _ | restarting _ _ _ =>
    rw [hphase] at ha
    cases ha

/-- What `handleRead` holds is not in `timers_`. -/
theorem WellFormed.not_mem_of_held (h : s.WellFormed) (ha : a ∈ pointers s.phase.held) :
    a ∉ pointers s.queue.timers_.elems := by
  intro hmem
  exact (List.nodup_append.mp h.ownership.nodup).2.2 a (List.mem_append_right _ hmem) a ha rfl

theorem perm_erase {entries : List Entry} {entry : Entry} (h : entry ∈ entries) :
    List.Perm (pointers entries) (entry.second :: pointers (entries.erase entry)) :=
  (List.perm_cons_erase h).map Entry.second

end Owned

section Steps

variable {s s₀ s' : TimerSystem} {es : List TimerEvent}

theorem wellFormed_start : start.WellFormed where
  ownership := ⟨by simp [owned, start, adds, TimerQueue.new, OrderedSet.empty, pointers, Phase.held],
    by simp [owned, start, adds, TimerQueue.new, OrderedSet.empty, pointers, Phase.held],
    by simp [start], by simp [start], by simp [start]⟩
  objects := ⟨by simp [start], by simp [start], by simp [start]⟩
  indexed := ⟨by simp [start, TimerQueue.new, OrderedSet.empty],
    by simp [start, TimerQueue.new, OrderedSet.empty, pointers, Phase.unerased],
    by simp [start, TimerQueue.new]⟩
  split := trivial
  calling := rfl

/-- A timer that no index knows is inserted. -/
theorem Added.wellFormed {a : Addr} {timer : Timer} (h : Added s₀ a timer es s')
    (hownership : Ownership s'.owned s₀.calls s₀.timers)
    (hobjects : Objects s₀.timers s₀.timerCreated_)
    (hindexed : Indexed s₀.queue s₀.timers s₀.phase.unerased) (hnew : a ∉ s₀.owned)
    (hunerased : a ∉ pointers s₀.phase.unerased) (hsplit : Phase.Split s₀.phase)
    (hcalling : s₀.queue.callingExpiredTimers_ = Phase.isRunning s₀.phase) : s'.WellFormed := by
  have hinsert := hindexed.insert s₀.timerCreated_ h.live
    (fun hmem => hnew (mem_owned_of_timers hmem)) hunerased h.entry
  obtain ⟨_, _, _, rfl, _⟩ := h
  exact ⟨hownership, hobjects, hinsert, hsplit, hcalling⟩

theorem CancelInLoop.wellFormed {timerId : TimerId} (h : CancelInLoop s₀ timerId es s')
    (hwf : s₀.WellFormed) (hphase : s₀.phase.unerased = []) : s'.WellFormed := by
  cases h with
  | @deleted timer hactive hlive hentry =>
    have hpointers : List.Perm (pointers s₀.queue.timers_.elems) (timerId.timer_ ::
        pointers (s₀.queue.timers_.elems.erase ⟨timer.expiration_, timerId.timer_⟩)) :=
      perm_erase hentry
    have hnodup := hpointers.nodup_iff.mp hwf.nodup_pointers
    have howned : List.Perm s₀.owned (timerId.timer_ :: (({ s₀ with queue := { s₀.queue with
        timers_ := s₀.queue.timers_.erase ⟨timer.expiration_, timerId.timer_⟩
        activeTiemrs_ := s₀.queue.activeTiemrs_.erase (timerId.timer_, timerId.sequence_) } } :
        TimerSystem).setTimer timerId.timer_ none).owned) := by
      simp only [owned, setTimer, OrderedSet.elems_erase]
      refine ((hpointers.append_left _).append_right _).trans ?_
      rw [List.append_assoc, List.append_assoc, List.cons_append]
      exact List.perm_middle
    refine ⟨hwf.ownership.delete howned, hwf.objects.delete, ?_, hwf.split, hwf.calling⟩
    refine Indexed.update (a := timerId.timer_) (hwf.indexed.erase hactive rfl ?_ ?_)
      (List.nodup_cons.mp hnodup).1 none
    · exact fun e he => List.mem_of_mem_erase he
    · intro b
      simp only [setTimer, hphase, pointers, List.map_nil, List.not_mem_nil, or_false]
      have hmem := hpointers.mem_iff (a := b)
      rw [List.mem_cons] at hmem
      constructor
      · intro hb
        refine ⟨?_, hmem.mpr (.inr hb)⟩
        rintro rfl
        exact (List.nodup_cons.mp hnodup).1 hb
      · rintro ⟨hne, hb⟩
        exact (hmem.mp hb).resolve_left hne
  | remembered _ _ =>
    exact ⟨hwf.ownership, hwf.objects, ⟨hwf.indexed.keyed, hwf.indexed.active, hwf.indexed.single⟩,
      hwf.split, hwf.calling⟩
  | nothing _ _ => exact hwf

/-- User code runs only where no expired entry is left in `activeTiemrs_`. -/
theorem unerased_of_runsUserCode (h : s.phase.RunsUserCode) : s.phase.unerased = [] := by
  cases hphase : s.phase with
  | expiring now todo expired =>
    rw [hphase] at h
    cases h
  | idle | running _ _ _ | resetting _ _ | restarting _ _ _ => rfl

theorem WellFormed.not_live_of_free {a : Addr} (h : s.WellFormed) (hfree : s.timers a = none) :
    a ∉ s.owned := by
  intro hmem
  obtain ⟨timer, hlive⟩ := h.ownership.live a hmem
  rw [hfree] at hlive
  cases hlive

theorem WellFormed.popCancel {timerId : TimerId} {rest : List TimerFunctor} (h : s.WellFormed)
    (hfunctors : s.functors = .cancelInLoop timerId :: rest) :
    ({ s with functors := rest } : TimerSystem).WellFormed := by
  refine ⟨h.ownership.perm ?_, h.objects, h.indexed, h.split, h.calling⟩
  simp only [owned, hfunctors, adds, List.filterMap_cons]
  exact .refl _

theorem wellFormed_step (h : s.WellFormed) {a : TimerAction} (hstep : Step s a es s') :
    s'.WellFormed := by
  cases hstep with
  | newTimer hcall hfree hmax =>
    have hnew := h.not_live_of_free hfree
    exact ⟨h.ownership.create hfree, h.objects.create hmax rfl,
      h.indexed.update (fun hmem => hnew (mem_owned_of_timers hmem)) _, h.split, h.calling⟩
  | newElsewhere => exact ⟨h.ownership, h.objects.count, h.indexed, h.split, h.calling⟩
  | addTimer hcall hadded =>
    have hnew := h.ownership.apart _ _ _ hcall
    refine hadded.wellFormed ?_ h.objects h.indexed hnew ?_ h.split h.calling
    · exact h.ownership.handOver hcall hadded.perm_owned
    · exact fun hmem => hnew (mem_owned_of_held (h.held_of_unerased hmem))
  | queueAdd hcall =>
    refine ⟨h.ownership.handOver hcall ?_, h.objects, h.indexed, h.split, h.calling⟩
    simp only [owned, queueInloop, adds, List.filterMap_append, List.append_assoc]
    exact List.perm_middle
  | returnId hcall => exact ⟨h.ownership.letGo _ _ (by simp), h.objects, h.indexed, h.split, h.calling⟩
  | cancel huser hcancel => exact hcancel.wellFormed h (unerased_of_runsUserCode huser)
  | queueCancel hforeign =>
    refine ⟨h.ownership.perm ?_, h.objects, h.indexed, h.split, h.calling⟩
    simp only [owned, queueInloop, adds, List.filterMap_append, List.filterMap_cons,
      List.filterMap_nil, List.append_nil]
    exact .refl _
  | @callAdd s' now addr timer rest es hidle hfunctors hadded =>
    have howned : s.owned = addr :: ({ s with functors := rest } : TimerSystem).owned := by
      simp [owned, hfunctors, adds]
    have hnodup := h.ownership.nodup
    rw [howned, List.nodup_cons] at hnodup
    refine hadded.wellFormed ?_ h.objects h.indexed hnodup.1 ?_ h.split h.calling
    · refine h.ownership.perm ?_
      rw [howned]
      exact hadded.perm_owned
    · simp [hidle, Phase.unerased, pointers]
  | callCancel hidle hfunctors hcancel =>
    refine hcancel.wellFormed (h.popCancel hfunctors) ?_
    rw [hidle]
    rfl
  | @handleRead now hidle =>
    have hparts := s.queue.timers_.below_append_above (TimerQueue.sentry now)
    have hpointers := congrArg pointers hparts
    rw [pointers_append] at hpointers
    refine ⟨h.ownership.perm ?_, h.objects, ⟨?_, ?_, h.indexed.single⟩, List.suffix_refl _, ?_⟩
    · simp only [owned, hidle, Phase.held, ← hpointers]
      simp only [pointers, List.map_nil, List.append_nil, List.append_assoc]
      exact List.Perm.append_left _ List.perm_append_comm
    · intro e he
      exact h.indexed.keyed e ((List.dropWhile_sublist _).subset he)
    · intro b
      rw [h.indexed.active b, ← hpointers, hidle]
      simp only [Phase.unerased, pointers, List.map_nil, List.not_mem_nil, or_false,
        List.mem_append]
      exact Or.comm
    · rw [h.calling, hidle]
      rfl
  | @eraseActive now entry todo expired hphase hactive =>
    have hsplit := h.split
    rw [hphase] at hsplit
    obtain ⟨done, hdone⟩ := hsplit
    have hindexed := h.indexed
    rw [hphase] at hindexed
    have hheld : List.Sublist (entry.second :: pointers todo) (pointers s.phase.held) := by
      rw [hphase, ← pointers_cons]
      exact (List.sublist_append_right done _).map Entry.second |>.trans (by rw [hdone]; rfl)
    have hfirst : entry.second ∉ pointers todo :=
      (List.nodup_cons.mp (hheld.nodup (List.nodup_append.mp h.ownership.nodup).2.1)).1
    have hother : entry.second ∉ pointers s.queue.timers_.elems :=
      h.not_mem_of_held (hheld.subset List.mem_cons_self)
    refine ⟨?_, h.objects, hindexed.erase hactive rfl (fun _ he => he) ?_, ?_, ?_⟩
    · have hownership := h.ownership
      simp only [owned, hphase] at hownership
      exact hownership
    · intro b
      simp only [Phase.unerased, pointers_cons, List.mem_cons]
      constructor
      · rintro (hb | hb)
        · exact ⟨fun heq => hother (heq ▸ hb), .inl hb⟩
        · exact ⟨fun heq => hfirst (heq ▸ hb), .inr (.inr hb)⟩
      · rintro ⟨hne, hb | hb | hb⟩
        · exact .inl hb
        · exact absurd hb hne
        · exact .inr hb
    · exact ⟨done ++ [entry], by rw [← hdone, List.append_assoc]; rfl⟩
    · rw [h.calling, hphase]
      rfl
  | beginCalling hphase =>
    have hownership := h.ownership
    have hindexed := h.indexed
    simp only [owned, hphase] at hownership hindexed
    exact ⟨hownership, h.objects, ⟨hindexed.keyed, hindexed.active, hindexed.single⟩,
      List.suffix_refl _, rfl⟩
  | run hphase hlive =>
    have hownership := h.ownership
    have hindexed := h.indexed
    have hsplit := h.split
    have hcalling := h.calling
    simp only [owned, hphase] at hownership hindexed hsplit hcalling
    exact ⟨hownership, h.objects, hindexed, (List.suffix_cons _ _).trans hsplit, hcalling⟩
  | endCalling hphase =>
    have hownership := h.ownership
    have hindexed := h.indexed
    simp only [owned, hphase] at hownership hindexed
    exact ⟨hownership, h.objects, ⟨hindexed.keyed, hindexed.active, hindexed.single⟩, trivial, rfl⟩
  | @again now entry todo timer hphase hlive hrepeat hkeep =>
    have hheld : entry.second ∈ pointers s.phase.held := by
      rw [hphase]
      exact List.mem_cons_self
    have hownership := h.ownership.set (timer.restart now) (mem_owned_of_held hheld)
    have hindexed := h.indexed.update (h.not_mem_of_held hheld) (some (timer.restart now))
    have hcalling := h.calling
    simp only [owned, hphase] at hownership hindexed hcalling
    exact ⟨hownership, h.objects.set hlive rfl, hindexed, trivial, hcalling⟩
  | @delete now entry todo timer hphase hlive hend =>
    have hheld : entry.second ∈ pointers s.phase.held := by
      rw [hphase]
      exact List.mem_cons_self
    have hindexed := h.indexed.update (h.not_mem_of_held hheld) none
    have hcalling := h.calling
    simp only [hphase] at hindexed hcalling
    refine ⟨h.ownership.delete ?_, h.objects.delete, hindexed, trivial, hcalling⟩
    simp only [owned, hphase]
    exact List.perm_middle
  | @restart s' now entry todo timer es hphase hadded =>
    have hperm : List.Perm s.owned
        (entry.second :: ({ s with phase := .resetting now todo } : TimerSystem).owned) := by
      simp only [owned, hphase]
      exact List.perm_middle
    have hnew := (List.nodup_cons.mp (hperm.nodup_iff.mp h.ownership.nodup)).1
    have hindexed := h.indexed
    have hcalling := h.calling
    simp only [hphase] at hindexed hcalling
    refine hadded.wellFormed (h.ownership.perm (hadded.perm_owned.trans hperm.symm)) h.objects
      hindexed hnew (by simp [Phase.unerased, pointers]) trivial hcalling
  | finishReset hphase =>
    have hownership := h.ownership
    have hindexed := h.indexed
    have hcalling := h.calling
    simp only [owned, hphase] at hownership hindexed hcalling
    exact ⟨hownership, h.objects, hindexed, trivial, hcalling⟩

theorem reach_wellFormed {C : StepCondition TimerSystem TimerAction TimerEvent}
    {tr : List TimerEvent} (h : machine.Reach C tr s) : s.WellFormed := by
  refine Machine.Reach.invariant (I := fun _ s => s.WellFormed) ?_ ?_ h
  · rintro _ rfl
    exact wellFormed_start
  · exact fun _ _ _ _ _ _ hwf _ hstep => wellFormed_step hwf (step_cases hstep)

end Steps

end TimerSystem

end TcpNet
