import TcpNet.Epoller.Registered
import Mathlib.Data.List.Nodup
import Mathlib.Data.List.Perm.Subperm
import Mathlib.Algebra.Group.Nat.Defs

open Transition

namespace TcpNet

def EPOLLERR : Events := 0x008#32
def EPOLLHUP : Events := 0x010#32

/-- The events that each descriptor has. -/
abbrev Readiness := Int → Events

/-- A call of an owner, or a `poll`. The kernel answers `poll` from `state`, and
    `epoll_wait` with `events`. -/
inductive Turn where
  | call (call : OwnerCall)
  | poll (state : Readiness) (events : List EpollEvent)
  | interrupted

/-- Channels with events. -/
abbrev Reports := List (ChannelId × Events)

/-- What `loop` is given to handle, out of what there was to report. -/
structure Round where
  active : Reports
  ready : Reports
  deriving DecidableEq, Repr

/-- A channel was left out. -/
def Round.Short (round : Round) : Prop := ∃ report ∈ round.ready, report ∉ round.active

instance (round : Round) : Decidable round.Short :=
  inferInstanceAs (Decidable (∃ report ∈ round.ready, report ∉ round.active))

/-- An epoller with its channels, the array that the kernel fills, and the events that
    the channels were told. -/
structure Epolled where
  watched : Watched Epoller
  events_ : List EpollEvent
  revent_ : ChannelId → Events

def EpollEvent.report (event : EpollEvent) : ChannelId × Events := (event.ptr, event.events)

namespace Epoller

/-- What an entry of the set has to report. Errors and hangups are not asked for. -/
def report (state : Readiness) (entry : Int × EpollEvent) : Option EpollEvent :=
  let events := state entry.1 &&& (entry.2.events ||| EPOLLERR ||| EPOLLHUP)
  if events = 0 then none else some ⟨events, entry.2.ptr⟩

def ready (p : Epoller) (state : Readiness) : List EpollEvent :=
  p.kernel.toList.filterMap (report state)

/-- `epoll_wait` puts as many of the events into an array of `size` as there is room
    for. Their order is its own. -/
def Waited (p : Epoller) (state : Readiness) (size : Nat) (events : List EpollEvent) : Prop :=
  events.Subperm (p.ready state) ∧ events.length = min (p.ready state).length size

instance (p : Epoller) (state : Readiness) (size : Nat) (events : List EpollEvent) :
    Decidable (p.Waited state size events) :=
  inferInstanceAs (Decidable (_ ∧ _))

end Epoller

namespace Epolled

def kInitEventListSize : Nat := 16

def fillActiveChannels (s : Epolled) :
    List EpollEvent → List ChannelId → Except Stop (Epolled × List ChannelId)
  | [], activeChannels => return (s, activeChannels)
  | event :: rest, activeChannels => do
    let channel := event.ptr
    let fd := (s.watched.channel channel).fd_
    require (s.watched.poller.channels_[fd]? = some channel)
    let s := { s with revent_ := Function.update s.revent_ channel event.events }
    s.fillActiveChannels rest (activeChannels ++ [channel])

/-- Behind an `epoll_wait` that has filled in `events`. -/
def poll (s : Epolled) (events : List EpollEvent) : Except Stop (Epolled × List ChannelId) := do
  let numEvent := events.length
  let s := { s with events_ := events ++ s.events_.drop numEvent }
  if numEvent > 0 then
    require (numEvent ≤ s.events_.length)
    let (s, activeChannels) ← s.fillActiveChannels (s.events_.take numEvent) []
    if numEvent = s.events_.length then
      let grown := s.events_ ++ List.replicate s.events_.length ⟨0, 0⟩
      return ({ s with events_ := grown }, activeChannels)
    else return (s, activeChannels)
  else return (s, [])

structure Initial (s : Epolled) : Prop where
  watched : Epoller.multiplexer.Initial s.watched
  events : s.events_ = List.replicate kInitEventListSize ⟨0, 0⟩
  revent : ∀ c, s.revent_ c = 0

def turn (s : Epolled) : Turn → Except Stop (Epolled × List Round)
  | .call call => do
    let (watched, _) ← Epoller.multiplexer.ownerStep s.watched call
    return ({ s with watched := watched }, [])
  | .poll state events => do
    enabled (s.watched.poller.Waited state s.events_.length events)
    let (s', activeChannels) ← s.poll events
    return (s', [⟨activeChannels.map fun c => (c, s'.revent_ c),
      (s.watched.poller.ready state).map EpollEvent.report⟩])
  | .interrupted => return (s, [])

/-- The turns of a loop with an epoller. The trace holds what the polls have reported. -/
def machine : Machine Epolled Turn Round where
  init := Initial
  step := turn

def new : Epolled :=
  ⟨Epoller.multiplexer.numbered, List.replicate kInitEventListSize ⟨0, 0⟩, fun _ => 0⟩

theorem initial_new : Initial new where
  watched := Multiplexer.initial_numbered fun _ => trivial
  events := rfl
  revent _ := rfl

end Epolled

section Subperm

variable {A B : Type} {as bs : List A}

theorem subperm_map (f : A → B) (h : as.Subperm bs) : (as.map f).Subperm (bs.map f) := by
  obtain ⟨cs, hperm, hsub⟩ := h
  exact ⟨cs.map f, hperm.map f, hsub.map f⟩

theorem nodup_of_subperm (h : as.Subperm bs) (hnodup : bs.Nodup) : as.Nodup := by
  obtain ⟨cs, hperm, hsub⟩ := h
  exact hperm.nodup_iff.mp (hsub.nodup hnodup)

end Subperm

/-- What a channel has to be told, given what it asks for. -/
def Watched.told {P : Type} (s : Watched P) (state : Readiness) (c : ChannelId) : Events :=
  state (s.channel c).fd_ &&& ((s.channel c).event_ ||| EPOLLERR ||| EPOLLHUP)

namespace Epoller

variable {s : Watched Epoller} {state : Readiness} {c : ChannelId}

theorem report_eq_some {entry : Int × EpollEvent} {event : EpollEvent} :
    report state entry = some event ↔
      state entry.1 &&& (entry.2.events ||| EPOLLERR ||| EPOLLHUP) ≠ 0 ∧
      event = ⟨state entry.1 &&& (entry.2.events ||| EPOLLERR ||| EPOLLHUP), entry.2.ptr⟩ := by
  simp only [report, Option.ite_none_left_eq_some, Option.some.injEq]
  exact and_congr Iff.rfl eq_comm

/-- An entry of the set is the one of the channel that it points to. -/
theorem Known.entry (h : Known s) {entry : Int × EpollEvent}
    (hmem : entry ∈ s.poller.kernel.toList) :
    entry = ((s.channel entry.2.ptr).fd_, ⟨(s.channel entry.2.ptr).event_, entry.2.ptr⟩) ∧
      s.poller.index_ entry.2.ptr = kAdded := by
  obtain ⟨fd, event⟩ := entry
  rw [Std.ExtTreeMap.mem_toList_iff_getElem?_eq_some] at hmem
  have howned : ∃ c, (s.channel c).fd_ = fd := by
    by_contra hforeign
    rw [(h.foreign fd (not_exists.mp hforeign)).2] at hmem
    cases hmem
  obtain ⟨c, rfl⟩ := howned
  rw [h.kernel c] at hmem
  split at hmem
  · rename_i hadded
    obtain rfl := Option.some.inj hmem
    exact ⟨rfl, hadded⟩
  · cases hmem

theorem Known.mem_toList (h : Known s) (hadded : s.poller.index_ c = kAdded) :
    ((s.channel c).fd_, (⟨(s.channel c).event_, c⟩ : EpollEvent)) ∈ s.poller.kernel.toList := by
  rw [Std.ExtTreeMap.mem_toList_iff_getElem?_eq_some, h.kernel c, if_pos hadded]

/-- There is something to report of the channels in the set that have to be told
    something. -/
theorem Known.mem_ready (h : Known s) {event : EpollEvent} :
    event ∈ s.poller.ready state ↔ s.poller.index_ event.ptr = kAdded ∧
      s.told state event.ptr ≠ 0 ∧ event.events = s.told state event.ptr := by
  rw [ready, List.mem_filterMap]
  constructor
  · rintro ⟨entry, hmem, hreport⟩
    obtain ⟨hentry, hadded⟩ := h.entry hmem
    obtain ⟨hsome, rfl⟩ := report_eq_some.mp hreport
    rw [hentry] at hsome ⊢
    exact ⟨hadded, hsome, rfl⟩
  · obtain ⟨events, c⟩ := event
    rintro ⟨hadded, hsome, hevents⟩
    refine ⟨_, h.mem_toList hadded, report_eq_some.mpr ⟨hsome, ?_⟩⟩
    exact congrArg (EpollEvent.mk · c) hevents

/-- A channel that asks for something is in the set. -/
theorem Known.registered_of_events (h : Known s) (hasks : (s.channel c).isNoneEvent = false) :
    s.registration c = .registered ∧ s.poller.index_ c = kAdded := by
  have hadded : s.poller.index_ c = kAdded := by
    by_contra hne
    have hnone := h.absent c hne
    rw [hasks] at hnone
    cases hnone
  refine ⟨(h.registered c).mpr ?_, hadded⟩
  rw [hadded]
  exact kNew_ne_kAdded.symm

/-- There is one report of a channel at most. -/
theorem Known.nodup_ready (h : Known s) (state : Readiness) :
    ((s.poller.ready state).map EpollEvent.ptr).Nodup := by
  rw [ready, List.map_filterMap]
  have hkeys := Std.ExtTreeMap.distinct_keys_toList (t := s.poller.kernel)
  refine List.Pairwise.filterMap _ ?_ (List.pairwise_iff_forall_sublist.mpr
    fun {a b} hsub => (?_ : a.2.ptr ≠ b.2.ptr))
  · intro a b hne c hc c' hc'
    obtain ⟨event, hreport, rfl⟩ := Option.map_eq_some_iff.mp hc
    obtain ⟨event', hreport', rfl⟩ := Option.map_eq_some_iff.mp hc'
    rw [(report_eq_some.mp hreport).2, (report_eq_some.mp hreport').2]
    exact hne
  · intro hsame
    have hfirst := (h.entry (hsub.subset List.mem_cons_self)).1
    have hsecond := (h.entry (hsub.subset (List.mem_cons_of_mem a List.mem_cons_self))).1
    have hdistinct := List.pairwise_iff_forall_sublist.mp hkeys hsub
    rw [hfirst, hsecond, hsame, Std.compare_eq_iff_eq] at hdistinct
    exact hdistinct rfl

end Epoller

namespace Epolled

variable {s s' : Epolled} {events : List EpollEvent} {state : Readiness} {tr : List Round}

/-- The loop goes through all the events if they are about channels that are found, each
    about another one. -/
theorem fillActiveChannels_spec {active : List ChannelId}
    (hfound : ∀ event ∈ events,
      s.watched.poller.channels_[(s.watched.channel event.ptr).fd_]? = some event.ptr)
    (hnodup : (events.map EpollEvent.ptr).Nodup) :
    ∃ revent, s.fillActiveChannels events active =
        .ok ({ s with revent_ := revent }, active ++ events.map EpollEvent.ptr) ∧
      (∀ event ∈ events, revent event.ptr = event.events) ∧
      ∀ c, c ∉ events.map EpollEvent.ptr → revent c = s.revent_ c := by
  induction events generalizing s active with
  | nil =>
    refine ⟨s.revent_, ?_, by simp, fun _ _ => rfl⟩
    rw [fillActiveChannels, List.map_nil, List.append_nil]
    rfl
  | cons event rest ih =>
    rw [List.map_cons, List.nodup_cons] at hnodup
    obtain ⟨hnew, hnodup⟩ := hnodup
    set next : Epolled :=
      { s with revent_ := Function.update s.revent_ event.ptr event.events } with hnext
    obtain ⟨revent, hgo, htold, hkept⟩ := @ih next (active ++ [event.ptr])
      (fun event' hmem => hfound event' (List.mem_cons_of_mem event hmem)) hnodup
    refine ⟨revent, ?_, ?_, ?_⟩
    · rw [fillActiveChannels, require_of (hfound event List.mem_cons_self), ok_bind, hgo,
        List.append_assoc]
      rfl
    · intro event' hmem
      obtain rfl | hmem := List.mem_cons.mp hmem
      · rw [hkept _ hnew, hnext]
        exact Function.update_self ..
      · exact htold event' hmem
    · intro c hc
      rw [List.map_cons, List.mem_cons, not_or] at hc
      rw [hkept c hc.2, hnext]
      exact Function.update_of_ne hc.1 ..

/-- What a `poll` leaves. -/
structure Polled (s : Epolled) (events : List EpollEvent) (s' : Epolled) : Prop where
  watched : s'.watched = s.watched
  size : s'.events_.length =
    if events.length = s.events_.length then 2 * s.events_.length else s.events_.length
  told : ∀ event ∈ events, s'.revent_ event.ptr = event.events
  kept : ∀ c, c ∉ events.map EpollEvent.ptr → s'.revent_ c = s.revent_ c

theorem poll_spec
    (hfound : ∀ event ∈ events,
      s.watched.poller.channels_[(s.watched.channel event.ptr).fd_]? = some event.ptr)
    (hnodup : (events.map EpollEvent.ptr).Nodup) (hroom : events.length ≤ s.events_.length) :
    ∃ s', s.poll events = .ok (s', events.map EpollEvent.ptr) ∧ Polled s events s' := by
  set filled : Epolled := { s with events_ := events ++ s.events_.drop events.length } with hfilled
  have hlength : filled.events_.length = s.events_.length := by
    simp only [hfilled, List.length_append, List.length_drop]
    omega
  by_cases hsome : 0 < events.length
  · have htake : filled.events_.take events.length = events := List.take_left' rfl
    obtain ⟨revent, hgo, htold, hkept⟩ :=
      @fillActiveChannels_spec filled events [] hfound hnodup
    have hgo' : s.poll events = if events.length = filled.events_.length then
        .ok ({ filled with
          events_ := filled.events_ ++ List.replicate filled.events_.length ⟨0, 0⟩
          revent_ := revent }, events.map EpollEvent.ptr)
        else .ok ({ filled with revent_ := revent }, events.map EpollEvent.ptr) := by
      simp only [poll, if_pos hsome]
      rw [require_of (hroom.trans_eq hlength.symm), ok_bind, htake, hgo, ok_bind]
      rfl
    rw [hgo', hlength]
    split
    · rename_i hfull
      refine ⟨_, rfl, rfl, ?_, htold, hkept⟩
      rw [if_pos hfull, List.length_append, List.length_replicate, hlength, Nat.two_mul]
    · rename_i hfull
      refine ⟨_, rfl, rfl, ?_, htold, hkept⟩
      rw [if_neg hfull, hlength]
  · obtain rfl : events = [] := List.length_eq_zero_iff.mp (by omega)
    refine ⟨s, rfl, rfl, ?_, by simp, fun _ _ => rfl⟩
    rw [List.length_nil]
    split <;> omega

/-- What `epoll_wait` reports is about channels in the set, each of them once. -/
theorem poll_goes_through (h : Epoller.Known s.watched)
    (hwaited : s.watched.poller.Waited state s.events_.length events) :
    ∃ s', s.poll events = .ok (s', events.map EpollEvent.ptr) ∧ Polled s events s' := by
  obtain ⟨hready, hlength⟩ := hwaited
  apply poll_spec
  · intro event hmem
    have hadded := (h.mem_ready.mp (hready.subset hmem)).1
    rw [h.owner, if_neg]
    rw [hadded]
    exact Epoller.kNew_ne_kAdded.symm
  · exact nodup_of_subperm (subperm_map EpollEvent.ptr hready) (h.nodup_ready state)
  · omega

/-- What a turn leads to. -/
inductive Turned (s : Epolled) : List Round → Epolled → Prop
  | called {call : OwnerCall} {watched : Watched Epoller} {es : List EpollCtl}
      (hcall : Epoller.multiplexer.ownerStep s.watched call = .ok (watched, es)) :
      Turned s [] { s with watched := watched }
  | polled {state : Readiness} {events : List EpollEvent} {s' : Epolled}
      (hwaited : s.watched.poller.Waited state s.events_.length events)
      (hpolled : Polled s events s') :
      Turned s [⟨events.map EpollEvent.report,
        (s.watched.poller.ready state).map EpollEvent.report⟩] s'
  | interrupted : Turned s [] s

/-- The channels are told what was reported of them. -/
theorem Polled.active (h : Polled s events s') :
    ((events.map EpollEvent.ptr).map fun c => (c, s'.revent_ c)) =
      events.map EpollEvent.report := by
  rw [List.map_map]
  refine List.map_congr_left fun event hmem => ?_
  exact congrArg (event.ptr, ·) (h.told event hmem)

theorem turn_poll (h : Epoller.Known s.watched)
    (hwaited : s.watched.poller.Waited state s.events_.length events) :
    ∃ s', machine.step s (.poll state events) = .ok (s', [⟨events.map EpollEvent.report,
      (s.watched.poller.ready state).map EpollEvent.report⟩]) ∧ Polled s events s' := by
  obtain ⟨s', hgo, hpolled⟩ := poll_goes_through h hwaited
  refine ⟨s', ?_, hpolled⟩
  simp only [machine, turn, enabled_of hwaited, hgo, ok_bind, hpolled.active]
  rfl

theorem turn_eq_ok (h : Epoller.Known s.watched) {l : Turn} {rounds : List Round}
    (hgo : machine.step s l = .ok (s', rounds)) : Turned s rounds s' := by
  cases l with
  | call call =>
    simp only [machine, turn, bind_eq_ok_iff, pure_eq_ok_iff, Prod.mk.injEq] at hgo
    obtain ⟨⟨watched, es⟩, hcall, rfl, rfl⟩ := hgo
    exact .called hcall
  | poll state events =>
    have hwaited : s.watched.poller.Waited state s.events_.length events := by
      simp only [machine, turn, bind_eq_ok_iff, enabled_eq_ok_iff] at hgo
      obtain ⟨_, hwaited, _⟩ := hgo
      exact hwaited
    obtain ⟨s'', hgo', hpolled⟩ := turn_poll h hwaited
    rw [hgo, Except.ok.injEq, Prod.mk.injEq] at hgo'
    obtain ⟨rfl, rfl⟩ := hgo'
    exact .polled hwaited hpolled
  | interrupted =>
    simp only [machine, turn, pure_eq_ok_iff, Prod.mk.injEq] at hgo
    obtain ⟨rfl, rfl⟩ := hgo
    exact .interrupted

theorem Turned.known (h : Epoller.Known s.watched) {rounds : List Round}
    (hturned : Turned s rounds s') : Epoller.Known s'.watched := by
  cases hturned with
  | called hcall => exact h.step (Multiplexer.step_of_ownerStep hcall)
  | polled _ hpolled =>
    rw [hpolled.watched]
    exact h
  | interrupted => exact h

/-- What the rounds tell of the array: it is full where someone is left out, and twice as
    long behind that. -/
structure Grown (tr : List Round) (s : Epolled) : Prop where
  known : Epoller.Known s.watched
  once : ∀ round ∈ tr, round.active.Subperm round.ready ∧ (round.active.map Prod.fst).Nodup
  size : 16 * 2 ^ tr.countP (decide ·.Short) ≤ s.events_.length
  short : tr.countP (decide ·.Short) = 0 ∨
    ∃ round ∈ tr, 8 * 2 ^ tr.countP (decide ·.Short) < round.ready.length
  bound : s.events_.length = 16 ∨ ∃ round ∈ tr, s.events_.length ≤ 2 * round.ready.length

theorem grown_initial (h : Initial s) : Grown [] s where
  known := Epoller.known_initial h.watched
  once := by simp
  size := by
    rw [h.events, List.length_replicate]
    exact Nat.le_refl 16
  short := .inl rfl
  bound := by
    rw [h.events]
    exact .inl List.length_replicate

theorem Grown.quiet (h : Grown tr s) (hknown : Epoller.Known s'.watched)
    (hsize : s'.events_.length = s.events_.length) : Grown tr s' where
  known := hknown
  once := h.once
  size := hsize ▸ h.size
  short := h.short
  bound := hsize ▸ h.bound

/-- Where nobody is left out, everyone is there. -/
theorem length_lt_of_short {round : Round} (hsub : round.active.Subperm round.ready)
    (hshort : round.Short) : round.active.length < round.ready.length := by
  obtain ⟨report, hmem, hno⟩ := hshort
  by_contra hall
  exact hno ((hsub.perm_of_length_le (Nat.not_lt.mp hall)).mem_iff.mpr hmem)

theorem Grown.polled (h : Grown tr s)
    (hwaited : s.watched.poller.Waited state s.events_.length events)
    (hpolled : Polled s events s') :
    Grown (tr ++ [⟨events.map EpollEvent.report,
      (s.watched.poller.ready state).map EpollEvent.report⟩]) s' := by
  obtain ⟨hready, hlength⟩ := hwaited
  set round : Round := ⟨events.map EpollEvent.report,
    (s.watched.poller.ready state).map EpollEvent.report⟩ with hround
  have hsub : round.active.Subperm round.ready := subperm_map EpollEvent.report hready
  have hactive : round.active.length = events.length := List.length_map ..
  have hall : round.ready.length = (s.watched.poller.ready state).length := List.length_map ..
  have hsize := hpolled.size
  have hbefore := h.size
  refine ⟨hpolled.watched ▸ h.known, ?_, ?_, ?_, ?_⟩
  · intro round' hmem
    obtain hmem | hmem := List.mem_append.mp hmem
    · exact h.once round' hmem
    · obtain rfl := List.mem_singleton.mp hmem
      refine ⟨hsub, ?_⟩
      rw [hround, List.map_map]
      exact nodup_of_subperm (subperm_map EpollEvent.ptr hready) (h.known.nodup_ready state)
  · by_cases hshort : round.Short
    · have hless := length_lt_of_short hsub hshort
      have hfull : events.length = s.events_.length := by omega
      rw [if_pos hfull] at hsize
      rw [List.countP_append, List.countP_singleton, if_pos (decide_eq_true hshort), pow_succ,
        hsize]
      omega
    · rw [List.countP_append, List.countP_singleton, if_neg (by simpa using hshort), hsize,
        Nat.add_zero]
      split <;> omega
  · by_cases hshort : round.Short
    · have hless := length_lt_of_short hsub hshort
      refine .inr ⟨round, List.mem_append_right _ List.mem_cons_self, ?_⟩
      rw [List.countP_append, List.countP_singleton, if_pos (decide_eq_true hshort), pow_succ]
      omega
    · rw [List.countP_append, List.countP_singleton, if_neg (by simpa using hshort)]
      refine h.short.imp_right fun ⟨round', hmem, hless⟩ => ?_
      exact ⟨round', List.mem_append_left _ hmem, hless⟩
  · by_cases hfull : events.length = s.events_.length
    · rw [if_pos hfull] at hsize
      refine .inr ⟨round, List.mem_append_right _ List.mem_cons_self, ?_⟩
      omega
    · rw [if_neg hfull] at hsize
      rw [hsize]
      refine h.bound.imp_right fun ⟨round', hmem, hle⟩ => ?_
      exact ⟨round', List.mem_append_left _ hmem, hle⟩

theorem reach_grown {C : StepCondition Epolled Turn Round} (h : machine.Reach C tr s) :
    Grown tr s := by
  refine h.invariant (I := Grown) (fun s => grown_initial) ?_
  intro tr s l s' rounds _ hgrown _ hgo
  have hturned := turn_eq_ok hgrown.known hgo
  have hknown := hturned.known hgrown.known
  cases hturned with
  | called hcall =>
    rw [List.append_nil]
    exact hgrown.quiet hknown rfl
  | polled hwaited hpolled => exact hgrown.polled hwaited hpolled
  | interrupted =>
    rw [List.append_nil]
    exact hgrown

/-- Whatever the owners call and however many channels are ready at a time, every poll goes
    through and hands over what the kernel has reported, each channel once. No more than `N`
    channels are ready: then someone is left out only a few times in the whole run, as the
    array grows, and it does not outgrow them. -/
theorem dispatches (h : machine.Reach anyStep tr s) :
    (∀ round ∈ tr, round.active.Subperm round.ready ∧ (round.active.map Prod.fst).Nodup) ∧
    (∀ N, (∀ round ∈ tr, round.ready.length ≤ N) →
      (tr.countP (decide ·.Short) = 0 ∨ 8 * 2 ^ tr.countP (decide ·.Short) < N) ∧
      s.events_.length ≤ max 16 (2 * N)) ∧
    ∀ state events, s.watched.poller.Waited state s.events_.length events →
      ∃ s' round, machine.step s (.poll state events) = .ok (s', [round]) ∧
        s'.watched = s.watched ∧
        (∀ c told, (c, told) ∈ round.active → s.watched.registration c = .registered ∧
          told = s.watched.told state c ∧ told ≠ 0 ∧ s'.revent_ c = told) ∧
        (∀ c, c ∉ round.active.map Prod.fst → s'.revent_ c = s.revent_ c) ∧
        (¬ round.Short → ∀ c, (s.watched.channel c).isNoneEvent = false →
          s.watched.told state c ≠ 0 → (c, s.watched.told state c) ∈ round.active) := by
  have hgrown := reach_grown h
  have hknown := hgrown.known
  refine ⟨hgrown.once, fun N hN => ⟨?_, ?_⟩, fun state events hwaited => ?_⟩
  · refine hgrown.short.imp_right fun ⟨round, hmem, hless⟩ => ?_
    exact hless.trans_le (hN round hmem)
  · obtain hsize | ⟨round, hmem, hle⟩ := hgrown.bound
    · omega
    · have hround := hN round hmem
      omega
  · obtain ⟨s', hgo, hpolled⟩ := turn_poll hknown hwaited
    refine ⟨s', _, hgo, hpolled.watched, ?_, ?_, ?_⟩
    · intro c told hmem
      obtain ⟨event, hevent, hreport⟩ := List.mem_map.mp hmem
      obtain ⟨rfl, rfl⟩ := Prod.mk.inj hreport
      obtain ⟨hadded, hsome, htold⟩ := hknown.mem_ready.mp (hwaited.1.subset hevent)
      refine ⟨(hknown.registered _).mpr ?_, htold, htold ▸ hsome, hpolled.told event hevent⟩
      rw [hadded]
      exact Epoller.kNew_ne_kAdded.symm
    · intro c hno
      rw [List.map_map] at hno
      exact hpolled.kept c hno
    · intro hshort c hasks hsome
      have hadded := (hknown.registered_of_events hasks).2
      have hmem : (⟨s.watched.told state c, c⟩ : EpollEvent) ∈ s.watched.poller.ready state :=
        hknown.mem_ready.mpr ⟨hadded, hsome, rfl⟩
      by_contra hno
      exact hshort ⟨_, List.mem_map_of_mem hmem, hno⟩

/-- Seventeen channels are ready, and the first array has room for sixteen. -/
theorem dispatches_seventeen : ∃ tr s, machine.Reach anyStep tr s ∧
    tr.map (·.active.length) = [16, 17] ∧ tr.countP (decide ·.Short) = 1 ∧
    s.events_.length ≤ 34 := by
  have hruns : machine.runs new
      ((List.range 17).map (fun c => .call (.operate c .enableReading)) ++
        [.poll (fun _ => 1) ((List.range 16).map fun c => ⟨1, c⟩), .interrupted,
          .poll (fun _ => 1) ((List.range 17).map fun c => ⟨1, c⟩)])
      (fun tr _ => tr.map (·.active.length) = [16, 17] ∧ tr.countP (decide ·.Short) = 1 ∧
        tr.map (·.ready.length) = [17, 17]) = true := by
    decide +kernel
  obtain ⟨tr, s, hreach, htest⟩ := Machine.exists_reach initial_new hruns
  obtain ⟨hactive, hshort, hready⟩ := of_decide_eq_true htest
  refine ⟨tr, s, hreach, hactive, hshort, ((dispatches hreach).2.1 17 ?_).2⟩
  intro round hmem
  have hlength := List.mem_map_of_mem (f := (·.ready.length)) hmem
  rw [hready] at hlength
  simp at hlength
  omega

end Epolled

end TcpNet
