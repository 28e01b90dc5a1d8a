import TcpNet.Epoller.Dispatch
import TcpNet.Library.Lockstep
import TcpNet.Poller.Dispatch
import TcpNet.Poller.Watching

open Transition

namespace TcpNet

namespace Poller

/-- What `::poll` has to report of an entry. -/
def report (state : Readiness) (pfd : PollFd) : ShortEvents :=
  (state pfd.fd).setWidth 16 &&& (pfd.events ||| (POLLERR ||| POLLHUP ||| POLLNVAL).setWidth 16)

def ready (p : Poller) (state : Readiness) : List ShortEvents := p.pollfds_.map (report state)

def turn (s : Watched Poller) : Turn → Except Stop (Watched Poller × List Reports)
  | .call call => do
    let (s', _) ← multiplexer.ownerStep s call
    return (s', [])
  | .poll state _ => do
    let (poller, activeChannels) ← s.poller.poll (s.poller.ready state)
    return ({ s with poller := poller },
      [activeChannels.map fun c => (c, poller.revent_ c)])
  | .interrupted => return (s, [])

/-- The turns of a loop with a poller. -/
def machine : Machine (Watched Poller) Turn Reports where
  init := multiplexer.Initial
  step := turn

end Poller

namespace Multiplexer

/-- The same turns of a loop with a poller and of one with an epoller. -/
def both : Machine (Watched Poller × Epolled) Turn (List Reports × List Round) :=
  Poller.machine.lockstep Epolled.machine fun s s' => s'.watched.channel = s.channel

/-- The descriptors that are polled are open, and no channel that was disabled a second
    time, which brings it back into the set of the kernel, has yet to be removed. -/
def Pollable (s : Watched Poller × Epolled) (state : Readiness) : Prop :=
  (∀ pfd ∈ s.1.poller.pollfds_, 0 ≤ pfd.fd → state pfd.fd &&& POLLNVAL = 0) ∧
    ∀ entry ∈ s.2.watched.poller.kernel.toList, entry.2.events ≠ Channel.kNoneEvent

instance (s : Watched Poller × Epolled) (state : Readiness) : Decidable (Pollable s state) :=
  inferInstanceAs (Decidable (_ ∧ _))

/-- A channel enables something only before it is handed over or while it has events, and
    disables something only behind it. -/
def orderly : StepCondition (Watched Poller × Epolled) Turn (List Reports × List Round) :=
  fun _ s turn =>
    match turn with
    | .call call => Poller.keepsWatched [] s.1 call
    | .poll state _ => Pollable s state
    | .interrupted => True

instance (tr : List (List Reports × List Round)) (s : Watched Poller × Epolled) (turn : Turn) :
    Decidable (orderly tr s turn) :=
  match turn with
  | .call call => inferInstanceAs (Decidable (Poller.keepsWatched [] s.1 call))
  | .poll state _ => inferInstanceAs (Decidable (Pollable s state))
  | .interrupted => inferInstanceAs (Decidable True)

/-- The poller reports all there is to report. The epoller does as well, as far as its
    array goes. -/
structure Agree (reports : Reports) (round : Round) : Prop where
  ready : reports.Perm round.ready
  active : round.active.Subperm reports
  whole : ¬ round.Short → round.active.Perm reports

end Multiplexer

namespace Poller

variable {p : Poller} {c : ChannelId} {state : Readiness} {s : Watched Poller} {x a : Events}

theorem signExtend_setWidth (h : x.toNat < 2 ^ 15) : (x.setWidth 16).signExtend 32 = x := by
  have hmsb : (x.setWidth 16).msb = false := by
    rw [BitVec.msb_eq_decide, decide_eq_false_iff_not, BitVec.toNat_setWidth]
    omega
  rw [BitVec.signExtend_eq_setWidth_of_msb_false hmsb]
  apply BitVec.eq_of_toNat_eq
  rw [BitVec.toNat_setWidth, BitVec.toNat_setWidth]
  omega

theorem pos_setWidth_iff (h : x.toNat < 2 ^ 15) : 0 < (x.setWidth 16).toInt ↔ x ≠ 0 := by
  have hnat : (x.setWidth 16).toNat = x.toNat := by
    rw [BitVec.toNat_setWidth, Nat.mod_eq_of_lt (by omega)]
  have hzero : x = 0 ↔ x.toNat = 0 := by
    rw [← BitVec.toNat_inj]
    rfl
  rw [BitVec.toInt_eq_toNat_of_lt (by omega), hnat, ne_eq, hzero]
  omega

/-- What a channel is told fits into a `short`. -/
theorem told_toNat_lt (hsmall : (s.channel c).event_.toNat < 8) :
    (s.told state c).toNat < 2 ^ 15 := by
  have hor : ((s.channel c).event_ ||| EPOLLERR ||| EPOLLHUP).toNat < 2 ^ 5 := by
    rw [BitVec.toNat_or, BitVec.toNat_or]
    refine Nat.or_lt_two_pow (Nat.or_lt_two_pow (by omega) ?_) ?_ <;> decide
  rw [Watched.told, BitVec.toNat_and]
  exact Nat.and_le_right.trans_lt (by omega)

/-- `poll` and `epoll_wait` report the same of an open descriptor. -/
theorem setWidth_report (hopen : x &&& POLLNVAL = 0) :
    x.setWidth 16 &&& (a.setWidth 16 ||| (POLLERR ||| POLLHUP ||| POLLNVAL).setWidth 16) =
      (x &&& (a ||| EPOLLERR ||| EPOLLHUP)).setWidth 16 := by
  have hor : a ||| (POLLERR ||| POLLHUP ||| POLLNVAL) =
      a ||| EPOLLERR ||| EPOLLHUP ||| POLLNVAL := by
    simp only [BitVec.or_assoc]
    rfl
  rw [← BitVec.setWidth_or, ← BitVec.setWidth_and, hor,
    BitVec.and_or_distrib_left (x := x) (z := POLLNVAL), hopen]
  simp

/-- The entries keep what they ask for, and have the reports of it. -/
theorem entryOf_polled (p : Poller) (state : Readiness) (c : ChannelId) :
    (p.polled (p.ready state)).entryOf c = (p.entryOf c).map fun pfd =>
      { pfd with revents := if pfd.fd < 0 then 0 else report state pfd } := by
  have hentry : ∀ i : Nat, (p.polled (p.ready state)).pollfds_[i]? =
      p.pollfds_[i]?.map fun pfd =>
        { pfd with revents := if pfd.fd < 0 then 0 else report state pfd } := by
    intro i
    rw [polled, reported, List.getElem?_mapIdx]
    cases hpfd : p.pollfds_[i]? with
    | none => rfl
    | some pfd =>
      rw [Option.map_some, Option.map_some, ready, List.getD_eq_getElem?_getD,
        List.getElem?_map, hpfd]
      rfl
  have hindex : (p.polled (p.ready state)).index_ c = p.index_ c := rfl
  rw [entryOf, entryOf, hindex]
  split
  · exact hentry _
  · rfl

variable {ready : List ShortEvents} {revent : ChannelId → Events} {active : List ChannelId}

/-- Active are the channels handed over whose entries have events. -/
theorem Known.mem_active (h : Known s)
    (hentries : active.map (s.poller.polled ready).entryOf =
      ((s.poller.polled ready).pollfds_.filter (0 < ·.revents.toInt)).map some)
    (howners : ∀ c ∈ active, ∃ fd : Int, s.poller.channels_[fd]? = some c) :
    c ∈ active ↔ s.registration c = .registered ∧
      ∃ pfd, (s.poller.polled ready).entryOf c = some pfd ∧ 0 < pfd.revents.toInt := by
  constructor
  · intro hc
    refine ⟨h.registered_iff.mpr (howners c hc), ?_⟩
    have hmem := List.mem_map_of_mem (f := (s.poller.polled ready).entryOf) hc
    rw [hentries] at hmem
    obtain ⟨pfd, hin, hentry⟩ := List.mem_map.mp hmem
    exact ⟨pfd, hentry.symm, of_decide_eq_true (List.mem_filter.mp hin).2⟩
  · rintro ⟨hregistered, pfd, hentry, hpos⟩
    have hin : some pfd ∈ active.map (s.poller.polled ready).entryOf := by
      rw [hentries]
      exact List.mem_map_of_mem
        (List.mem_filter.mpr ⟨mem_of_entryOf hentry, decide_eq_true hpos⟩)
    obtain ⟨c', hc', hsome⟩ := List.mem_map.mp hin
    obtain ⟨fd, howner⟩ := h.registered_iff.mp hregistered
    obtain ⟨fd', howner'⟩ := howners c' hc'
    obtain rfl : c = c' :=
      (h.indexed.polled ready).entry_unique howner howner' hentry hsome
    exact hc'

/-- Behind a poll that has left `revent`. -/
def behind (s : Watched Poller) (ready : List ShortEvents) (revent : ChannelId → Events) :
    Watched Poller :=
  { s with poller := { s.poller.polled ready with revent_ := revent } }

theorem Known.behind (h : Known s) (ready : List ShortEvents) (revent : ChannelId → Events) :
    Known (behind s ready revent) where
  channels := ⟨h.channels.descriptor, h.channels.distinct, h.channels.fresh⟩
  indexed := (h.indexed.polled ready).of_requests rfl rfl fun _ => rfl
  size := h.size.trans List.length_mapIdx.symm
  owner := h.owner
  registered := h.registered
  fresh := h.fresh

theorem Known.watches_behind (h : Known s) (hwatches : Watches s) (ready : List ShortEvents)
    (revent : ChannelId → Events) : Watches (Poller.behind s ready revent) := by
  intro c hregistered
  have hkeeps : Keeps s.poller (Poller.behind s ready revent).poller c (s.channel c).fd_ := by
    refine keeps_of_requests rfl rfl (fun i => ?_) (h.owner c hregistered)
    rw [Poller.behind, Poller.polled, reported, List.getElem?_mapIdx, Option.map_map]
    rfl
  exact (hwatches c hregistered).of_keeps hkeeps rfl

/-- What a poll reports to a channel that is watched. -/
theorem entry_report (hsmall : (s.channel c).event_.toNat < 8) (hwatched : WatchedAs s c)
    (hopen : ∀ pfd ∈ s.poller.pollfds_, 0 ≤ pfd.fd → state pfd.fd &&& POLLNVAL = 0)
    (hnonneg : 0 ≤ (s.channel c).fd_) :
    ∃ pfd, (s.poller.polled (s.poller.ready state)).entryOf c = some pfd ∧
      pfd.revents = if (s.channel c).isNoneEvent then 0 else (s.told state c).setWidth 16 := by
  obtain ⟨pfd, hentry, hsome, hnone⟩ := hwatched
  refine ⟨_, by rw [entryOf_polled, hentry]; rfl, ?_⟩
  cases hasks : (s.channel c).isNoneEvent with
  | true =>
    rw [if_pos rfl]
    exact if_pos (hnone hasks)
  | false =>
    obtain ⟨hfd, hevents⟩ := hsome hasks
    have hsame : pfd.events = (s.channel c).event_.setWidth 16 := by
      apply BitVec.eq_of_toInt_eq
      rw [hevents, toInt_setWidth hsmall]
    have hquiet := hopen pfd (mem_of_entryOf hentry) (hfd ▸ hnonneg)
    rw [if_neg Bool.false_ne_true]
    refine (if_neg (by omega)).trans ?_
    rw [report, hsame, setWidth_report hquiet, hfd]
    rfl

/-- What a poll hands over where the poller watches what it is to watch. -/
theorem turn_poll (h : Known s) (hwatches : Watches s)
    (hsmall : ∀ c, (s.channel c).event_.toNat < 8)
    (hopen : ∀ pfd ∈ s.poller.pollfds_, 0 ≤ pfd.fd → state pfd.fd &&& POLLNVAL = 0)
    (events : List EpollEvent) :
    ∃ s' reports, machine.step s (.poll state events) = .ok (s', [reports]) ∧
      Known s' ∧ Watches s' ∧ s'.channel = s.channel ∧ s'.registration = s.registration ∧
      reports.Nodup ∧ ∀ c told, (c, told) ∈ reports ↔ s.registration c = .registered ∧
        (s.channel c).isNoneEvent = false ∧ told = s.told state c ∧ told ≠ 0 := by
  obtain ⟨revent, active, hgo, hentries, hnodup, howners, htold, _⟩ :=
    poll_spec h.indexed (s.poller.ready state)
  refine ⟨behind s (s.poller.ready state) revent, active.map fun c => (c, revent c), ?_,
    h.behind _ revent, h.watches_behind hwatches _ revent, rfl, rfl,
    hnodup.map fun c c' hsame => (Prod.mk.inj hsame).1, fun c told => ?_⟩
  · simp only [machine, turn, hgo, ok_bind]
    rfl
  · have hmem : (c, told) ∈ (active.map fun c => (c, revent c)) ↔ c ∈ active ∧ told = revent c := by
      rw [List.mem_map]
      constructor
      · rintro ⟨c', hc', hsame⟩
        obtain ⟨rfl, rfl⟩ := Prod.mk.inj hsame
        exact ⟨hc', rfl⟩
      · rintro ⟨hc, rfl⟩
        exact ⟨c, hc, rfl⟩
    rw [hmem]
    by_cases hregistered : s.registration c = .registered
    · obtain ⟨pfd, hentry, hrevents⟩ := entry_report (hsmall c) (hwatches c hregistered) hopen
        (h.channels.descriptor c)
      have hfits : (s.told state c).toNat < 2 ^ 15 := told_toNat_lt (hsmall c)
      have hactive : c ∈ active ↔ 0 < pfd.revents.toInt := by
        rw [h.mem_active hentries howners, hentry]
        simp [hregistered]
      rw [hactive, and_iff_right hregistered]
      cases hasks : (s.channel c).isNoneEvent with
      | true =>
        rw [hasks, if_pos rfl] at hrevents
        rw [hrevents]
        simp
      | false =>
        rw [hasks, if_neg Bool.false_ne_true] at hrevents
        rw [hrevents, pos_setWidth_iff hfits] at hactive ⊢
        have hrevent : s.told state c ≠ 0 → revent c = s.told state c := by
          intro hsome
          rw [htold c (hactive.mpr hsome) pfd hentry, hrevents, signExtend_setWidth hfits]
        constructor
        · rintro ⟨hsome, rfl⟩
          rw [hrevent hsome]
          exact ⟨rfl, rfl, hsome⟩
        · rintro ⟨_, rfl, hsome⟩
          exact ⟨hsome, (hrevent hsome).symm⟩
    · refine iff_of_false (fun hboth => hregistered ?_) (fun hboth => hregistered hboth.1)
      exact ((h.mem_active hentries howners).mp hboth.1).1

/-- An orderly call leaves the poller watching what it is to watch. -/
theorem turn_call (h : Known s) (hwatches : Watches s)
    (hsmall : ∀ c, (s.channel c).event_.toNat < 8) {s' : Watched Poller} {call : OwnerCall}
    {es : List Empty} (hgo : multiplexer.ownerStep s call = .ok (s', es))
    (hcond : keepsWatched [] s call) : Known s' ∧ Watches s' := by
  refine ⟨h.step (Multiplexer.step_of_ownerStep hgo), ?_⟩
  have howners : multiplexer.owners.step s call = .ok (s', [s']) := by
    simp only [Multiplexer.owners, hgo, ok_bind]
    rfl
  exact (watches_step_iff h hsmall hwatches howners).mpr hcond

end Poller

namespace Epoller

variable {s : Watched Epoller} {state : Readiness}

/-- The set holds what the channels ask for if it holds nothing without events. -/
theorem Known.registered_of_kernel (h : Known s)
    (hsome : ∀ entry ∈ s.poller.kernel.toList, entry.2.events ≠ Channel.kNoneEvent) :
    Registered s := by
  rw [h.registered_iff]
  intro c hadded
  exact decide_eq_false (hsome _ (h.mem_toList hadded))

/-- There is something to report of the channels that ask for something and get it. -/
theorem Known.mem_report (h : Known s) (hregistered : Registered s) (c : ChannelId)
    (told : Events) :
    (c, told) ∈ (s.poller.ready state).map EpollEvent.report ↔
      (s.channel c).isNoneEvent = false ∧ told = s.told state c ∧ told ≠ 0 := by
  rw [List.mem_map]
  constructor
  · rintro ⟨event, hmem, hsame⟩
    obtain ⟨rfl, rfl⟩ := Prod.mk.inj hsame
    obtain ⟨hadded, hsome, htold⟩ := h.mem_ready.mp hmem
    exact ⟨h.registered_iff.mp hregistered _ hadded, htold, htold ▸ hsome⟩
  · rintro ⟨hasks, rfl, hsome⟩
    exact ⟨⟨s.told state c, c⟩,
      h.mem_ready.mpr ⟨(h.registered_of_events hasks).2, hsome, rfl⟩, rfl⟩

end Epoller

namespace Multiplexer

/-- What orderly turns keep of the two loops. -/
structure Both (s : Watched Poller × Epolled) : Prop where
  polled : Poller.Known s.1
  watches : Poller.Watches s.1
  epolled : Epoller.Known s.2.watched
  small : ∀ c, (s.1.channel c).event_.toNat < 8
  channel : s.2.watched.channel = s.1.channel
  registration : s.2.watched.registration = s.1.registration

variable {s s' : Watched Poller × Epolled} {tr : List (List Reports × List Round)} {c : ChannelId}

theorem Both.call (h : Both s) {call : OwnerCall} {polled : Watched Poller}
    {epolled : Watched Epoller} {es : List Empty} {fs : List EpollCtl}
    (hgo : Poller.multiplexer.ownerStep s.1 call = .ok (polled, es))
    (hgo' : Epoller.multiplexer.ownerStep s.2.watched call = .ok (epolled, fs))
    (hcond : orderly tr s (.call call)) : Both (polled, { s.2 with watched := epolled }) := by
  obtain ⟨hpolled, hwatches⟩ := Poller.turn_call h.polled h.watches h.small hgo hcond
  obtain ⟨hchannel, hregistration⟩ := same_of_ownerStep h.channel h.registration hgo hgo'
  exact ⟨hpolled, hwatches, h.epolled.step (step_of_ownerStep hgo'),
    toNat_lt_of_ownerStep h.small hgo, hchannel, hregistration⟩

/-- Nobody is left out: then the array had room for all of them. -/
theorem perm_of_not_short {round : Round} (hsub : round.active.Subperm round.ready)
    (hnodup : round.ready.Nodup) (hshort : ¬ round.Short) :
    round.active.Perm round.ready := by
  refine hsub.perm_of_length_le (Nat.not_lt.mp fun hless => hshort ?_)
  obtain ⟨report, hmore⟩ := hsub.exists_of_length_lt hless
  have hnew := nodup_of_subperm hmore hnodup
  exact ⟨report, hmore.subset List.mem_cons_self, (List.nodup_cons.mp hnew).1⟩

theorem Both.poll (h : Both s) {state : Readiness} {events : List EpollEvent}
    (hpollable : Pollable s state)
    (hwaited : s.2.watched.poller.Waited state s.2.events_.length events) :
    ∃ polled epolled reports round,
      Poller.machine.step s.1 (.poll state events) = .ok (polled, [reports]) ∧
      Epolled.machine.step s.2 (.poll state events) = .ok (epolled, [round]) ∧
      Both (polled, epolled) ∧ Agree reports round := by
  obtain ⟨polled, reports, hpoll, hknown, hwatches, hchannel, hregistration, hnodup, hmem⟩ :=
    Poller.turn_poll h.polled h.watches h.small hpollable.1 events
  have hregistered := h.epolled.registered_of_kernel hpollable.2
  obtain ⟨epolled, hepoll, hleft⟩ := Epolled.turn_poll h.epolled hwaited
  set round : Round := ⟨events.map EpollEvent.report,
    (s.2.watched.poller.ready state).map EpollEvent.report⟩ with hround
  have hready : round.ready.Nodup := by
    refine List.Nodup.of_map Prod.fst ?_
    rw [hround, List.map_map]
    exact h.epolled.nodup_ready state
  have hperm : reports.Perm round.ready := by
    rw [List.perm_ext_iff_of_nodup hnodup hready]
    rintro ⟨c, told⟩
    rw [hmem, hround, h.epolled.mem_report hregistered, Watched.told, Watched.told, h.channel,
      ← h.registration]
    refine and_iff_right_of_imp fun hall => ?_
    exact (h.epolled.registered_of_events (by rw [h.channel]; exact hall.1)).1
  have hactive : round.active.Subperm round.ready := subperm_map EpollEvent.report hwaited.1
  refine ⟨polled, epolled, reports, round, hpoll, hepoll, ?_, hperm,
    hactive.trans hperm.symm.subperm, fun hshort => ?_⟩
  · refine ⟨hknown, hwatches, hleft.watched ▸ h.epolled, ?_, ?_, ?_⟩
    · rw [hchannel]
      exact h.small
    · rw [hleft.watched, hchannel]
      exact h.channel
    · rw [hleft.watched, hregistration]
      exact h.registration
  · exact (perm_of_not_short hactive hready hshort).trans hperm.symm

/-- What an orderly turn leads to on both sides. -/
theorem Both.turn (h : Both s) {turn : Turn} {reports : List Reports} {rounds : List Round}
    (hcond : orderly tr s turn) (hgo : Poller.machine.step s.1 turn = .ok (s'.1, reports))
    (hgo' : Epolled.machine.step s.2 turn = .ok (s'.2, rounds)) :
    Both s' ∧ List.Forall₂ Agree reports rounds := by
  cases turn with
  | call call =>
    simp only [Poller.machine, Poller.turn, bind_eq_ok_iff, pure_eq_ok_iff, Prod.mk.injEq] at hgo
    simp only [Epolled.machine, Epolled.turn, bind_eq_ok_iff, pure_eq_ok_iff,
      Prod.mk.injEq] at hgo'
    obtain ⟨⟨polled, es⟩, hcall, hleft, rfl⟩ := hgo
    obtain ⟨⟨epolled, fs⟩, hcall', hleft', rfl⟩ := hgo'
    have hsame : s' = (polled, { s.2 with watched := epolled }) := Prod.ext hleft.symm hleft'.symm
    exact ⟨hsame ▸ h.call hcall hcall' hcond, .nil⟩
  | poll state events =>
    have hwaited : s.2.watched.poller.Waited state s.2.events_.length events := by
      simp only [Epolled.machine, Epolled.turn, bind_eq_ok_iff, enabled_eq_ok_iff] at hgo'
      obtain ⟨_, hwaited, _⟩ := hgo'
      exact hwaited
    obtain ⟨polled, epolled, reports', round, hpoll, hepoll, hboth, hagree⟩ :=
      h.poll hcond hwaited
    rw [hgo, Except.ok.injEq, Prod.mk.injEq] at hpoll
    rw [hgo', Except.ok.injEq, Prod.mk.injEq] at hepoll
    obtain ⟨rfl, rfl⟩ := hpoll
    obtain ⟨rfl, rfl⟩ := hepoll
    exact ⟨hboth, .cons hagree .nil⟩
  | interrupted =>
    simp only [Poller.machine, Poller.turn, pure_eq_ok_iff, Prod.mk.injEq] at hgo
    simp only [Epolled.machine, Epolled.turn, pure_eq_ok_iff, Prod.mk.injEq] at hgo'
    obtain ⟨hleft, rfl⟩ := hgo
    obtain ⟨hleft', rfl⟩ := hgo'
    have hsame : s' = s := Prod.ext hleft.symm hleft'.symm
    exact ⟨hsame ▸ h, .nil⟩

/-- A call that the poller and the epoller both take. -/
theorem step_call {call : OwnerCall} {polled : Watched Poller} {epolled : Watched Epoller}
    {es : List Empty} {fs : List EpollCtl}
    (hgo : Poller.multiplexer.ownerStep s.1 call = .ok (polled, es))
    (hgo' : Epoller.multiplexer.ownerStep s.2.watched call = .ok (epolled, fs)) :
    ∃ s', both.step s (.call call) = .ok (s', [([], [])]) := by
  refine ⟨(polled, { s.2 with watched := epolled }), Machine.lockstep_step ?_ ?_⟩
  · simp only [Poller.machine, Poller.turn, hgo, ok_bind]
    rfl
  · simp only [Epolled.machine, Epolled.turn, hgo', ok_bind]
    rfl

theorem Both.remove_goes_through (h : Both s) (hremovable : s.1.Removable c) :
    ∃ s', both.step s (.call (.removeChannel c)) = .ok (s', [([], [])]) := by
  have hremovable' : s.2.watched.Removable c := by
    rw [Watched.Removable, h.channel, h.registration]
    exact hremovable
  obtain ⟨p, hpoller⟩ := Poller.removeChannel_goes_through h.polled.indexed
    (h.polled.owner c hremovable.1) hremovable.2
  obtain ⟨e, fs, hepoller, _⟩ := h.epolled.remove_goes_through hremovable'
  have hremove : Poller.multiplexer.removeChannel s.1.poller c (s.1.channel c) = .ok (p, []) := by
    simp only [Poller.multiplexer, hpoller, ok_bind]
    rfl
  have hgo : Poller.multiplexer.ownerStep s.1 (.removeChannel c) =
      .ok (s.1.removed p c, []) := by
    simp only [ownerStep, remove, enabled_of hremovable, hremove, ok_bind]
    rfl
  have hremove' : Epoller.multiplexer.removeChannel s.2.watched.poller c
      (s.2.watched.channel c) = .ok (e, fs) := hepoller
  have hgo' : Epoller.multiplexer.ownerStep s.2.watched (.removeChannel c) =
      .ok (s.2.watched.removed e c, fs) := by
    simp only [ownerStep, remove, enabled_of hremovable', hremove', ok_bind]
    rfl
  exact step_call hgo hgo'

end Multiplexer

end TcpNet
