import TcpNet.Poller.Consistency
import Mathlib.Data.List.Nodup

open Transition

namespace TcpNet

namespace Poller

/-- The channel that an entry makes active. -/
def dispatched (channels : Std.ExtTreeMap Int ChannelId) (pfd : PollFd) : Option ChannelId :=
  if 0 < pfd.revents.toInt then channels[pfd.fd]? else none

variable {p : Poller} {c : ChannelId} {pfd : PollFd} {pollfds : List PollFd}
  {active : List ChannelId} {nums : Nat}

theorem dispatched_eq_some {channels : Std.ExtTreeMap Int ChannelId} :
    dispatched channels pfd = some c ↔ 0 < pfd.revents.toInt ∧ channels[pfd.fd]? = some c := by
  unfold dispatched
  split
  · rename_i hready
    exact (and_iff_right hready).symm
  · rename_i hready
    simp [hready]

theorem dispatched_eq_none {channels : Std.ExtTreeMap Int ChannelId}
    (h : ¬ 0 < pfd.revents.toInt) : dispatched channels pfd = none := if_neg h

theorem fillActiveChannels_zero : p.fillActiveChannels 0 pollfds active = .ok (p, active) := by
  cases pollfds with
  | nil => rfl
  | cons pfd rest => rfl

/-- As long as the countdown covers the entries with events, and their channels are
    found, the loop makes the channel of every one of them active. -/
theorem fillActiveChannels_spec (hnums : pollfds.countP (·.revents ≠ 0) ≤ nums)
    (hfound : ∀ pfd ∈ pollfds, 0 < pfd.revents.toInt → ∃ c, p.channels_[pfd.fd]? = some c)
    (hnodup : (pollfds.filterMap (dispatched p.channels_)).Nodup) :
    ∃ revent, p.fillActiveChannels nums pollfds active =
        .ok ({ p with revent_ := revent },
          active ++ pollfds.filterMap (dispatched p.channels_)) ∧
      (∀ pfd ∈ pollfds, ∀ c, dispatched p.channels_ pfd = some c →
        revent c = pfd.revents.signExtend 32) ∧
      ∀ c, c ∉ pollfds.filterMap (dispatched p.channels_) → revent c = p.revent_ c := by
  induction pollfds generalizing p nums active with
  | nil =>
    refine ⟨p.revent_, ?_, by simp, fun _ _ => rfl⟩
    rw [fillActiveChannels, List.filterMap_nil, List.append_nil]
    rfl
  | cons pfd rest ih =>
    have hfound' : ∀ pfd ∈ rest, 0 < pfd.revents.toInt → ∃ c, p.channels_[pfd.fd]? = some c :=
      fun pfd' hmem => hfound pfd' (List.mem_cons_of_mem pfd hmem)
    rw [List.countP_cons] at hnums
    by_cases hready : 0 < pfd.revents.toInt
    · obtain ⟨c, hc⟩ := hfound pfd List.mem_cons_self hready
      have hdispatched : dispatched p.channels_ pfd = some c := dispatched_eq_some.mpr ⟨hready, hc⟩
      have hevents : pfd.revents ≠ 0 := by
        intro hzero
        rw [hzero] at hready
        exact absurd hready (by decide)
      rw [if_pos (decide_eq_true hevents)] at hnums
      rw [List.filterMap_cons_some hdispatched, List.nodup_cons] at hnodup
      obtain ⟨hnew, hnodup'⟩ := hnodup
      set next : Poller :=
        { p with revent_ := Function.update p.revent_ c (pfd.revents.signExtend 32) } with hnext
      have hchannels : next.channels_ = p.channels_ := rfl
      obtain ⟨revent, hgo, hset, hkept⟩ :=
        @ih next (active ++ [c]) (nums - 1) (by omega) hfound' hnodup'
      rw [hchannels] at hgo hset hkept
      refine ⟨revent, ?_, ?_, ?_⟩
      · rw [fillActiveChannels, if_neg (by omega), if_pos hready, hc,
          List.filterMap_cons_some hdispatched, List.append_cons]
        exact hgo
      · intro pfd' hmem c' hc'
        obtain rfl | hmem := List.mem_cons.mp hmem
        · rw [hdispatched, Option.some.injEq] at hc'
          rw [← hc', hkept c hnew, hnext]
          exact Function.update_self ..
        · exact hset pfd' hmem c' hc'
      · intro c' hno
        rw [List.filterMap_cons_some hdispatched, List.mem_cons, not_or] at hno
        rw [hkept c' hno.2, hnext]
        exact Function.update_of_ne hno.1 ..
    · have hdispatched : dispatched p.channels_ pfd = none := dispatched_eq_none hready
      rw [List.filterMap_cons_none hdispatched] at hnodup ⊢
      have hrest : rest.countP (·.revents ≠ 0) ≤ nums := by omega
      obtain ⟨revent, hgo, hset, hkept⟩ := @ih p active nums hrest hfound' hnodup
      refine ⟨revent, ?_, ?_, hkept⟩
      · rw [fillActiveChannels, if_neg hready]
        by_cases hover : nums = 0
        · rw [hover, fillActiveChannels_zero] at hgo
          rw [if_pos hover]
          exact hgo
        · rw [if_neg hover]
          exact hgo
      · intro pfd' hmem c' hc'
        obtain rfl | hmem := List.mem_cons.mp hmem
        · rw [hdispatched] at hc'
          cases hc'
        · exact hset pfd' hmem c' hc'

/-- What `::poll` makes of the entries. -/
def reported (pollfds : List PollFd) (ready : List ShortEvents) : List PollFd :=
  pollfds.mapIdx fun i pfd => { pfd with revents := if pfd.fd < 0 then 0 else ready.getD i 0 }

/-- The entries have been reported on. -/
def polled (p : Poller) (ready : List ShortEvents) : Poller :=
  { p with pollfds_ := reported p.pollfds_ ready }

theorem poll_eq (p : Poller) (ready : List ShortEvents) :
    p.poll ready = (p.polled ready).fillActiveChannels
      ((p.polled ready).pollfds_.countP (·.revents ≠ 0)) (p.polled ready).pollfds_ [] := rfl

variable {ready : List ShortEvents}

theorem Indexed.polled (h : p.Indexed) (ready : List ShortEvents) : (p.polled ready).Indexed := by
  refine h.of_requests rfl rfl fun i => ?_
  rw [Poller.polled, reported, List.getElem?_mapIdx, Option.map_map]
  rfl

/-- An entry with events is not disabled. -/
theorem fd_of_ready (hmem : pfd ∈ (p.polled ready).pollfds_) (hready : pfd.revents ≠ 0) :
    0 ≤ pfd.fd := by
  obtain ⟨i, hi, rfl⟩ := List.mem_mapIdx.mp hmem
  by_contra hneg
  exact hready (if_pos (Int.not_le.mp hneg))

/-- The owner of an entry that is not disabled is found by its descriptor. -/
theorem Indexed.owner_of_nonneg (h : p.Indexed) (hmem : pfd ∈ p.pollfds_) (hfd : 0 ≤ pfd.fd) :
    ∃ c, p.channels_[pfd.fd]? = some c ∧ p.entryOf c = some pfd := by
  obtain ⟨i, hi⟩ := List.mem_iff_getElem?.mp hmem
  obtain ⟨c, howner, hindex⟩ := h.owners i pfd hi
  rw [channelFd_of_nonneg hfd] at howner
  exact ⟨c, howner, (entryOf_of_index hindex).trans hi⟩

theorem Indexed.nodup (h : p.Indexed) : p.pollfds_.Nodup := by
  rw [List.nodup_iff_injective_getElem]
  intro i j hsame
  obtain ⟨c, howner, hi⟩ := h.owners i _ (List.getElem?_eq_getElem i.isLt)
  obtain ⟨c', howner', hj⟩ := h.owners j _ (List.getElem?_eq_getElem j.isLt)
  have hentry : p.pollfds_[(i : Nat)] = p.pollfds_[(j : Nat)] := hsame
  rw [hentry, howner', Option.some.injEq] at howner
  rw [howner] at hj
  exact Fin.ext (Int.natCast_inj.mp (hi.symm.trans hj))

theorem ready_of_pos (h : 0 < pfd.revents.toInt) : pfd.revents ≠ 0 := by
  intro hzero
  rw [hzero] at h
  exact absurd h (by decide)

/-- The channels that become active stand in the order of their entries. -/
theorem entries_of_dispatched (h : p.Indexed)
    (hnonneg : ∀ pfd ∈ p.pollfds_, pfd.revents ≠ 0 → 0 ≤ pfd.fd)
    (hsub : ∀ pfd ∈ pollfds, pfd ∈ p.pollfds_) :
    (pollfds.filterMap (dispatched p.channels_)).map p.entryOf =
      (pollfds.filter (0 < ·.revents.toInt)).map some := by
  induction pollfds with
  | nil => rfl
  | cons pfd rest ih =>
    have hrest := ih fun pfd' hmem => hsub pfd' (List.mem_cons_of_mem pfd hmem)
    by_cases hready : 0 < pfd.revents.toInt
    · have hmem := hsub pfd List.mem_cons_self
      obtain ⟨c, howner, hentry⟩ :=
        h.owner_of_nonneg hmem (hnonneg pfd hmem (ready_of_pos hready))
      rw [List.filterMap_cons_some (dispatched_eq_some.mpr ⟨hready, howner⟩),
        List.filter_cons_of_pos (by simpa using hready), List.map_cons, List.map_cons, hentry, hrest]
    · rw [List.filterMap_cons_none (dispatched_eq_none hready),
        List.filter_cons_of_neg (by simpa using hready), hrest]

/-- What a poll does on a consistent index structure. -/
theorem poll_spec (h : p.Indexed) (ready : List ShortEvents) :
    ∃ revent active, p.poll ready = .ok ({ p.polled ready with revent_ := revent }, active) ∧
      active.map (p.polled ready).entryOf =
        ((p.polled ready).pollfds_.filter (0 < ·.revents.toInt)).map some ∧
      active.Nodup ∧
      (∀ c ∈ active, ∃ fd : Int, p.channels_[fd]? = some c) ∧
      (∀ c ∈ active, ∀ pfd, (p.polled ready).entryOf c = some pfd →
        revent c = pfd.revents.signExtend 32) ∧
      ∀ c, c ∉ active → revent c = p.revent_ c := by
  have hpolled := h.polled ready
  have hnonneg : ∀ pfd ∈ (p.polled ready).pollfds_, pfd.revents ≠ 0 → 0 ≤ pfd.fd :=
    fun pfd hmem => fd_of_ready hmem
  have hentries := entries_of_dispatched hpolled hnonneg fun pfd hmem => hmem
  have hnodup : ((p.polled ready).pollfds_.filterMap
      (dispatched (p.polled ready).channels_)).Nodup := by
    apply List.Nodup.of_map (p.polled ready).entryOf
    rw [hentries]
    exact (hpolled.nodup.filter _).map fun _ _ hsame => Option.some.inj hsame
  have hfound : ∀ pfd ∈ (p.polled ready).pollfds_, 0 < pfd.revents.toInt →
      ∃ c, (p.polled ready).channels_[pfd.fd]? = some c := by
    intro pfd hmem hready
    obtain ⟨c, howner, _⟩ :=
      hpolled.owner_of_nonneg hmem (hnonneg pfd hmem (ready_of_pos hready))
    exact ⟨c, howner⟩
  obtain ⟨revent, hgo, hset, hkept⟩ := @fillActiveChannels_spec (p.polled ready) _ [] _
    (Nat.le_refl _) hfound hnodup
  refine ⟨revent, _, (poll_eq p ready).trans hgo, hentries, hnodup, ?_, ?_, hkept⟩
  · intro c hc
    obtain ⟨pfd, _, hdispatched⟩ := List.mem_filterMap.mp hc
    exact ⟨pfd.fd, (dispatched_eq_some.mp hdispatched).2⟩
  · intro c hc pfd hentry
    obtain ⟨pfd', hmem, hdispatched⟩ := List.mem_filterMap.mp hc
    obtain ⟨hready, howner⟩ := dispatched_eq_some.mp hdispatched
    obtain ⟨c', howner', hentry'⟩ :=
      hpolled.owner_of_nonneg hmem (hnonneg pfd' hmem (ready_of_pos hready))
    rw [howner, Option.some.injEq] at howner'
    rw [← howner', hentry, Option.some.injEq] at hentry'
    rw [hentry']
    exact hset pfd' hmem c hdispatched

/-- Every registered channel whose entry has events becomes active, once, in the order
    of the entries, and finds its events in `revent_`. The other channels keep theirs. -/
def Dispatches (s : Watched Poller) (ready : List ShortEvents) : Prop :=
  ∃ p' active, s.poller.poll ready = .ok (p', active) ∧
    p'.pollfds_ = reported s.poller.pollfds_ ready ∧
    (∀ c, c ∈ active ↔ s.registration c = .registered ∧
      ∃ pfd, p'.entryOf c = some pfd ∧ pfd.revents ≠ 0) ∧
    active.Nodup ∧
    active.map p'.entryOf = (p'.pollfds_.filter (·.revents ≠ 0)).map some ∧
    (∀ c ∈ active, ∀ pfd, p'.entryOf c = some pfd → p'.revent_ c = pfd.revents.signExtend 32) ∧
    ∀ c, c ∉ active → p'.revent_ c = s.poller.revent_ c

variable {s : Watched Poller} {tr : List Empty}

theorem Known.registered_iff (h : Known s) :
    s.registration c = .registered ↔ ∃ fd : Int, s.poller.channels_[fd]? = some c :=
  ⟨fun hregistered => ⟨_, h.owner c hregistered⟩,
    fun ⟨fd, howner⟩ => (h.registered fd c howner).1⟩

/-- Two registered channels do not share an entry. -/
theorem Indexed.entry_unique (h : p.Indexed) {c' : ChannelId} {fd fd' : Int}
    (howner : p.channels_[fd]? = some c) (howner' : p.channels_[fd']? = some c')
    (hentry : p.entryOf c = some pfd) (hentry' : p.entryOf c' = some pfd) : c = c' := by
  obtain ⟨_, i, old, hi, hold, hfd⟩ := h.entries fd c howner
  obtain ⟨_, j, old', hj, hold', hfd'⟩ := h.entries fd' c' howner'
  rw [entryOf_of_index hi, hold, Option.some.injEq] at hentry
  rw [entryOf_of_index hj, hold', Option.some.injEq] at hentry'
  have hsame : fd = fd' := by rw [← hfd, ← hfd', hentry, hentry']
  rw [hsame, howner', Option.some.injEq] at howner
  exact howner.symm

theorem mem_of_entryOf (h : p.entryOf c = some pfd) : pfd ∈ p.pollfds_ := by
  rw [entryOf] at h
  split at h
  · exact List.mem_of_getElem? h
  · cases h

theorem pos_iff_of_nonneg {revents : ShortEvents} (h : 0 ≤ revents.toInt) :
    0 < revents.toInt ↔ revents ≠ 0 := by
  have hzero : revents.toInt = 0 ↔ revents = 0 := by
    rw [← BitVec.toInt_zero (w := 16), BitVec.toInt_inj]
    rfl
  rw [ne_eq, ← hzero]
  omega

/-- A poll hands every ready channel over exactly when no events that it reports are
    negative as a `short`. -/
theorem dispatches_iff (h : multiplexer.calls.Reach neverRemoved tr s)
    (ready : List ShortEvents) :
    Dispatches s ready ↔
      ∀ pfd ∈ reported s.poller.pollfds_ ready, 0 ≤ pfd.revents.toInt := by
  have hknown := reach_known h
  have hpolled := hknown.indexed.polled ready
  obtain ⟨revent, active, hgo, hentries, hnodup, howners, hset, hkept⟩ :=
    poll_spec hknown.indexed ready
  constructor
  · rintro ⟨p', active', hgo', _, _, _, horder, _⟩ pfd hmem
    rw [hgo, Except.ok.injEq, Prod.mk.injEq] at hgo'
    obtain ⟨rfl, rfl⟩ := hgo'
    have hsame : (reported s.poller.pollfds_ ready).filter (0 < ·.revents.toInt) =
        (reported s.poller.pollfds_ ready).filter (·.revents ≠ 0) :=
      List.map_injective_iff.mpr (fun _ _ => Option.some.inj) (hentries.symm.trans horder)
    by_contra hneg
    have hready : pfd.revents ≠ 0 := by
      intro hzero
      rw [hzero] at hneg
      exact hneg (by decide)
    have hin : pfd ∈ (reported s.poller.pollfds_ ready).filter (·.revents ≠ 0) :=
      List.mem_filter.mpr ⟨hmem, decide_eq_true hready⟩
    rw [← hsame, List.mem_filter, decide_eq_true_iff] at hin
    omega
  · intro hsigned
    have hsame : (reported s.poller.pollfds_ ready).filter (0 < ·.revents.toInt) =
        (reported s.poller.pollfds_ ready).filter (·.revents ≠ 0) := by
      refine List.filter_congr fun pfd hmem => ?_
      rw [decide_eq_decide]
      exact pos_iff_of_nonneg (hsigned pfd hmem)
    have hfiltered : (s.poller.polled ready).pollfds_.filter (0 < ·.revents.toInt) =
        (s.poller.polled ready).pollfds_.filter (·.revents ≠ 0) := hsame
    rw [hfiltered] at hentries
    refine ⟨_, active, hgo, rfl, fun c => ⟨fun hc => ?_, ?_⟩, hnodup, hentries, hset, hkept⟩
    · refine ⟨hknown.registered_iff.mpr (howners c hc), ?_⟩
      have hmem := List.mem_map_of_mem (f := (s.poller.polled ready).entryOf) hc
      rw [hentries] at hmem
      obtain ⟨pfd, hin, hentry⟩ := List.mem_map.mp hmem
      exact ⟨pfd, hentry.symm, of_decide_eq_true (List.mem_filter.mp hin).2⟩
    · rintro ⟨hregistered, pfd, hentry, hready⟩
      have hentry' : (s.poller.polled ready).entryOf c = some pfd := hentry
      have hin : some pfd ∈ active.map (s.poller.polled ready).entryOf := by
        rw [hentries]
        refine List.mem_map_of_mem (List.mem_filter.mpr ⟨mem_of_entryOf hentry', ?_⟩)
        exact decide_eq_true hready
      obtain ⟨c', hc', hsome⟩ := List.mem_map.mp hin
      obtain ⟨fd, howner⟩ := hknown.registered_iff.mp hregistered
      obtain ⟨fd', howner'⟩ := howners c' hc'
      have hcc : c = c' := hpolled.entry_unique howner howner' hentry' hsome
      exact hcc ▸ hc'

/-- The event bits of `poll`: those that may be asked for, and `POLLERR`, `POLLHUP` and
    `POLLNVAL`. All of them lie below the sign bit. -/
def pollEvents : ShortEvents := 0x27ff

/-- `poll` reports none but its own event bits. -/
def Documented (ready : List ShortEvents) : Prop :=
  ∀ revents ∈ ready, revents &&& pollEvents = revents

theorem toInt_nonneg_of_documented {revents : ShortEvents} (h : revents &&& pollEvents = revents) :
    0 ≤ revents.toInt := by
  have hsign : revents.msb = false := by
    rw [← h, BitVec.msb_and]
    exact Bool.and_false _
  rw [BitVec.toInt_eq_toNat_of_msb hsign]
  exact Int.natCast_nonneg _

theorem Documented.reported (h : Documented ready) (pollfds : List PollFd) :
    ∀ pfd ∈ reported pollfds ready, 0 ≤ pfd.revents.toInt := by
  intro pfd hmem
  obtain ⟨i, hi, rfl⟩ := List.mem_mapIdx.mp hmem
  by_cases hneg : pollfds[i].fd < 0
  · simp only [if_pos hneg]
    decide
  · simp only [if_neg hneg, List.getD_eq_getElem?_getD]
    cases hready : ready[i]? with
    | none => exact Int.le_refl 0
    | some revents => exact toInt_nonneg_of_documented (h revents (List.mem_of_getElem? hready))

/-- A poll hands every ready channel over, once and in the order of the entries, with its own
    events, whatever `poll` reports. -/
theorem dispatches_ready (h : multiplexer.calls.Reach neverRemoved tr s)
    (hready : Documented ready) : Dispatches s ready :=
  (dispatches_iff h ready).mpr (hready.reported s.poller.pollfds_)

/-- Two channels with an event each, of which the first one is disabled. -/
theorem dispatches_ready_second : ∃ tr s, multiplexer.calls.Reach neverRemoved tr s ∧
    (reported s.poller.pollfds_ [1, 4]).map PollFd.revents = [0, 4] ∧ Documented [1, 4] ∧
    Dispatches s [1, 4] := by
  have hruns : multiplexer.calls.runsIn neverRemoved multiplexer.numbered
      [.updateChannel 0 1, .updateChannel 1 4, .updateChannel 0 0]
      (fun _ s => (reported s.poller.pollfds_ [1, 4]).map PollFd.revents = [0, 4]) = true := by
    decide +kernel
  obtain ⟨tr, s, hreach, htest⟩ := Machine.exists_reachIn
    (Multiplexer.initial_numbered fun c => Int.natCast_nonneg c) hruns
  have hdocumented : Documented [1, 4] := by simp [Documented, pollEvents]
  exact ⟨tr, s, hreach, of_decide_eq_true htest, hdocumented,
    dispatches_ready hreach hdocumented⟩

end Poller

end TcpNet
