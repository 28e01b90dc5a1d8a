import TcpNet.Poller

open Transition

namespace TcpNet

namespace Poller

variable {p p' : Poller} {c c' : ChannelId} {channel : Channel}

/-- The two ways of `updateChannel`: a new entry, or new events in the old one. -/
inductive UpdateChannel (p : Poller) (c : ChannelId) (channel : Channel) : Poller → Prop
  | added (hnew : p.index_ c < 0) (hfree : p.channels_[channel.fd_]? = none) :
      UpdateChannel p c channel { p with
        pollfds_ := p.pollfds_ ++ [⟨channel.fd_, channel.event_.setWidth 16, 0⟩]
        channels_ := p.channels_.insert channel.fd_ c
        index_ := Function.update p.index_ c p.pollfds_.length }
  | changed {i : Nat} {pfd : PollFd} (hindex : p.index_ c = i)
      (howner : p.channels_[channel.fd_]? = some c) (hentry : p.pollfds_[i]? = some pfd)
      (hfd : pfd.fd = channel.fd_ ∨ pfd.fd = -channel.fd_ - 1) :
      UpdateChannel p c channel { p with
        pollfds_ := p.pollfds_.set i
          ⟨if channel.isNoneEvent then -channel.fd_ - 1 else pfd.fd,
            channel.event_.setWidth 16, 0⟩ }

theorem updateChannel_eq_ok (h : p.updateChannel c channel = .ok p') :
    UpdateChannel p c channel p' := by
  simp only [updateChannel] at h
  split at h
  · rename_i hnew
    simp only [bind_eq_ok_iff, require_eq_ok_iff, pure_eq_ok_iff] at h
    obtain ⟨_, hfree, rfl⟩ := h
    exact .added hnew hfree
  · rename_i hold
    obtain ⟨i, hi⟩ := Int.eq_ofNat_of_zero_le (Int.not_lt.mp hold)
    simp only [bind_eq_ok_iff, require_eq_ok_iff, hi, Int.toNat_natCast] at h
    obtain ⟨_, howner, h⟩ := h
    split at h
    · cases h
    · rename_i pfd hentry
      simp only [bind_eq_ok_iff, require_eq_ok_iff, pure_eq_ok_iff] at h
      obtain ⟨_, hfd, rfl⟩ := h
      exact .changed hi howner hentry hfd

/-- The two ways of `removeChannel`: the last entry goes, or takes the place of another. -/
inductive RemoveChannel (p : Poller) (c : ChannelId) (channel : Channel) : Poller → Prop
  | last {i : Nat} (hindex : p.index_ c = i) (howner : p.channels_[channel.fd_]? = some c)
      (hlast : p.pollfds_.length = i + 1) :
      RemoveChannel p c channel { p with
        pollfds_ := p.pollfds_.dropLast
        channels_ := p.channels_.erase channel.fd_ }
  | swapped {i n : Nat} {last : PollFd} {channelAtEnd : ChannelId} (hindex : p.index_ c = i)
      (howner : p.channels_[channel.fd_]? = some c) (hlength : p.pollfds_.length = n + 1)
      (hi : i < n) (hlast : p.pollfds_[n]? = some last)
      (hatEnd : (p.channels_.erase channel.fd_)[last.channelFd]? = some channelAtEnd) :
      RemoveChannel p c channel { p with
        pollfds_ := (p.pollfds_.set i last).dropLast
        channels_ := p.channels_.erase channel.fd_
        index_ := Function.update p.index_ channelAtEnd i }

theorem removeChannel_eq_ok (h : p.removeChannel c channel = .ok p') :
    RemoveChannel p c channel p' := by
  simp only [removeChannel, bind_eq_ok_iff, require_eq_ok_iff] at h
  obtain ⟨_, howner, _, _, _, ⟨hnonneg, hbound⟩, h⟩ := h
  obtain ⟨i, hi⟩ := Int.eq_ofNat_of_zero_le hnonneg
  rw [hi, Int.toNat_natCast] at h
  rw [hi] at hbound
  split at h
  · rename_i hlast
    rw [pure_eq_ok_iff] at h
    subst h
    exact .last hi howner (by omega)
  · rename_i hmiddle
    obtain ⟨n, hn⟩ : ∃ n, p.pollfds_.length = n + 1 := ⟨p.pollfds_.length - 1, by omega⟩
    split at h
    · cases h
    · rename_i last hlast
      split at h
      · cases h
      · rename_i channelAtEnd hatEnd
        rw [pure_eq_ok_iff] at h
        subst h
        rw [List.getLast?_eq_getElem?, hn, Nat.add_sub_cancel] at hlast
        exact .swapped hi howner hn (by omega) hlast hatEnd

/-- The map and the array know the same channels, each by its own index. -/
structure Indexed (p : Poller) : Prop where
  entries : ∀ fd c, p.channels_[fd]? = some c →
    0 ≤ fd ∧ ∃ (i : Nat) (pfd : PollFd), p.index_ c = i ∧ p.pollfds_[i]? = some pfd ∧
      pfd.channelFd = fd
  owners : ∀ (i : Nat) pfd, p.pollfds_[i]? = some pfd →
    ∃ c, p.channels_[pfd.channelFd]? = some c ∧ p.index_ c = i

theorem channelFd_of_nonneg {pfd : PollFd} (h : 0 ≤ pfd.fd) : pfd.channelFd = pfd.fd :=
  if_neg (Int.not_lt.mpr h)

theorem channelFd_of_disabled {pfd : PollFd} {fd : Int} (hfd : 0 ≤ fd) (h : pfd.fd = -fd - 1) :
    pfd.channelFd = fd := by
  rw [PollFd.channelFd, h]
  split <;> omega

theorem indexed_new : new.Indexed := by
  refine ⟨fun fd c hmem => ?_, fun i pfd hmem => ?_⟩
  · rw [new, Std.ExtTreeMap.getElem?_empty] at hmem
    cases hmem
  · rw [new, List.getElem?_nil] at hmem
    cases hmem

/-- No two channels share an index. -/
theorem Indexed.index_unique (h : p.Indexed) {fd fd' : Int} {i : Nat}
    (hfd : p.channels_[fd]? = some c) (hfd' : p.channels_[fd']? = some c') (hi : p.index_ c = i)
    (hi' : p.index_ c' = i) : fd = fd' ∧ c = c' := by
  obtain ⟨_, j, pfd, hj, hentry, hpfd⟩ := h.entries fd c hfd
  obtain ⟨_, j', pfd', hj', hentry', hpfd'⟩ := h.entries fd' c' hfd'
  have hsame : j = j' := by omega
  subst hsame
  rw [hentry, Option.some.injEq] at hentry'
  have hfds : fd = fd' := by rw [← hpfd, ← hpfd', hentry']
  rw [hfds, hfd', Option.some.injEq] at hfd
  exact ⟨hfds, hfd.symm⟩

/-- The entry at the index of a channel. -/
def entryOf (p : Poller) (c : ChannelId) : Option PollFd :=
  if 0 ≤ p.index_ c then p.pollfds_[(p.index_ c).toNat]? else none

theorem entryOf_of_index {i : Nat} (h : p.index_ c = i) : p.entryOf c = p.pollfds_[i]? := by
  rw [entryOf, h, if_pos (Int.natCast_nonneg i), Int.toNat_natCast]

/-- A channel that gets its first entry. -/
theorem Indexed.added (h : p.Indexed) (hnonneg : 0 ≤ channel.fd_) (hnew : p.index_ c < 0)
    (hfree : p.channels_[channel.fd_]? = none) :
    ({ p with
      pollfds_ := p.pollfds_ ++ [⟨channel.fd_, channel.event_.setWidth 16, 0⟩]
      channels_ := p.channels_.insert channel.fd_ c
      index_ := Function.update p.index_ c p.pollfds_.length } : Poller).Indexed := by
  have hold : ∀ {fd c'}, p.channels_[fd]? = some c' → fd ≠ channel.fd_ ∧ c' ≠ c := by
    intro fd c' hmem
    obtain ⟨_, i, _, hi, _⟩ := h.entries fd c' hmem
    constructor
    · rintro rfl
      rw [hfree] at hmem
      cases hmem
    · rintro rfl
      omega
  constructor
  · intro fd c' hmem
    rw [getElem?_insert_fd] at hmem
    split at hmem
    · rename_i heq
      obtain rfl := heq
      cases hmem
      exact ⟨hnonneg, p.pollfds_.length, _, Function.update_self ..,
        List.getElem?_concat_length, channelFd_of_nonneg hnonneg⟩
    · obtain ⟨hfd, i, pfd, hi, hentry, hpfd⟩ := h.entries fd c' hmem
      refine ⟨hfd, i, pfd, (Function.update_of_ne (hold hmem).2 ..).trans hi, ?_, hpfd⟩
      · rw [List.getElem?_append_left (List.getElem?_eq_some_iff.mp hentry).1, hentry]
  · intro i pfd hentry
    rw [List.getElem?_append] at hentry
    split at hentry
    · obtain ⟨c', hmem, hi⟩ := h.owners i pfd hentry
      refine ⟨c', ?_, (Function.update_of_ne (hold hmem).2 ..).trans hi⟩
      rw [getElem?_insert_fd, if_neg (hold hmem).1.symm, hmem]
    · rename_i hlength
      have hlast : i = p.pollfds_.length := by
        have hbound := (List.getElem?_eq_some_iff.mp hentry).1
        simp only [List.length_singleton] at hbound
        omega
      subst hlast
      rw [Nat.sub_self, List.getElem?_cons_zero, Option.some.injEq] at hentry
      subst hentry
      refine ⟨c, ?_, Function.update_self ..⟩
      rw [channelFd_of_nonneg hnonneg, Std.ExtTreeMap.getElem?_insert_self]

/-- An entry that changes but goes on to stand for the same channel. -/
theorem Indexed.set (h : p.Indexed) {i : Nat} {pfd pfd' : PollFd}
    (hentry : p.pollfds_[i]? = some pfd) (hfd : pfd'.channelFd = pfd.channelFd) :
    ({ p with pollfds_ := p.pollfds_.set i pfd' } : Poller).Indexed := by
  have hbound := (List.getElem?_eq_some_iff.mp hentry).1
  constructor
  · intro fd c hmem
    obtain ⟨hnonneg, j, old, hj, hold, hpfd⟩ := h.entries fd c hmem
    by_cases hij : i = j
    · subst hij
      rw [hentry, Option.some.injEq] at hold
      subst hold
      exact ⟨hnonneg, i, pfd', hj, List.getElem?_set_self hbound, hfd.trans hpfd⟩
    · exact ⟨hnonneg, j, old, hj, by rw [List.getElem?_set_ne hij, hold], hpfd⟩
  · intro j new hnew
    by_cases hij : i = j
    · subst hij
      rw [List.getElem?_set_self hbound, Option.some.injEq] at hnew
      subst hnew
      rw [hfd]
      exact h.owners i pfd hentry
    · rw [List.getElem?_set_ne hij] at hnew
      exact h.owners j new hnew

theorem channelFd_update {pfd : PollFd} (hnonneg : 0 ≤ channel.fd_)
    (hfd : pfd.fd = channel.fd_ ∨ pfd.fd = -channel.fd_ - 1) (events revents : ShortEvents) :
    PollFd.channelFd ⟨if channel.isNoneEvent then -channel.fd_ - 1 else pfd.fd, events, revents⟩ =
      pfd.channelFd := by
  have hold : pfd.channelFd = channel.fd_ := by
    rcases hfd with hsame | hdisabled
    · rw [channelFd_of_nonneg (by omega), hsame]
    · exact channelFd_of_disabled hnonneg hdisabled
  split
  · rw [hold, channelFd_of_disabled hnonneg rfl]
  · rfl

theorem UpdateChannel.indexed (hupdate : UpdateChannel p c channel p') (h : p.Indexed)
    (hnonneg : 0 ≤ channel.fd_) : p'.Indexed := by
  cases hupdate with
  | added hnew hfree => exact h.added hnonneg hnew hfree
  | changed hindex howner hentry hfd => exact h.set hentry (channelFd_update hnonneg hfd _ _)

section Remove

variable {i : Nat}

/-- A channel that stays has an entry of its own. -/
theorem Indexed.survivor (h : p.Indexed) (hindex : p.index_ c = i)
    (howner : p.channels_[channel.fd_]? = some c) {fd : Int}
    (hmem : (p.channels_.erase channel.fd_)[fd]? = some c') :
    0 ≤ fd ∧ p.channels_[fd]? = some c' ∧ ∃ (j : Nat) (pfd : PollFd), p.index_ c' = j ∧ j ≠ i ∧
      p.pollfds_[j]? = some pfd ∧ pfd.channelFd = fd := by
  rw [getElem?_erase_fd] at hmem
  split at hmem
  · cases hmem
  · rename_i hne
    obtain ⟨hnonneg, j, pfd, hj, hentry, hpfd⟩ := h.entries fd c' hmem
    refine ⟨hnonneg, hmem, j, pfd, hj, ?_, hentry, hpfd⟩
    rintro rfl
    exact hne (h.index_unique howner hmem hindex hj).1

theorem Indexed.owner_survives (h : p.Indexed) (hindex : p.index_ c = i)
    (howner : p.channels_[channel.fd_]? = some c) {j : Nat} {pfd : PollFd}
    (hentry : p.pollfds_[j]? = some pfd) (hne : j ≠ i) :
    ∃ c', (p.channels_.erase channel.fd_)[pfd.channelFd]? = some c' ∧ p.index_ c' = j := by
  obtain ⟨c', hmem, hj⟩ := h.owners j pfd hentry
  refine ⟨c', ?_, hj⟩
  rw [getElem?_erase_fd, if_neg, hmem]
  intro heq
  rw [← heq, howner, Option.some.injEq] at hmem
  rw [← hmem, hindex] at hj
  omega

/-- The owner of the last entry, which is not the one that is removed. -/
theorem Indexed.index_of_last (h : p.Indexed) {n : Nat} {last : PollFd} {channelAtEnd : ChannelId}
    (hindex : p.index_ c = i) (howner : p.channels_[channel.fd_]? = some c)
    (hlast : p.pollfds_[n]? = some last)
    (hatEnd : (p.channels_.erase channel.fd_)[last.channelFd]? = some channelAtEnd) :
    p.index_ channelAtEnd = n := by
  obtain ⟨_, hmem, _⟩ := h.survivor hindex howner hatEnd
  obtain ⟨c', hmem', hn⟩ := h.owners n last hlast
  rw [hmem, Option.some.injEq] at hmem'
  rw [hmem', hn]

theorem RemoveChannel.indexed (hremove : RemoveChannel p c channel p') (h : p.Indexed) :
    p'.Indexed := by
  cases hremove with
  | @last i hindex howner hlast =>
    constructor
    · intro fd c' hmem
      obtain ⟨hnonneg, _, j, pfd, hj, hne, hentry, hpfd⟩ := h.survivor hindex howner hmem
      have hbound := (List.getElem?_eq_some_iff.mp hentry).1
      refine ⟨hnonneg, j, pfd, hj, ?_, hpfd⟩
      rw [List.getElem?_dropLast, if_pos (by omega), hentry]
    · intro j pfd hentry
      rw [List.getElem?_dropLast] at hentry
      split at hentry
      · rename_i hbound
        exact h.owner_survives hindex howner hentry (by omega)
      · cases hentry
  | @swapped i n last channelAtEnd hindex howner hlength hi hlast hatEnd =>
    have hend := h.index_of_last hindex howner hlast hatEnd
    obtain ⟨_, hatEnd', _⟩ := h.survivor hindex howner hatEnd
    have hmoved : (p.pollfds_.set i last).dropLast[i]? = some last := by
      rw [List.getElem?_dropLast, if_pos (by rw [List.length_set]; omega),
        List.getElem?_set_self (by omega)]
    have hkept : ∀ j, j ≠ i → j < n →
        (p.pollfds_.set i last).dropLast[j]? = p.pollfds_[j]? := by
      intro j hne hbound
      rw [List.getElem?_dropLast, if_pos (by rw [List.length_set]; omega),
        List.getElem?_set_ne (Ne.symm hne)]
    constructor
    · intro fd c' hmem
      obtain ⟨hnonneg, hmem', j, pfd, hj, hne, hentry, hpfd⟩ := h.survivor hindex howner hmem
      have hbound := (List.getElem?_eq_some_iff.mp hentry).1
      by_cases hc' : c' = channelAtEnd
      · subst hc'
        have hjn : j = n := by omega
        subst hjn
        rw [hlast, Option.some.injEq] at hentry
        subst hentry
        exact ⟨hnonneg, i, last, Function.update_self .., hmoved, hpfd⟩
      · have hjn : j ≠ n := by
          rintro rfl
          exact hc' (h.index_unique hmem' hatEnd' hj hend).2
        refine ⟨hnonneg, j, pfd, (Function.update_of_ne hc' ..).trans hj, ?_, hpfd⟩
        rw [hkept j hne (by omega), hentry]
    · intro j pfd hentry
      have hbound : j < n := by
        have hbound := (List.getElem?_eq_some_iff.mp hentry).1
        rw [List.length_dropLast, List.length_set] at hbound
        omega
      by_cases hne : j = i
      · subst hne
        rw [hmoved, Option.some.injEq] at hentry
        subst hentry
        exact ⟨channelAtEnd, hatEnd, Function.update_self ..⟩
      · rw [hkept j hne hbound] at hentry
        obtain ⟨c', hmem, hj⟩ := h.owner_survives hindex howner hentry hne
        refine ⟨c', hmem, (Function.update_of_ne ?_ ..).trans hj⟩
        rintro rfl
        omega

end Remove

/-- What the poller has of a channel stays as it is, wherever its entry is. -/
structure Keeps (p p' : Poller) (c : ChannelId) (fd : Int) : Prop where
  owner : p'.channels_[fd]? = some c
  entry : (p'.entryOf c).map PollFd.request = (p.entryOf c).map PollFd.request

theorem UpdateChannel.keeps (hupdate : UpdateChannel p c channel p') (h : p.Indexed) {fd : Int}
    (hne : c' ≠ c) (howner' : p.channels_[fd]? = some c') : Keeps p p' c' fd := by
  obtain ⟨_, j, pfd, hj, hentry, _⟩ := h.entries fd c' howner'
  cases hupdate with
  | added hnew hfree =>
    constructor
    · rw [getElem?_insert_fd, if_neg, howner']
      rintro rfl
      rw [hfree] at howner'
      cases howner'
    · refine congrArg (Option.map PollFd.request) ?_
      rw [entryOf_of_index hj, entryOf_of_index ((Function.update_of_ne hne ..).trans hj),
        List.getElem?_append_left (List.getElem?_eq_some_iff.mp hentry).1]
  | @changed i old hindex howner hold hfd =>
    refine ⟨howner', congrArg (Option.map PollFd.request) ?_⟩
    refine Eq.trans (entryOf_of_index (by exact hj)) ?_
    rw [entryOf_of_index hj, List.getElem?_set_ne]
    rintro rfl
    exact hne (h.index_unique howner howner' hindex hj).2.symm

theorem RemoveChannel.keeps (hremove : RemoveChannel p c channel p') (h : p.Indexed) {fd : Int}
    (hne : c' ≠ c) (howner' : p.channels_[fd]? = some c') : Keeps p p' c' fd := by
  obtain ⟨_, j, pfd, hj, hentry, _⟩ := h.entries fd c' howner'
  have hbound := (List.getElem?_eq_some_iff.mp hentry).1
  have herased : p.channels_[channel.fd_]? = some c →
      (p.channels_.erase channel.fd_)[fd]? = some c' := by
    intro howner
    rw [getElem?_erase_fd, if_neg, howner']
    rintro rfl
    rw [howner, Option.some.injEq] at howner'
    exact hne howner'.symm
  cases hremove with
  | @last i hindex howner hlast =>
    have hji : j ≠ i := by
      rintro rfl
      exact hne (h.index_unique howner howner' hindex hj).2.symm
    refine ⟨herased howner, congrArg (Option.map PollFd.request) ?_⟩
    refine Eq.trans (entryOf_of_index (by exact hj)) ?_
    rw [entryOf_of_index hj, List.getElem?_dropLast, if_pos (by omega)]
  | @swapped i n last channelAtEnd hindex howner hlength hi hlast hatEnd =>
    have hend := h.index_of_last hindex howner hlast hatEnd
    obtain ⟨_, hatEnd', _⟩ := h.survivor hindex howner hatEnd
    have hji : j ≠ i := by
      rintro rfl
      exact hne (h.index_unique howner howner' hindex hj).2.symm
    refine ⟨herased howner, congrArg (Option.map PollFd.request) ?_⟩
    by_cases hc' : c' = channelAtEnd
    · subst hc'
      have hjn : j = n := by omega
      subst hjn
      rw [entryOf_of_index hj, entryOf_of_index (i := i) (Function.update_self ..), hlast,
        List.getElem?_dropLast, if_pos (by rw [List.length_set]; omega),
        List.getElem?_set_self (by omega)]
    · have hjn : j ≠ n := by
        rintro rfl
        exact hc' (h.index_unique howner' hatEnd' hj hend).2
      rw [entryOf_of_index hj, entryOf_of_index (i := j) ((Function.update_of_ne hc' ..).trans hj),
        List.getElem?_dropLast, if_pos (by rw [List.length_set]; omega),
        List.getElem?_set_ne (Ne.symm hji)]

theorem fillActiveChannels_eq_ok {nums : Nat} {pollfds : List PollFd}
    {active active' : List ChannelId}
    (h : p.fillActiveChannels nums pollfds active = .ok (p', active')) :
    p'.pollfds_ = p.pollfds_ ∧ p'.channels_ = p.channels_ ∧ p'.index_ = p.index_ := by
  induction pollfds generalizing p nums active with
  | nil =>
    rw [fillActiveChannels, pure_eq_ok_iff, Prod.mk.injEq] at h
    rw [h.1]
    exact ⟨rfl, rfl, rfl⟩
  | cons pfd rest ih =>
    rw [fillActiveChannels] at h
    split at h
    · rw [pure_eq_ok_iff, Prod.mk.injEq] at h
      rw [h.1]
      exact ⟨rfl, rfl, rfl⟩
    · split at h
      · split at h
        · cases h
        · have hrest := ih h
          exact hrest
      · exact ih h

/-- A poll changes nothing but the events that it reports. -/
theorem poll_eq_ok {ready : List ShortEvents} {active : List ChannelId}
    (h : p.poll ready = .ok (p', active)) :
    p'.channels_ = p.channels_ ∧ p'.index_ = p.index_ ∧
      ∀ i : Nat, p'.pollfds_[i]?.map PollFd.request = p.pollfds_[i]?.map PollFd.request := by
  obtain ⟨hpollfds, hchannels, hindex⟩ := fillActiveChannels_eq_ok h
  refine ⟨hchannels, hindex, fun i => ?_⟩
  rw [hpollfds, List.getElem?_mapIdx, Option.map_map]
  rfl

theorem channelFd_of_request {pfd pfd' : PollFd} (h : pfd'.request = pfd.request) :
    pfd'.channelFd = pfd.channelFd := by
  have hfd : pfd'.fd = pfd.fd := congrArg Prod.fst h
  rw [PollFd.channelFd, PollFd.channelFd, hfd]

/-- The same channels, with entries that ask for the same. -/
theorem Indexed.of_requests (h : p.Indexed) (hchannels : p'.channels_ = p.channels_)
    (hindex : p'.index_ = p.index_)
    (hrequests : ∀ i : Nat,
      p'.pollfds_[i]?.map PollFd.request = p.pollfds_[i]?.map PollFd.request) : p'.Indexed := by
  constructor
  · intro fd c hmem
    rw [hchannels] at hmem
    obtain ⟨hnonneg, i, pfd, hi, hentry, hpfd⟩ := h.entries fd c hmem
    have hrequest := hrequests i
    rw [hentry, Option.map_some, Option.map_eq_some_iff] at hrequest
    obtain ⟨pfd', hentry', hsame⟩ := hrequest
    exact ⟨hnonneg, i, pfd', by rw [hindex, hi], hentry', (channelFd_of_request hsame).trans hpfd⟩
  · intro i pfd' hentry'
    have hrequest := hrequests i
    rw [hentry', Option.map_some, eq_comm, Option.map_eq_some_iff] at hrequest
    obtain ⟨pfd, hentry, hsame⟩ := hrequest
    rw [channelFd_of_request hsame.symm, hchannels, hindex]
    exact h.owners i pfd hentry

theorem keeps_of_requests {fd : Int} (hchannels : p'.channels_ = p.channels_)
    (hindex : p'.index_ = p.index_)
    (hrequests : ∀ i : Nat,
      p'.pollfds_[i]?.map PollFd.request = p.pollfds_[i]?.map PollFd.request)
    (howner : p.channels_[fd]? = some c) : Keeps p p' c fd where
  owner := by rw [hchannels, howner]
  entry := by
    rw [entryOf, entryOf, hindex]
    split
    · exact hrequests _
    · rfl

/-- A channel without an entry gets none by what happens to others. -/
theorem UpdateChannel.index_of_new (hupdate : UpdateChannel p c channel p') (hne : c' ≠ c)
    (hnew : p.index_ c' < 0) : p'.index_ c' < 0 := by
  cases hupdate with
  | added _ _ => exact lt_of_eq_of_lt (Function.update_of_ne hne ..) hnew
  | changed _ _ _ _ => exact hnew

theorem RemoveChannel.index_of_new (hremove : RemoveChannel p c channel p') (h : p.Indexed)
    (hnew : p.index_ c' < 0) : p'.index_ c' < 0 := by
  cases hremove with
  | last _ _ _ => exact hnew
  | @swapped i n last channelAtEnd hindex howner hlength hi hlast hatEnd =>
    have hend := h.index_of_last hindex howner hlast hatEnd
    have hne : c' ≠ channelAtEnd := by
      rintro rfl
      omega
    exact lt_of_eq_of_lt (Function.update_of_ne hne ..) hnew

end Poller

end TcpNet
