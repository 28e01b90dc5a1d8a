import TcpNet.Epoller

open Transition

namespace TcpNet

/-- `epoll_ctl` is asked for what the set of the kernel allows. -/
def EpollCtl.Allowed (call : EpollCtl) : Prop :=
  call.present = true ↔ call.operation ≠ .EPOLL_CTL_ADD

namespace Epoller

variable {p p' : Epoller} {c c' : ChannelId} {channel : Channel} {es : List EpollCtl}

/-- What an epoller knows of one channel with its descriptor. -/
structure Knows (p : Epoller) (c : ChannelId) (fd : Int) : Prop where
  index : p.index_ c = kNew ∨ p.index_ c = kAdded ∨ p.index_ c = kDelete
  owner : p.channels_[fd]? = if p.index_ c = kNew then none else some c
  kernel : (p.kernel[fd]?).isSome ↔ p.index_ c = kAdded

/-- The index of a channel behind `updateChannel`. -/
def indexBehind (p : Epoller) (c : ChannelId) (channel : Channel) : Int :=
  if p.index_ c = kAdded ∧ channel.isNoneEvent = true then kDelete else kAdded

/-- What `updateChannel` leaves. -/
structure UpdateChannel (p : Epoller) (c : ChannelId) (channel : Channel) (es : List EpollCtl)
    (p' : Epoller) : Prop where
  allowed : ∀ call ∈ es, call.Allowed
  index : p'.index_ = Function.update p.index_ c (p.indexBehind c channel)
  channels : ∀ fd : Int,
    p'.channels_[fd]? = if channel.fd_ = fd then some c else p.channels_[fd]?
  kernel : ∀ fd : Int, p'.kernel[fd]? =
    if channel.fd_ = fd then
      if p.indexBehind c channel = kAdded then some ⟨channel.event_, c⟩ else none
    else p.kernel[fd]?

theorem update_add (h : p.kernel[channel.fd_]? = none) :
    p.update .EPOLL_CTL_ADD c channel =
      .ok ({ p with kernel := p.kernel.insert channel.fd_ ⟨channel.event_, c⟩ },
        [⟨.EPOLL_CTL_ADD, channel.fd_, false⟩]) := by
  simp only [update, h, Option.isSome_none, require_of, ok_bind]
  rfl

theorem update_mod (h : (p.kernel[channel.fd_]?).isSome = true) :
    p.update .EPOLL_CTL_MOD c channel =
      .ok ({ p with kernel := p.kernel.insert channel.fd_ ⟨channel.event_, c⟩ },
        [⟨.EPOLL_CTL_MOD, channel.fd_, true⟩]) := by
  simp only [update, h, require_of, ok_bind]
  rfl

theorem update_del (h : (p.kernel[channel.fd_]?).isSome = true) :
    p.update .EPOLL_CTL_DEL c channel =
      .ok ({ p with kernel := p.kernel.erase channel.fd_ },
        [⟨.EPOLL_CTL_DEL, channel.fd_, true⟩]) := by
  simp only [update, h]
  rfl

theorem allowed_singleton {call : EpollCtl} (h : call.Allowed) :
    ∀ call' ∈ [call], call'.Allowed := by
  intro call' hmem
  rw [List.mem_singleton.mp hmem]
  exact h

/-- The three indexes differ. -/
theorem kDelete_ne_kAdded : kDelete ≠ kAdded := by decide

theorem kNew_ne_kAdded : kNew ≠ kAdded := by decide

theorem kDelete_ne_kNew : kDelete ≠ kNew := by decide

/-- A channel whose descriptor is not in the set is added to it, whatever its events. -/
theorem updateChannel_of_absent (h : Knows p c channel.fd_) (hindex : p.index_ c ≠ kAdded) :
    ∃ p' es, p.updateChannel c channel = .ok (p', es) ∧ UpdateChannel p c channel es p' := by
  have habsent : p.kernel[channel.fd_]? = none := by
    rw [← Option.not_isSome_iff_eq_none, h.kernel]
    exact hindex
  have hbehind : p.indexBehind c channel = kAdded := if_neg fun hboth => hindex hboth.1
  have howner := h.owner
  have hallowed : ∀ call ∈ [(⟨.EPOLL_CTL_ADD, channel.fd_, false⟩ : EpollCtl)], call.Allowed :=
    allowed_singleton (iff_of_false (by simp) (by simp))
  by_cases hnew : p.index_ c = kNew
  · rw [if_pos hnew] at howner
    refine ⟨{ (p.setIndex c kAdded) with
      channels_ := p.channels_.insert channel.fd_ c
      kernel := p.kernel.insert channel.fd_ ⟨channel.event_, c⟩ }, _, ?_, hallowed, ?_, ?_, ?_⟩
    · simp only [updateChannel, hnew, true_or, if_true, require_of howner, ok_bind]
      exact update_add habsent
    · exact congrArg (Function.update p.index_ c) hbehind.symm
    · exact fun fd => getElem?_insert_fd
    · intro fd
      rw [if_pos hbehind]
      exact getElem?_insert_fd
  · rw [if_neg hnew] at howner
    have hdelete : p.index_ c = kDelete :=
      (h.index.resolve_left hnew).resolve_left hindex
    refine ⟨{ (p.setIndex c kAdded) with
      kernel := p.kernel.insert channel.fd_ ⟨channel.event_, c⟩ }, _, ?_, hallowed, ?_, ?_, ?_⟩
    · simp only [updateChannel, hdelete, or_true, if_true, if_neg kDelete_ne_kNew,
        require_of howner, ok_bind]
      exact update_add habsent
    · exact congrArg (Function.update p.index_ c) hbehind.symm
    · intro fd
      by_cases hfd : channel.fd_ = fd
      · rw [if_pos hfd, ← hfd]
        exact howner
      · rw [if_neg hfd]
        rfl
    · intro fd
      rw [if_pos hbehind]
      exact getElem?_insert_fd

/-- A channel whose descriptor is in the set gets its new events there, or is taken from
    it if it has none. -/
theorem updateChannel_of_added (h : Knows p c channel.fd_) (hindex : p.index_ c = kAdded) :
    ∃ p' es, p.updateChannel c channel = .ok (p', es) ∧ UpdateChannel p c channel es p' := by
  have hpresent : (p.kernel[channel.fd_]?).isSome = true := h.kernel.mpr hindex
  have hnew : ¬ p.index_ c = kNew := fun hnew => kNew_ne_kAdded (hnew.symm.trans hindex)
  have hother : ¬ (p.index_ c = kNew ∨ p.index_ c = kDelete) := by
    rw [hindex]
    decide
  have howner := h.owner
  rw [if_neg hnew] at howner
  have hchannels : ∀ fd : Int,
      p.channels_[fd]? = if channel.fd_ = fd then some c else p.channels_[fd]? := by
    intro fd
    by_cases hfd : channel.fd_ = fd
    · rw [if_pos hfd, ← hfd, howner]
    · rw [if_neg hfd]
  by_cases hnone : channel.isNoneEvent = true
  · have hbehind : p.indexBehind c channel = kDelete := if_pos ⟨hindex, hnone⟩
    have hallowed : ∀ call ∈ [(⟨.EPOLL_CTL_DEL, channel.fd_, true⟩ : EpollCtl)], call.Allowed :=
      allowed_singleton (iff_of_true rfl (by simp))
    refine ⟨{ (p.setIndex c kDelete) with kernel := p.kernel.erase channel.fd_ }, _, ?_, hallowed,
      ?_, hchannels, fun fd => ?_⟩
    · simp only [updateChannel, if_neg hother, require_of howner, hnone, if_true, ok_bind,
        update_del hpresent]
      rfl
    · exact congrArg (Function.update p.index_ c) hbehind.symm
    · rw [hbehind, if_neg kDelete_ne_kAdded]
      exact getElem?_erase_fd
  · have hbehind : p.indexBehind c channel = kAdded := if_neg fun hboth => hnone hboth.2
    have hallowed : ∀ call ∈ [(⟨.EPOLL_CTL_MOD, channel.fd_, true⟩ : EpollCtl)], call.Allowed :=
      allowed_singleton (iff_of_true rfl (by simp))
    refine ⟨{ p with kernel := p.kernel.insert channel.fd_ ⟨channel.event_, c⟩ }, _, ?_, hallowed,
      ?_, hchannels, fun fd => ?_⟩
    · simp only [updateChannel, if_neg hother, require_of howner, hnone, ok_bind]
      exact update_mod hpresent
    · rw [hbehind, ← hindex, Function.update_eq_self]
    · rw [if_pos hbehind]
      exact getElem?_insert_fd

theorem updateChannel_spec (h : Knows p c channel.fd_) :
    ∃ p' es, p.updateChannel c channel = .ok (p', es) ∧ UpdateChannel p c channel es p' := by
  by_cases hindex : p.index_ c = kAdded
  · exact updateChannel_of_added h hindex
  · exact updateChannel_of_absent h hindex

/-- What `removeChannel` leaves. -/
structure RemoveChannel (p : Epoller) (c : ChannelId) (channel : Channel) (es : List EpollCtl)
    (p' : Epoller) : Prop where
  allowed : ∀ call ∈ es, call.Allowed
  index : p'.index_ = Function.update p.index_ c kNew
  channels : ∀ fd : Int,
    p'.channels_[fd]? = if channel.fd_ = fd then none else p.channels_[fd]?
  kernel : ∀ fd : Int, p'.kernel[fd]? = if channel.fd_ = fd then none else p.kernel[fd]?

theorem removeChannel_spec (h : Knows p c channel.fd_) (hindex : p.index_ c ≠ kNew)
    (hnone : channel.isNoneEvent = true) :
    ∃ p' es, p.removeChannel c channel = .ok (p', es) ∧ RemoveChannel p c channel es p' := by
  have howner := h.owner
  rw [if_neg hindex] at howner
  have hother : p.index_ c = kAdded ∨ p.index_ c = kDelete := h.index.resolve_left hindex
  by_cases hadded : p.index_ c = kAdded
  · have hpresent : (p.kernel[channel.fd_]?).isSome = true := h.kernel.mpr hadded
    have hallowed : ∀ call ∈ [(⟨.EPOLL_CTL_DEL, channel.fd_, true⟩ : EpollCtl)], call.Allowed :=
      allowed_singleton (iff_of_true rfl (by simp))
    refine ⟨{ (p.setIndex c kNew) with
      channels_ := p.channels_.erase channel.fd_
      kernel := p.kernel.erase channel.fd_ }, _, ?_, hallowed, ?_, ?_, ?_⟩
    · simp only [removeChannel, require_of howner, require_of hnone, require_of hother, ok_bind,
        if_pos hadded]
      rw [update_del (p := { p with channels_ := p.channels_.erase channel.fd_ }) hpresent]
      rfl
    · rfl
    · exact fun fd => getElem?_erase_fd
    · exact fun fd => getElem?_erase_fd
  · have habsent : p.kernel[channel.fd_]? = none := by
      rw [← Option.not_isSome_iff_eq_none, h.kernel]
      exact hadded
    refine ⟨{ (p.setIndex c kNew) with channels_ := p.channels_.erase channel.fd_ }, [], ?_,
      by simp, ?_, ?_, ?_⟩
    · simp only [removeChannel, require_of howner, require_of hnone, require_of hother, ok_bind,
        if_neg hadded]
      rfl
    · rfl
    · exact fun fd => getElem?_erase_fd
    · intro fd
      by_cases hfd : channel.fd_ = fd
      · rw [if_pos hfd, ← hfd]
        exact habsent
      · rw [if_neg hfd]
        rfl

/-- What the calls tell of the epoller: who owns the descriptors, which of them are in the
    set and with what events. -/
structure Known (s : Watched Epoller) : Prop where
  channels : multiplexer.Channels s
  index : ∀ c, s.poller.index_ c = kNew ∨ s.poller.index_ c = kAdded ∨ s.poller.index_ c = kDelete
  owner : ∀ c, s.poller.channels_[(s.channel c).fd_]? =
    if s.poller.index_ c = kNew then none else some c
  kernel : ∀ c, s.poller.kernel[(s.channel c).fd_]? =
    if s.poller.index_ c = kAdded then some ⟨(s.channel c).event_, c⟩ else none
  foreign : ∀ fd, (∀ c, (s.channel c).fd_ ≠ fd) →
    s.poller.channels_[fd]? = none ∧ s.poller.kernel[fd]? = none
  registered : ∀ c, s.registration c = .registered ↔ s.poller.index_ c ≠ kNew
  absent : ∀ c, s.poller.index_ c ≠ kAdded → (s.channel c).isNoneEvent = true

variable {s s' : Watched Epoller}

theorem known_initial (h : multiplexer.Initial s) : Known s := by
  have hpoller : s.poller = new := h.poller
  have hindex : ∀ c, s.poller.index_ c = kNew := by
    intro c
    rw [hpoller]
    rfl
  have hchannels : ∀ fd : Int, s.poller.channels_[fd]? = none := by
    intro fd
    rw [hpoller, new, Std.ExtTreeMap.getElem?_empty]
  have hkernel : ∀ fd : Int, s.poller.kernel[fd]? = none := by
    intro fd
    rw [hpoller, new, Std.ExtTreeMap.getElem?_empty]
  refine ⟨h.channels, fun c => .inl (hindex c), fun c => ?_, fun c => ?_,
    fun fd _ => ⟨hchannels fd, hkernel fd⟩, fun c => ?_, fun c _ => ?_⟩
  · rw [hchannels, if_pos (hindex c)]
  · rw [hkernel, hindex, if_neg kNew_ne_kAdded]
  · rw [h.registration c]
    exact iff_of_false (by simp) (fun hne => hne (hindex c))
  · exact decide_eq_true (h.channels.fresh c (h.registration c))

/-- The descriptor of a channel is in the set exactly with the index `kAdded`. -/
theorem Known.isSome_kernel (h : Known s) (c : ChannelId) :
    (s.poller.kernel[(s.channel c).fd_]?).isSome ↔ s.poller.index_ c = kAdded := by
  rw [h.kernel c]
  split
  · rename_i hadded
    exact iff_of_true rfl hadded
  · rename_i hadded
    exact iff_of_false (by simp) hadded

theorem Known.knows (h : Known s) (c : ChannelId) : Knows s.poller c (s.channel c).fd_ :=
  ⟨h.index c, h.owner c, h.isSome_kernel c⟩

/-- The map holds exactly the channels whose index is not `kNew`. -/
theorem Known.channels_iff (h : Known s) (fd : Int) (c : ChannelId) :
    s.poller.channels_[fd]? = some c ↔ (s.channel c).fd_ = fd ∧ s.poller.index_ c ≠ kNew := by
  constructor
  · intro howner
    have howned : ∃ c', (s.channel c').fd_ = fd := by
      by_contra hforeign
      rw [(h.foreign fd (not_exists.mp hforeign)).1] at howner
      cases howner
    obtain ⟨c', rfl⟩ := howned
    rw [h.owner c'] at howner
    split at howner
    · cases howner
    · rename_i hne
      obtain rfl := Option.some.inj howner
      exact ⟨rfl, hne⟩
  · rintro ⟨rfl, hne⟩
    rw [h.owner c, if_neg hne]

theorem Known.update_eq_ok (h : Known s) (hfd : channel.fd_ = (s.channel c).fd_)
    (hgo : s.poller.updateChannel c channel = .ok (p', es)) :
    UpdateChannel s.poller c channel es p' := by
  have hknows := h.knows c
  rw [← hfd] at hknows
  obtain ⟨_, _, hspec, hupdate⟩ := updateChannel_spec hknows
  obtain ⟨rfl, rfl⟩ := Prod.mk.inj (Except.ok.inj (hspec.symm.trans hgo))
  exact hupdate

theorem Known.remove_goes_through (h : Known s) (hremovable : s.Removable c) :
    ∃ p' es, s.poller.removeChannel c (s.channel c) = .ok (p', es) ∧
      RemoveChannel s.poller c (s.channel c) es p' :=
  removeChannel_spec (h.knows c) ((h.registered c).mp hremovable.1) hremovable.2

theorem Known.remove_eq_ok (h : Known s) (hremovable : s.Removable c)
    (hgo : s.poller.removeChannel c (s.channel c) = .ok (p', es)) :
    RemoveChannel s.poller c (s.channel c) es p' := by
  obtain ⟨_, _, hspec, hremove⟩ := h.remove_goes_through hremovable
  obtain ⟨rfl, rfl⟩ := Prod.mk.inj (Except.ok.inj (hspec.symm.trans hgo))
  exact hremove

theorem indexBehind_eq (p : Epoller) (c : ChannelId) (channel : Channel) :
    p.indexBehind c channel = kDelete ∧ channel.isNoneEvent = true ∨
      p.indexBehind c channel = kAdded := by
  unfold indexBehind
  split
  · rename_i hboth
    exact .inl ⟨rfl, hboth.2⟩
  · exact .inr rfl

theorem indexBehind_ne_kNew (p : Epoller) (c : ChannelId) (channel : Channel) :
    p.indexBehind c channel ≠ kNew := by
  obtain ⟨hdelete, _⟩ | hadded := indexBehind_eq p c channel
  · rw [hdelete]
    exact kDelete_ne_kNew
  · rw [hadded]
    exact kNew_ne_kAdded.symm

theorem Known.updated (h : Known s) (hfd : channel.fd_ = (s.channel c).fd_)
    (hgo : s.poller.updateChannel c channel = .ok (p', es)) :
    Known (s.updated p' c channel) := by
  have hupdate := h.update_eq_ok hfd hgo
  have hself : p'.index_ c = s.poller.indexBehind c channel :=
    (congrFun hupdate.index c).trans (Function.update_self ..)
  have hother : ∀ c', c' ≠ c → p'.index_ c' = s.poller.index_ c' :=
    fun c' hc => (congrFun hupdate.index c').trans (Function.update_of_ne hc ..)
  have hapart : ∀ c', c' ≠ c → channel.fd_ ≠ (s.channel c').fd_ :=
    fun c' hc heq => hc (h.channels.distinct c c' (hfd.symm.trans heq)).symm
  refine ⟨h.channels.step (.updated hfd hgo), fun c' => ?_, fun c' => ?_, fun c' => ?_,
    fun fd hforeign => ?_, fun c' => ?_, fun c' => ?_⟩
  · rw [s.updated_poller]
    by_cases hc : c' = c
    · rw [hc, hself]
      obtain ⟨hdelete, _⟩ | hadded := indexBehind_eq s.poller c channel
      · exact .inr (.inr hdelete)
      · exact .inr (.inl hadded)
    · rw [hother c' hc]
      exact h.index c'
  · rw [s.updated_fd p' hfd, s.updated_poller, hupdate.channels]
    by_cases hc : c' = c
    · rw [hc, hself, if_pos hfd, if_neg (indexBehind_ne_kNew s.poller c channel)]
    · rw [if_neg (hapart c' hc), hother c' hc]
      exact h.owner c'
  · rw [s.updated_fd p' hfd, s.updated_poller, hupdate.kernel]
    by_cases hc : c' = c
    · rw [hc, hself, if_pos hfd, s.updated_channel_self]
    · rw [if_neg (hapart c' hc), hother c' hc, s.updated_channel_of_ne p' channel hc]
      exact h.kernel c'
  · have hne : ∀ c', (s.channel c').fd_ ≠ fd := by
      intro c'
      rw [← s.updated_fd p' hfd c']
      exact hforeign c'
    have hown : channel.fd_ ≠ fd := by
      rw [hfd]
      exact hne c
    obtain ⟨hchannels, hkernel⟩ := h.foreign fd hne
    rw [s.updated_poller, hupdate.channels, hupdate.kernel, if_neg hown, if_neg hown]
    exact ⟨hchannels, hkernel⟩
  · rw [s.updated_poller]
    by_cases hc : c' = c
    · rw [hc, s.updated_registration_self, hself]
      exact iff_of_true rfl (indexBehind_ne_kNew s.poller c channel)
    · rw [s.updated_registration_of_ne p' channel hc, hother c' hc]
      exact h.registered c'
  · rw [s.updated_poller]
    by_cases hc : c' = c
    · rw [hc, hself, s.updated_channel_self]
      intro hne
      exact ((indexBehind_eq s.poller c channel).resolve_right hne).2
    · rw [hother c' hc, s.updated_channel_of_ne p' channel hc]
      exact h.absent c'

theorem Known.removed (h : Known s) (hremovable : s.Removable c)
    (hgo : s.poller.removeChannel c (s.channel c) = .ok (p', es)) :
    Known (s.removed p' c) := by
  have hremove := h.remove_eq_ok hremovable hgo
  have hself : p'.index_ c = kNew := (congrFun hremove.index c).trans (Function.update_self ..)
  have hother : ∀ c', c' ≠ c → p'.index_ c' = s.poller.index_ c' :=
    fun c' hc => (congrFun hremove.index c').trans (Function.update_of_ne hc ..)
  have hapart : ∀ c', c' ≠ c → (s.channel c).fd_ ≠ (s.channel c').fd_ :=
    fun c' hc heq => hc (h.channels.distinct c c' heq).symm
  refine ⟨h.channels.step (.removed hremovable hgo), fun c' => ?_, fun c' => ?_, fun c' => ?_,
    fun fd hforeign => ?_, fun c' => ?_, fun c' => ?_⟩
  · rw [s.removed_poller]
    by_cases hc : c' = c
    · rw [hc]
      exact .inl hself
    · rw [hother c' hc]
      exact h.index c'
  · rw [s.removed_poller, s.removed_channel, hremove.channels]
    by_cases hc : c' = c
    · rw [hc, hself, if_pos rfl, if_pos rfl]
    · rw [if_neg (hapart c' hc), hother c' hc]
      exact h.owner c'
  · rw [s.removed_poller, s.removed_channel, hremove.kernel]
    by_cases hc : c' = c
    · rw [hc, hself, if_pos rfl, if_neg kNew_ne_kAdded]
    · rw [if_neg (hapart c' hc), hother c' hc]
      exact h.kernel c'
  · obtain ⟨hchannels, hkernel⟩ := h.foreign fd hforeign
    have hown : (s.channel c).fd_ ≠ fd := hforeign c
    rw [s.removed_poller, hremove.channels, hremove.kernel, if_neg hown, if_neg hown]
    exact ⟨hchannels, hkernel⟩
  · rw [s.removed_poller]
    by_cases hc : c' = c
    · rw [hc, s.removed_registration_self, hself]
      simp
    · rw [s.removed_registration_of_ne p' hc, hother c' hc]
      exact h.registered c'
  · rw [s.removed_poller]
    by_cases hc : c' = c
    · rw [hc]
      exact fun _ => hremovable.2
    · rw [hother c' hc]
      exact h.absent c'

theorem Known.step (h : Known s) (hstep : Multiplexer.Step multiplexer s es s') : Known s' := by
  cases hstep with
  | updated hfd hupdate => exact h.updated hfd hupdate
  | removed hremovable hremove => exact h.removed hremovable hremove

/-- Every call asks the kernel for what its set allows. -/
theorem Known.allowed (h : Known s) (hstep : Multiplexer.Step multiplexer s es s') :
    ∀ call ∈ es, call.Allowed := by
  cases hstep with
  | updated hfd hupdate => exact (h.update_eq_ok hfd hupdate).allowed
  | removed hremovable hremove => exact (h.remove_eq_ok hremovable hremove).allowed

theorem reach_known {C : StepCondition (Watched Epoller) ChannelCall EpollCtl}
    {tr : List EpollCtl} (h : multiplexer.calls.Reach C tr s) : Known s :=
  Multiplexer.invariant_of_calls (fun _ => known_initial) (fun _ _ _ h hstep => h.step hstep) h

theorem reach_allowed {C : StepCondition (Watched Epoller) ChannelCall EpollCtl}
    {tr : List EpollCtl} (h : multiplexer.calls.Reach C tr s) : ∀ call ∈ tr, call.Allowed := by
  induction h with
  | init _ => simp
  | @step tr es s s' call hreach hcond hstep ih =>
    intro call' hmem
    obtain hmem | hmem := List.mem_append.mp hmem
    · exact ih call' hmem
    · exact (reach_known hreach).allowed (Multiplexer.step_of_call hstep) call' hmem

/-- Whatever channels are updated and removed, the epoller and the kernel agree on the
    descriptors of the set, every `epoll_ctl` is allowed, and the next call goes through. -/
theorem epoll_ctl_allowed {tr : List EpollCtl} (h : multiplexer.calls.Reach anyStep tr s) :
    (∀ call ∈ tr, call.Allowed) ∧
    (∀ c, (s.poller.kernel[(s.channel c).fd_]?).isSome ↔ s.poller.index_ c = kAdded) ∧
    (∀ fd c, s.poller.channels_[fd]? = some c ↔
      (s.channel c).fd_ = fd ∧ s.poller.index_ c ≠ kNew) ∧
    (∀ c events, ∃ s' es, multiplexer.calls.step s (.updateChannel c events) = .ok (s', es) ∧
      ∀ call ∈ es, call.Allowed) ∧
    ∀ c, s.Removable c →
      ∃ s' es, multiplexer.calls.step s (.removeChannel c) = .ok (s', es) ∧
        (∀ call ∈ es, call.Allowed) ∧ s'.poller.kernel[(s.channel c).fd_]? = none := by
  have hknown := reach_known h
  refine ⟨reach_allowed h, hknown.isSome_kernel, hknown.channels_iff, fun c events => ?_,
    fun c hremovable => ?_⟩
  · set channel : Channel := { s.channel c with event_ := events } with hchannel
    have hknows : Knows s.poller c channel.fd_ := hknown.knows c
    obtain ⟨p', es, hgo, hupdate⟩ := updateChannel_spec hknows
    have hupdated : multiplexer.updateChannel s.poller c channel = .ok (p', es) := hgo
    refine ⟨s.updated p' c channel, es, ?_, hupdate.allowed⟩
    simp only [Multiplexer.calls, Multiplexer.callStep, Multiplexer.update, ← hchannel, hupdated,
      ok_bind]
    rfl
  · obtain ⟨p', es, hgo, hremove⟩ := hknown.remove_goes_through hremovable
    have hremoved : multiplexer.removeChannel s.poller c (s.channel c) = .ok (p', es) := hgo
    refine ⟨s.removed p' c, es, ?_, hremove.allowed, ?_⟩
    · simp only [Multiplexer.calls, Multiplexer.callStep, Multiplexer.remove,
        enabled_of hremovable, hremoved, ok_bind]
      rfl
    · exact (hremove.kernel _).trans (if_pos rfl)

/-- A channel that is handed over without events is in the set all the same. It is taken
    from there when it is removed, and comes back. -/
theorem epoll_ctl_allowed_again : ∃ tr s, multiplexer.calls.Reach anyStep tr s ∧
    tr.map EpollCtl.operation = [.EPOLL_CTL_ADD, .EPOLL_CTL_DEL, .EPOLL_CTL_ADD] ∧
    ∀ call ∈ tr, call.Allowed := by
  have hruns : multiplexer.calls.runs multiplexer.numbered
      [.updateChannel 4 0, .removeChannel 4, .updateChannel 4 1]
      (fun tr _ => tr.map EpollCtl.operation =
        [.EPOLL_CTL_ADD, .EPOLL_CTL_DEL, .EPOLL_CTL_ADD]) = true := by
    decide +kernel
  obtain ⟨tr, s, hreach, htrace⟩ := Machine.exists_reach
    (Multiplexer.initial_numbered fun _ => trivial) hruns
  exact ⟨tr, s, hreach, of_decide_eq_true htrace, (epoll_ctl_allowed hreach).1⟩

end Epoller

end TcpNet
