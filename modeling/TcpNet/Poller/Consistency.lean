import TcpNet.Multiplexer
import TcpNet.Poller.Spec

open Transition

namespace TcpNet

namespace Poller

def multiplexer : Multiplexer Poller Empty where
  new := new
  descriptor fd := 0 ≤ fd
  updateChannel p c channel := do
    let p ← p.updateChannel c channel
    return (p, [])
  removeChannel p c channel := do
    let p ← p.removeChannel c channel
    return (p, [])

variable {p p' : Poller} {c c' : ChannelId} {channel : Channel} {s s' : Watched Poller}
  {es : List Empty}

theorem update_eq_ok (h : multiplexer.updateChannel p c channel = .ok (p', es)) :
    UpdateChannel p c channel p' := by
  simp only [multiplexer, bind_eq_ok_iff, pure_eq_ok_iff, Prod.mk.injEq] at h
  obtain ⟨p', hupdate, rfl, _⟩ := h
  exact updateChannel_eq_ok hupdate

theorem remove_eq_ok (h : multiplexer.removeChannel p c channel = .ok (p', es)) :
    RemoveChannel p c channel p' := by
  simp only [multiplexer, bind_eq_ok_iff, pure_eq_ok_iff, Prod.mk.injEq] at h
  obtain ⟨p', hremove, rfl, _⟩ := h
  exact removeChannel_eq_ok hremove

/-- Where the entries are found, no assertion of `updateChannel` fails. -/
theorem updateChannel_goes_through (h : p.Indexed)
    (howner : p.index_ c < 0 ∧ p.channels_[channel.fd_]? = none ∨
      p.channels_[channel.fd_]? = some c) : ∃ p', p.updateChannel c channel = .ok p' := by
  obtain ⟨hnew, hfree⟩ | howner := howner
  · simp only [updateChannel, if_pos hnew, require_of hfree, ok_bind]
    exact ⟨_, rfl⟩
  · obtain ⟨hnonneg, i, pfd, hi, hentry, hpfd⟩ := h.entries _ _ howner
    have hfd : pfd.fd = channel.fd_ ∨ pfd.fd = -channel.fd_ - 1 := by
      rw [PollFd.channelFd] at hpfd
      split at hpfd <;> omega
    simp only [updateChannel, require_of howner, ok_bind, hi, Int.toNat_natCast,
      hentry, require_of hfd]
    exact ⟨_, rfl⟩

theorem removeChannel_goes_through (h : p.Indexed)
    (howner : p.channels_[channel.fd_]? = some c) (hnone : channel.isNoneEvent = true) :
    ∃ p', p.removeChannel c channel = .ok p' := by
  obtain ⟨_, i, pfd, hi, hentry, _⟩ := h.entries _ _ howner
  have hbound := (List.getElem?_eq_some_iff.mp hentry).1
  have hindex : (0 : Int) ≤ i ∧ (i : Int) < p.pollfds_.length := by omega
  simp only [removeChannel, require_of howner, require_of hnone, hi, require_of hindex, ok_bind,
    Int.toNat_natCast]
  split
  · exact ⟨_, rfl⟩
  · rename_i hmiddle
    obtain ⟨n, hn⟩ : ∃ n, p.pollfds_.length = n + 1 := ⟨p.pollfds_.length - 1, by omega⟩
    obtain ⟨last, hlast⟩ : ∃ last, p.pollfds_[n]? = some last :=
      ⟨_, List.getElem?_eq_getElem (by omega)⟩
    obtain ⟨channelAtEnd, hatEnd, _⟩ := h.owner_survives hi howner hlast (by omega)
    simp only [List.getLast?_eq_getElem?, hn, Nat.add_sub_cancel, hlast, hatEnd]
    exact ⟨_, rfl⟩

theorem size_insert_free {m : Std.ExtTreeMap Int ChannelId} {fd : Int} (h : m[fd]? = none) :
    (m.insert fd c).size = m.size + 1 := by
  rw [Std.ExtTreeMap.size_insert, if_neg]
  rw [Std.ExtTreeMap.contains_iff_mem, Std.ExtTreeMap.mem_iff_isSome_getElem?, h]
  simp

theorem size_erase_owned {m : Std.ExtTreeMap Int ChannelId} {fd : Int} (h : m[fd]? = some c) :
    (m.erase fd).size = m.size - 1 := by
  rw [Std.ExtTreeMap.size_erase, if_pos]
  rw [Std.ExtTreeMap.contains_iff_mem, Std.ExtTreeMap.mem_iff_isSome_getElem?, h]
  rfl

theorem UpdateChannel.size (hupdate : UpdateChannel p c channel p')
    (h : p.channels_.size = p.pollfds_.length) : p'.channels_.size = p'.pollfds_.length := by
  cases hupdate with
  | added hnew hfree =>
    simp only [size_insert_free hfree, List.length_append, h, List.length_singleton]
  | changed hindex howner hentry hfd => simp only [List.length_set, h]

theorem RemoveChannel.size (hremove : RemoveChannel p c channel p')
    (h : p.channels_.size = p.pollfds_.length) : p'.channels_.size = p'.pollfds_.length := by
  cases hremove with
  | last hindex howner hlast => simp only [size_erase_owned howner, List.length_dropLast, h]
  | swapped hindex howner hlength hi hlast hatEnd =>
    simp only [size_erase_owned howner, List.length_dropLast, List.length_set, h]

/-- Both ways of `updateChannel` leave the channel as the owner of its descriptor. -/
theorem UpdateChannel.channels (hupdate : UpdateChannel p c channel p') (fd : Int) :
    p'.channels_[fd]? = if channel.fd_ = fd then some c else p.channels_[fd]? := by
  cases hupdate with
  | added hnew hfree => exact getElem?_insert_fd
  | changed hindex howner hentry hfd =>
    by_cases hsame : channel.fd_ = fd
    · rw [if_pos hsame, ← hsame]
      exact howner
    · rw [if_neg hsame]

theorem UpdateChannel.index (hupdate : UpdateChannel p c channel p') :
    0 ≤ p'.index_ c ∧ ∀ c', c' ≠ c → p'.index_ c' = p.index_ c' := by
  cases hupdate with
  | added hnew hfree =>
    refine ⟨?_, fun c' hc => Function.update_of_ne hc ..⟩
    simp only [Function.update_self]
    exact Int.natCast_nonneg _
  | @changed i _ hindex howner hentry hfd =>
    exact ⟨le_of_le_of_eq (Int.natCast_nonneg i) hindex.symm, fun _ _ => rfl⟩

theorem RemoveChannel.channels (hremove : RemoveChannel p c channel p') (fd : Int) :
    p'.channels_[fd]? = if channel.fd_ = fd then none else p.channels_[fd]? := by
  cases hremove with
  | last => exact getElem?_erase_fd
  | swapped => exact getElem?_erase_fd

theorem RemoveChannel.index (hremove : RemoveChannel p c channel p') (h : p.Indexed)
    (c' : ChannelId) : p'.index_ c' < 0 ↔ p.index_ c' < 0 := by
  cases hremove with
  | last => exact Iff.rfl
  | @swapped i n last channelAtEnd hindex howner hlength hi hlast hatEnd =>
    have hend := h.index_of_last hindex howner hlast hatEnd
    by_cases hc : c' = channelAtEnd
    · subst hc
      simp only [Function.update_self, hend]
      omega
    · simp only [Function.update_of_ne hc]

/-- What the calls tell of the poller: the channels handed over are the owners of its
    entries, and an index is left behind where an entry was. -/
structure Known (s : Watched Poller) : Prop where
  channels : multiplexer.Channels s
  indexed : s.poller.Indexed
  size : s.poller.channels_.size = s.poller.pollfds_.length
  owner : ∀ c, s.registration c = .registered →
    s.poller.channels_[(s.channel c).fd_]? = some c
  registered : ∀ fd c, s.poller.channels_[fd]? = some c →
    s.registration c = .registered ∧ (s.channel c).fd_ = fd
  fresh : ∀ c, s.registration c = .fresh ↔ s.poller.index_ c < 0

theorem known_initial (h : multiplexer.Initial s) : Known s := by
  have hpoller : s.poller = new := h.poller
  have hempty : ∀ fd : Int, s.poller.channels_[fd]? = none := by
    intro fd
    rw [hpoller, new, Std.ExtTreeMap.getElem?_empty]
  refine ⟨h.channels, hpoller ▸ indexed_new, by rw [hpoller]; rfl, ?_, ?_, ?_⟩
  · intro c hregistered
    rw [h.registration c] at hregistered
    cases hregistered
  · intro fd c howner
    rw [hempty] at howner
    cases howner
  · intro c
    rw [hpoller]
    exact iff_of_true (h.registration c) (by simp [new])

/-- A channel that was never handed over, or is handed over, can be updated. -/
theorem Known.update_goes_through (h : Known s) (hfd : channel.fd_ = (s.channel c).fd_)
    (hregistration : s.registration c ≠ .removed) :
    ∃ p', s.poller.updateChannel c channel = .ok p' := by
  apply updateChannel_goes_through h.indexed
  cases hcases : s.registration c with
  | fresh =>
    refine .inl ⟨(h.fresh c).mp hcases, ?_⟩
    by_contra hsome
    obtain ⟨c', howner⟩ := Option.ne_none_iff_exists'.mp hsome
    obtain ⟨hregistered, hfd'⟩ := h.registered _ c' howner
    have hc : c' = c := h.channels.distinct c' c (hfd'.trans hfd)
    rw [hc, hcases] at hregistered
    cases hregistered
  | registered =>
    rw [hfd]
    exact .inr (h.owner c hcases)
  | removed => exact absurd hcases hregistration

/-- A channel that was removed cannot be handed over again. -/
theorem Known.not_removed_of_update (h : Known s)
    (hupdate : UpdateChannel s.poller c channel p') : s.registration c ≠ .removed := by
  intro hremoved
  cases hupdate with
  | added hnew hfree =>
    have hfresh := (h.fresh c).mpr hnew
    rw [hremoved] at hfresh
    cases hfresh
  | changed hindex howner hentry hfd' =>
    have hregistered := (h.registered _ c howner).1
    rw [hremoved] at hregistered
    cases hregistered

theorem Known.updated (h : Known s) (hfd : channel.fd_ = (s.channel c).fd_)
    (hgo : multiplexer.updateChannel s.poller c channel = .ok (p', es)) :
    Known (s.updated p' c channel) := by
  have hupdate := update_eq_ok hgo
  obtain ⟨hindex, hothers⟩ := hupdate.index
  have hchannels : ∀ fd : Int, (s.updated p' c channel).poller.channels_[fd]? =
      if channel.fd_ = fd then some c else s.poller.channels_[fd]? := hupdate.channels
  have hnonneg : 0 ≤ channel.fd_ := hfd ▸ h.channels.descriptor c
  refine ⟨h.channels.step (.updated hfd hgo), hupdate.indexed h.indexed hnonneg,
    hupdate.size h.size, fun c' hregistered => ?_, fun fd c' howner => ?_, fun c' => ?_⟩
  · rw [hchannels, s.updated_fd p' hfd, hfd]
    by_cases hc : c' = c
    · rw [if_pos (by rw [hc]), hc]
    · rw [s.updated_registration_of_ne p' channel hc] at hregistered
      rw [if_neg (fun heq => hc (h.channels.distinct c c' heq).symm)]
      exact h.owner c' hregistered
  · rw [hchannels] at howner
    rw [s.updated_fd p' hfd]
    by_cases hsame : channel.fd_ = fd
    · rw [if_pos hsame, Option.some.injEq] at howner
      subst howner
      exact ⟨s.updated_registration_self p' channel, hfd ▸ hsame⟩
    · rw [if_neg hsame] at howner
      obtain ⟨hregistered, hfd'⟩ := h.registered fd c' howner
      have hc : c' ≠ c := by
        rintro rfl
        exact hsame (hfd.trans hfd')
      rw [s.updated_registration_of_ne p' channel hc]
      exact ⟨hregistered, hfd'⟩
  · by_cases hc : c' = c
    · subst hc
      rw [s.updated_registration_self]
      exact iff_of_false (by simp) (Int.not_lt.mpr hindex)
    · rw [s.updated_registration_of_ne p' channel hc, h.fresh c']
      exact iff_of_eq (congrArg (· < 0) (hothers c' hc).symm)

theorem Known.removed (h : Known s) (hremovable : s.Removable c)
    (hgo : multiplexer.removeChannel s.poller c (s.channel c) = .ok (p', es)) :
    Known (s.removed p' c) := by
  have hremove := remove_eq_ok hgo
  have hchannels : ∀ fd : Int, (s.removed p' c).poller.channels_[fd]? =
      if (s.channel c).fd_ = fd then none else s.poller.channels_[fd]? := hremove.channels
  refine ⟨h.channels.step (.removed hremovable hgo), hremove.indexed h.indexed,
    hremove.size h.size, fun c' hregistered => ?_, fun fd c' howner => ?_, fun c' => ?_⟩
  · have hc : c' ≠ c := by
      rintro rfl
      simp at hregistered
    rw [s.removed_registration_of_ne p' hc] at hregistered
    have hne : (s.channel c).fd_ ≠ (s.channel c').fd_ :=
      fun heq => hc (h.channels.distinct c c' heq).symm
    exact (hchannels _).trans ((if_neg hne).trans (h.owner c' hregistered))
  · rw [hchannels] at howner
    by_cases hsame : (s.channel c).fd_ = fd
    · rw [if_pos hsame] at howner
      cases howner
    · rw [if_neg hsame] at howner
      obtain ⟨hregistered, hfd'⟩ := h.registered fd c' howner
      have hc : c' ≠ c := by
        rintro rfl
        exact hsame hfd'
      rw [s.removed_registration_of_ne p' hc]
      exact ⟨hregistered, hfd'⟩
  · have hindex : (s.removed p' c).poller.index_ c' < 0 ↔ s.poller.index_ c' < 0 :=
      hremove.index h.indexed c'
    rw [hindex, ← h.fresh c']
    by_cases hc : c' = c
    · subst hc
      rw [s.removed_registration_self, hremovable.1]
      simp
    · rw [s.removed_registration_of_ne p' hc]

theorem Known.step (h : Known s) (hstep : Multiplexer.Step multiplexer s es s') : Known s' := by
  cases hstep with
  | updated hfd hupdate => exact h.updated hfd hupdate
  | removed hremovable hremove => exact h.removed hremovable hremove

theorem reach_known {C : StepCondition (Watched Poller) ChannelCall Empty} {tr : List Empty}
    (h : multiplexer.calls.Reach C tr s) : Known s :=
  Multiplexer.invariant_of_calls (fun _ => known_initial) (fun _ _ _ h hstep => h.step hstep) h

/-- No channel is handed over again once it was removed. -/
def neverRemoved : StepCondition (Watched Poller) ChannelCall Empty := fun _ s call =>
  match call with
  | .updateChannel c _ => s.registration c ≠ .removed
  | .removeChannel _ => True

instance (tr : List Empty) (s : Watched Poller) (call : ChannelCall) :
    Decidable (neverRemoved tr s call) :=
  match call with
  | .updateChannel c _ => inferInstanceAs (Decidable (s.registration c ≠ .removed))
  | .removeChannel _ => inferInstanceAs (Decidable True)

/-- The map, the array and the indexes that the channels keep fit together. -/
structure Consistent (s : Watched Poller) : Prop where
  registered : ∀ c, s.registration c = .registered ↔
    s.poller.channels_[(s.channel c).fd_]? = some c
  size : s.poller.channels_.size = s.poller.pollfds_.length
  entry : ∀ c, s.registration c = .registered →
    0 ≤ s.poller.index_ c ∧ s.poller.index_ c < s.poller.pollfds_.length ∧
      ∃ pfd, s.poller.pollfds_[(s.poller.index_ c).toNat]? = some pfd ∧
        (pfd.fd = (s.channel c).fd_ ∨ pfd.fd = -(s.channel c).fd_ - 1)
  distinct : ∀ c c', s.registration c = .registered → s.registration c' = .registered →
    s.poller.index_ c = s.poller.index_ c' → c = c'

theorem Known.consistent (h : Known s) : Consistent s where
  registered c := ⟨h.owner c, fun howner => (h.registered _ c howner).1⟩
  size := h.size
  entry c hregistered := by
    obtain ⟨_, i, pfd, hi, hentry, hpfd⟩ := h.indexed.entries _ c (h.owner c hregistered)
    have hbound := (List.getElem?_eq_some_iff.mp hentry).1
    refine ⟨by omega, by omega, pfd, by rw [hi, Int.toNat_natCast, hentry], ?_⟩
    rw [PollFd.channelFd] at hpfd
    split at hpfd <;> omega
  distinct c c' hregistered hregistered' hsame := by
    obtain ⟨_, i, _, hi, _⟩ := h.indexed.entries _ c (h.owner c hregistered)
    exact (h.indexed.index_unique (h.owner c hregistered) (h.owner c' hregistered') hi
      (hsame.symm.trans hi)).2

/-- Whatever channels are updated and removed, the index structure is consistent, the
    next call goes through, and a removal leaves the entries of the other channels as
    they are. -/
theorem consistency {tr : List Empty} (h : multiplexer.calls.Reach neverRemoved tr s) :
    Consistent s ∧
    (∀ c events, s.registration c ≠ .removed →
      ∃ s', multiplexer.calls.step s (.updateChannel c events) = .ok (s', [])) ∧
    ∀ c, s.Removable c →
      ∃ s', multiplexer.calls.step s (.removeChannel c) = .ok (s', []) ∧
        ∀ c', c' ≠ c → s.registration c' = .registered →
          (s'.poller.entryOf c').map PollFd.request = (s.poller.entryOf c').map PollFd.request := by
  have hknown := reach_known h
  refine ⟨hknown.consistent, fun c events hregistration => ?_, fun c hremovable => ?_⟩
  · set channel : Channel := { s.channel c with event_ := events } with hchannel
    have hfd : channel.fd_ = (s.channel c).fd_ := rfl
    obtain ⟨p', hgo⟩ := hknown.update_goes_through hfd hregistration
    have hupdate : multiplexer.updateChannel s.poller c channel = .ok (p', []) := by
      simp only [multiplexer, hgo, ok_bind]
      rfl
    refine ⟨s.updated p' c channel, ?_⟩
    simp only [Multiplexer.calls, Multiplexer.callStep, Multiplexer.update, ← hchannel, hupdate,
      ok_bind]
    rfl
  · obtain ⟨p', hgo⟩ := removeChannel_goes_through hknown.indexed (hknown.owner c hremovable.1)
      hremovable.2
    have hremove : multiplexer.removeChannel s.poller c (s.channel c) = .ok (p', []) := by
      simp only [multiplexer, hgo, ok_bind]
      rfl
    refine ⟨s.removed p' c, ?_, fun c' hc hregistered => ?_⟩
    · simp only [Multiplexer.calls, Multiplexer.callStep, Multiplexer.remove, enabled_of hremovable,
        hremove, ok_bind]
      rfl
    · exact ((remove_eq_ok hremove).keeps hknown.indexed hc (hknown.owner c' hregistered)).entry

/-- Three channels, of which the first one, with descriptor 0, is disabled and removed:
    the last one takes its place. -/
theorem consistency_zero : ∃ tr s, multiplexer.calls.Reach neverRemoved tr s ∧
    s.poller.index_ 2 = 0 ∧ Consistent s := by
  have hruns : multiplexer.calls.runsIn neverRemoved multiplexer.numbered
      [.updateChannel 0 1, .updateChannel 1 4, .updateChannel 2 1, .updateChannel 0 0,
        .removeChannel 0] (fun _ s => s.poller.index_ 2 = 0) = true := by
    decide +kernel
  obtain ⟨tr, s, hreach, hindex⟩ := Machine.exists_reachIn
    (Multiplexer.initial_numbered fun c => Int.natCast_nonneg c) hruns
  exact ⟨tr, s, hreach, of_decide_eq_true hindex, (consistency hreach).1⟩

end Poller

end TcpNet
