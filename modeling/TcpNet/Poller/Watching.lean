import TcpNet.Poller.Consistency

open Transition

namespace TcpNet

namespace Poller

/-- The poller watches a channel for its events, or not at all if it has none. -/
def WatchedAs (s : Watched Poller) (c : ChannelId) : Prop :=
  ∃ pfd, s.poller.entryOf c = some pfd ∧
    ((s.channel c).isNoneEvent = false →
      pfd.fd = (s.channel c).fd_ ∧ pfd.events.toInt = (s.channel c).event_.toInt) ∧
    ((s.channel c).isNoneEvent = true → pfd.fd < 0)

def Watches (s : Watched Poller) : Prop :=
  ∀ c, s.registration c = .registered → WatchedAs s c

/-- A channel enables something only before it is handed over or while it has events,
    and disables something only behind it. -/
def keepsWatched : StepCondition (Watched Poller) OwnerCall (Watched Poller) := fun _ s call =>
  match call with
  | .operate c operation =>
    if operation.isDisable then s.registration c ≠ .fresh
    else s.registration c = .registered → (s.channel c).isNoneEvent = false
  | .removeChannel _ => True

variable {p p' : Poller} {c c' : ChannelId} {channel : Channel} {s s' : Watched Poller}
  {es : List Empty} {operation : ChannelOperation} {tr : List (Watched Poller)}

theorem reach_owners_known {C : StepCondition (Watched Poller) OwnerCall (Watched Poller)}
    (h : multiplexer.owners.Reach C tr s) : Known s :=
  Multiplexer.invariant_of_owners (fun _ => known_initial) (fun _ _ _ h hstep => h.step hstep) h

theorem toInt_setWidth {events : Events} (h : events.toNat < 8) :
    (events.setWidth 16).toInt = events.toInt := by
  have hnat : (events.setWidth 16).toNat = events.toNat := by
    rw [BitVec.toNat_setWidth, Nat.mod_eq_of_lt (by omega)]
  rw [BitVec.toInt_eq_toNat_of_lt (by omega), BitVec.toInt_eq_toNat_of_lt (by omega), hnat]

theorem isNoneEvent_iff : channel.isNoneEvent = true ↔ channel.event_ = Channel.kNoneEvent :=
  decide_eq_true_iff

/-- What `updateChannel` leaves in the entry of its channel. -/
theorem UpdateChannel.entry (hupdate : UpdateChannel p c channel p') :
    ∃ pfd', p'.entryOf c = some pfd' ∧ pfd'.events = channel.event_.setWidth 16 ∧
      (p.index_ c < 0 ∧ pfd'.fd = channel.fd_ ∨
        ∃ pfd, p.entryOf c = some pfd ∧
          pfd'.fd = if channel.isNoneEvent then -channel.fd_ - 1 else pfd.fd) := by
  cases hupdate with
  | added hnew hfree =>
    refine ⟨⟨channel.fd_, channel.event_.setWidth 16, 0⟩, ?_, rfl, .inl ⟨hnew, rfl⟩⟩
    exact (entryOf_of_index (Function.update_self ..)).trans List.getElem?_concat_length
  | @changed i pfd hindex howner hentry hfd =>
    have hbound := (List.getElem?_eq_some_iff.mp hentry).1
    refine ⟨⟨if channel.isNoneEvent then -channel.fd_ - 1 else pfd.fd,
      channel.event_.setWidth 16, 0⟩, ?_, rfl, .inr ⟨pfd, ?_, rfl⟩⟩
    · refine Eq.trans (entryOf_of_index (by exact hindex)) ?_
      exact List.getElem?_set_self hbound
    · exact (entryOf_of_index hindex).trans hentry

/-- A channel is watched as before where its entry asks for the same. -/
theorem WatchedAs.of_keeps {fd : Int} (h : WatchedAs s c)
    (hkeeps : Keeps s.poller s'.poller c fd) (hsame : s'.channel c = s.channel c) :
    WatchedAs s' c := by
  obtain ⟨pfd, hentry, hevents, hnone⟩ := h
  have hrequest := hkeeps.entry
  rw [hentry, Option.map_some, Option.map_eq_some_iff] at hrequest
  obtain ⟨pfd', hentry', hrequest⟩ := hrequest
  have hfd : pfd'.fd = pfd.fd := congrArg Prod.fst hrequest
  have hsameEvents : pfd'.events = pfd.events := congrArg Prod.snd hrequest
  refine ⟨pfd', hentry', ?_, ?_⟩
  · rw [hsame, hfd, hsameEvents]
    exact hevents
  · rw [hsame, hfd]
    exact hnone

/-- A channel that is handed over for the first time is watched exactly if the
    operation enables something. -/
theorem watchedAs_of_fresh (h : Known s) (hsmall : (s.channel c).event_.toNat < 8)
    (hfresh : s.registration c = .fresh)
    (hgo : multiplexer.updateChannel s.poller c (operation.on (s.channel c)) = .ok (p', es)) :
    WatchedAs (s.updated p' c (operation.on (s.channel c))) c ↔ operation.isDisable = false := by
  obtain ⟨pfd', hentry, hevents, hfd⟩ := (update_eq_ok hgo).entry
  have hnew := (h.fresh c).mp hfresh
  have hown : pfd'.fd = (s.channel c).fd_ := by
    obtain ⟨_, hfd⟩ | ⟨pfd, hold, _⟩ := hfd
    · exact hfd.trans (operation.on_fd _)
    · rw [entryOf, if_neg (by omega)] at hold
      cases hold
  have hnonneg := h.channels.descriptor c
  have hsmall' := ChannelOperation.toNat_on_lt hsmall operation
  unfold WatchedAs
  rw [s.updated_channel_self p' _]
  constructor
  · rintro ⟨pfd, hsome, _, hnone⟩
    by_contra hdisable
    rw [Bool.not_eq_false] at hdisable
    obtain rfl := Option.some.inj (hentry.symm.trans hsome)
    have hempty := isNoneEvent_iff.mpr (h.channels.fresh c hfresh)
    have hneg := hnone (ChannelOperation.isNoneEvent_on_disable hdisable hempty)
    have hpos : 0 ≤ (s.channel c).fd_ := hnonneg
    omega
  · intro henable
    have hsome := ChannelOperation.isNoneEvent_on_enable henable (s.channel c)
    refine ⟨pfd', hentry, fun _ => ⟨hown.trans (operation.on_fd _).symm, ?_⟩, ?_⟩
    · rw [hevents, toInt_setWidth hsmall']
    · rw [hsome]
      exact fun hnone => absurd hnone Bool.false_ne_true

/-- A channel that is watched, and is updated, is watched exactly if nothing is enabled
    while it has no events. -/
theorem watchedAs_of_registered (h : Known s) (hsmall : (s.channel c).event_.toNat < 8)
    (hregistered : s.registration c = .registered) (hwatched : WatchedAs s c)
    (hgo : multiplexer.updateChannel s.poller c (operation.on (s.channel c)) = .ok (p', es)) :
    WatchedAs (s.updated p' c (operation.on (s.channel c))) c ↔
      (operation.isDisable = false → (s.channel c).isNoneEvent = false) := by
  obtain ⟨pfd', hentry, hevents, hfd⟩ := (update_eq_ok hgo).entry
  obtain ⟨pfd, hold, hsome, hnone⟩ := hwatched
  have hkept : pfd'.fd = if (operation.on (s.channel c)).isNoneEvent then
      -(operation.on (s.channel c)).fd_ - 1 else pfd.fd := by
    obtain ⟨hnew, _⟩ | ⟨pfd'', hold', hfd⟩ := hfd
    · have hfresh := (h.fresh c).mpr hnew
      rw [hregistered] at hfresh
      cases hfresh
    · rw [hold, Option.some.injEq] at hold'
      rw [hold']
      exact hfd
  have hnonneg : 0 ≤ (s.channel c).fd_ := h.channels.descriptor c
  have hsmall' := ChannelOperation.toNat_on_lt hsmall operation
  rw [operation.on_fd] at hkept
  unfold WatchedAs
  rw [s.updated_channel_self p' _]
  constructor
  · rintro ⟨pfd'', hentry', hsome', _⟩ henable
    by_contra hempty
    rw [Bool.not_eq_false] at hempty
    have hon := ChannelOperation.isNoneEvent_on_enable henable (s.channel c)
    obtain rfl := Option.some.inj (hentry.symm.trans hentry')
    rw [operation.on_fd, hkept, hon] at hsome'
    have hneg := hnone hempty
    have hsame : pfd.fd = (s.channel c).fd_ := (hsome' rfl).1
    omega
  · intro hcond
    refine ⟨pfd', hentry, fun hon => ?_, fun hon => ?_⟩
    · have hbefore : (s.channel c).isNoneEvent = false := by
        cases hdisable : operation.isDisable with
        | false => exact hcond hdisable
        | true =>
          by_contra hempty
          rw [Bool.not_eq_false] at hempty
          rw [ChannelOperation.isNoneEvent_on_disable hdisable hempty] at hon
          cases hon
      rw [hon] at hkept
      refine ⟨?_, by rw [hevents, toInt_setWidth hsmall']⟩
      rw [operation.on_fd, hkept]
      exact (hsome hbefore).1
    · rw [hon, if_pos rfl] at hkept
      omega

theorem watchedAs_of_updated (h : Known s)
    (hgo : multiplexer.updateChannel s.poller c channel = .ok (p', es)) (hc : c' ≠ c)
    (hregistered : s.registration c' = .registered) (hwatched : WatchedAs s c') :
    WatchedAs (s.updated p' c channel) c' := by
  have hkeeps := (update_eq_ok hgo).keeps h.indexed hc (h.owner c' hregistered)
  exact hwatched.of_keeps hkeeps (s.updated_channel_of_ne p' channel hc)

theorem watches_removed (h : Known s) (hwatches : Watches s)
    (hgo : multiplexer.removeChannel s.poller c (s.channel c) = .ok (p', es)) :
    Watches (s.removed p' c) := by
  intro c' hregistered
  have hc : c' ≠ c := by
    rintro rfl
    simp at hregistered
  rw [s.removed_registration_of_ne p' hc] at hregistered
  have hkeeps := (remove_eq_ok hgo).keeps h.indexed hc (h.owner c' hregistered)
  exact (hwatches c' hregistered).of_keeps hkeeps rfl

/-- A call keeps all channels watched as they are to be exactly if it is in time. -/
theorem watches_step_iff (h : Known s) (hsmall : ∀ c, (s.channel c).event_.toNat < 8)
    (hwatches : Watches s) {call : OwnerCall} {left : List (Watched Poller)}
    (hstep : multiplexer.owners.step s call = .ok (s', left)) :
    Watches s' ↔ keepsWatched tr s call := by
  simp only [Multiplexer.owners, bind_eq_ok_iff, pure_eq_ok_iff, Prod.mk.injEq] at hstep
  obtain ⟨⟨s', es⟩, hgo, rfl, _⟩ := hstep
  cases call with
  | removeChannel c =>
    obtain ⟨_, p', hremove, rfl⟩ := Multiplexer.remove_eq_ok hgo
    exact iff_of_true (watches_removed h hwatches hremove) trivial
  | operate c operation =>
    obtain ⟨p', hupdate, rfl⟩ := Multiplexer.update_eq_ok hgo
    have hself : Watches (s.updated p' c (operation.on (s.channel c))) ↔
        WatchedAs (s.updated p' c (operation.on (s.channel c))) c := by
      constructor
      · exact fun hall => hall c (s.updated_registration_self p' _)
      · intro hself c' hregistered
        by_cases hc : c' = c
        · exact hc ▸ hself
        · rw [s.updated_registration_of_ne p' _ hc] at hregistered
          exact watchedAs_of_updated h hupdate hc hregistered
            (hwatches c' hregistered)
    rw [hself]
    cases hcases : s.registration c with
    | fresh =>
      rw [watchedAs_of_fresh h (hsmall c) hcases hupdate]
      simp [keepsWatched, hcases]
    | registered =>
      rw [watchedAs_of_registered h (hsmall c) hcases (hwatches c hcases) hupdate]
      simp [keepsWatched, hcases]
    | removed => exact absurd hcases (h.not_removed_of_update (update_eq_ok hupdate))

theorem watches_initial (h : multiplexer.Initial s) : Watches s := by
  intro c hregistered
  rw [h.registration c] at hregistered
  cases hregistered

/-- Behind every call the poller watches what its channels ask for, in exactly the runs
    in which nothing is enabled on a channel that was disabled altogether, and nothing
    disabled on one that was never handed over. -/
theorem watches_iff (h : multiplexer.owners.Reach anyStep tr s) :
    (∀ s ∈ tr, Watches s) ↔ multiplexer.owners.Reach keepsWatched tr s := by
  refine Multiplexer.holds_iff (fun _ => watches_initial) ?_ h
  intro tr s call s' left hreach hwatches hstep
  exact watches_step_iff (reach_owners_known hreach) (Multiplexer.toNat_lt_of_owners hreach)
    hwatches hstep

instance (tr : List (Watched Poller)) (s : Watched Poller) (call : OwnerCall) :
    Decidable (keepsWatched tr s call) :=
  match call with
  | .operate c operation =>
    inferInstanceAs (Decidable (if operation.isDisable then s.registration c ≠ .fresh
      else s.registration c = .registered → (s.channel c).isNoneEvent = false))
  | .removeChannel _ => inferInstanceAs (Decidable True)

/-- A channel reads, one reads and writes and reads again, and the first one goes. -/
theorem watches_iff_two : ∃ tr s, multiplexer.owners.Reach keepsWatched tr s ∧ tr.length = 6 ∧
    ∀ s ∈ tr, Watches s := by
  have hruns : multiplexer.owners.runsIn keepsWatched multiplexer.numbered
      [.operate 0 .enableReading, .operate 1 .enableReading, .operate 1 .enableWriting,
        .operate 1 .disableWriting, .operate 0 .disableAll, .removeChannel 0]
      (fun tr _ => tr.length = 6) = true := by
    decide +kernel
  obtain ⟨tr, s, hreach, hlength⟩ := Machine.exists_reachIn
    (Multiplexer.initial_numbered fun c => Int.natCast_nonneg c) hruns
  exact ⟨tr, s, hreach, of_decide_eq_true hlength, (watches_iff hreach.any).mpr hreach⟩

/-- A channel that was disabled and is enabled again is not watched. -/
theorem watches_again :
    ¬ ∀ (tr : List (Watched Poller)) (s : Watched Poller),
      multiplexer.owners.Reach anyStep tr s → ∀ s ∈ tr, Watches s := by
  intro hall
  have hruns : multiplexer.owners.runs multiplexer.numbered
      [.operate 5 .enableReading, .operate 5 .disableAll, .operate 5 .enableReading]
      (fun _ s => s.registration 5 = .registered ∧ (s.channel 5).isNoneEvent = false ∧
        (s.poller.entryOf 5).map PollFd.fd = some (-6) ∧ (s.channel 5).fd_ = 5) = true := by
    decide +kernel
  obtain ⟨tr, s, hreach, htest⟩ := Machine.exists_reach
    (Multiplexer.initial_numbered fun c => Int.natCast_nonneg c) hruns
  obtain ⟨hregistered, hsome, hentry, hfd⟩ := of_decide_eq_true htest
  have hwatches := Multiplexer.holds_of_trace (fun _ => watches_initial) hreach (hall tr s hreach)
  obtain ⟨pfd, hpfd, hevents, _⟩ := hwatches 5 hregistered
  rw [hpfd, Option.map_some, Option.some.injEq] at hentry
  have hsame := (hevents hsome).1
  omega

end Poller

end TcpNet
