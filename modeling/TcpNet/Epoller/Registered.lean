import TcpNet.Epoller.Allowed

open Transition

namespace TcpNet

namespace Epoller

/-- The kernel watches exactly the channels with events, for those events. -/
def Registered (s : Watched Epoller) : Prop :=
  ∀ c, s.poller.kernel[(s.channel c).fd_]? =
    if (s.channel c).isNoneEvent then none else some ⟨(s.channel c).event_, c⟩

/-- A channel disables something only while it has events. -/
def disablesSome : StepCondition (Watched Epoller) OwnerCall (Watched Epoller) := fun _ s call =>
  match call with
  | .operate c operation => operation.isDisable = true → (s.channel c).isNoneEvent = false
  | .removeChannel _ => True

variable {p' : Epoller} {c : ChannelId} {s s' : Watched Epoller} {es : List EpollCtl}
  {operation : ChannelOperation} {tr : List (Watched Epoller)}

theorem reach_owners_known {C : StepCondition (Watched Epoller) OwnerCall (Watched Epoller)}
    (h : multiplexer.owners.Reach C tr s) : Known s :=
  Multiplexer.invariant_of_owners (fun _ => known_initial) (fun _ _ _ h hstep => h.step hstep) h

/-- Registered are the channels with the index `kAdded`, so these have to have events. -/
theorem Known.registered_iff (h : Known s) :
    Registered s ↔ ∀ c, s.poller.index_ c = kAdded → (s.channel c).isNoneEvent = false := by
  constructor
  · intro hall c hadded
    have hkernel := hall c
    rw [h.kernel c, if_pos hadded] at hkernel
    by_contra hnone
    rw [Bool.not_eq_false] at hnone
    rw [hnone, if_pos rfl] at hkernel
    cases hkernel
  · intro hall c
    rw [h.kernel c]
    by_cases hadded : s.poller.index_ c = kAdded
    · rw [if_pos hadded, hall c hadded]
      rfl
    · rw [if_neg hadded, h.absent c hadded]
      rfl

theorem registered_removed (h : Known s) (hregistered : Registered s)
    (hremovable : s.Removable c)
    (hgo : s.poller.removeChannel c (s.channel c) = .ok (p', es)) :
    Registered (s.removed p' c) := by
  have hremove := h.remove_eq_ok hremovable hgo
  rw [(h.removed hremovable hgo).registered_iff]
  intro c' hadded
  rw [s.removed_poller, hremove.index] at hadded
  have hc : c' ≠ c := by
    rintro rfl
    rw [Function.update_self] at hadded
    exact kNew_ne_kAdded hadded
  rw [Function.update_of_ne hc] at hadded
  exact h.registered_iff.mp hregistered c' hadded

/-- An operation keeps the set as it is to be exactly if it does not disable a channel
    that has no events. -/
theorem registered_updated_iff (h : Known s) (hregistered : Registered s)
    (hgo : s.poller.updateChannel c (operation.on (s.channel c)) = .ok (p', es)) :
    Registered (s.updated p' c (operation.on (s.channel c))) ↔
      (operation.isDisable = true → (s.channel c).isNoneEvent = false) := by
  have hfd := operation.on_fd (s.channel c)
  have hupdate := h.update_eq_ok hfd hgo
  have hself : p'.index_ c = s.poller.indexBehind c (operation.on (s.channel c)) :=
    (congrFun hupdate.index c).trans (Function.update_self ..)
  rw [(h.updated hfd hgo).registered_iff]
  constructor
  · intro hall hdisable
    by_contra hnone
    rw [Bool.not_eq_false] at hnone
    have hadded : p'.index_ c = kAdded := by
      rw [hself]
      refine if_neg fun hboth => ?_
      rw [h.registered_iff.mp hregistered c hboth.1] at hnone
      cases hnone
    have hsome := hall c hadded
    rw [s.updated_channel_self, ChannelOperation.isNoneEvent_on_disable hdisable hnone] at hsome
    cases hsome
  · intro hcond c' hadded
    rw [s.updated_poller] at hadded
    by_cases hc : c' = c
    · subst hc
      rw [s.updated_channel_self]
      cases hdisable : operation.isDisable with
      | false => exact ChannelOperation.isNoneEvent_on_enable hdisable (s.channel c')
      | true =>
        -- a channel with events was in the set, and leaves it if it has none now
        by_contra hnone
        rw [Bool.not_eq_false] at hnone
        have hbefore : s.poller.index_ c' = kAdded := by
          by_contra hne
          have hempty := h.absent c' hne
          rw [hcond hdisable] at hempty
          cases hempty
        rw [hself, indexBehind, if_pos ⟨hbefore, hnone⟩] at hadded
        exact kDelete_ne_kAdded hadded
    · rw [hupdate.index, Function.update_of_ne hc] at hadded
      rw [s.updated_channel_of_ne p' _ hc]
      exact h.registered_iff.mp hregistered c' hadded

theorem registered_step_iff (h : Known s) (hregistered : Registered s) {call : OwnerCall}
    {left : List (Watched Epoller)} (hstep : multiplexer.owners.step s call = .ok (s', left)) :
    Registered s' ↔ disablesSome tr s call := by
  simp only [Multiplexer.owners, bind_eq_ok_iff, pure_eq_ok_iff, Prod.mk.injEq] at hstep
  obtain ⟨⟨s', es⟩, hgo, rfl, _⟩ := hstep
  cases call with
  | removeChannel c =>
    obtain ⟨hremovable, p', hremove, rfl⟩ := Multiplexer.remove_eq_ok hgo
    exact iff_of_true (registered_removed h hregistered hremovable hremove) trivial
  | operate c operation =>
    obtain ⟨p', hupdate, rfl⟩ := Multiplexer.update_eq_ok hgo
    exact registered_updated_iff h hregistered hupdate

theorem registered_initial (h : multiplexer.Initial s) : Registered s := by
  rw [(known_initial h).registered_iff]
  intro c hadded
  rw [show s.poller = new from h.poller] at hadded
  exact absurd hadded kNew_ne_kAdded

/-- Behind every call the set of the kernel is what the channels ask for, in exactly the
    runs in which nothing is disabled on a channel without events. -/
theorem registers_iff (h : multiplexer.owners.Reach anyStep tr s) :
    (∀ s ∈ tr, Registered s) ↔ multiplexer.owners.Reach disablesSome tr s := by
  refine Multiplexer.holds_iff (fun _ => registered_initial) ?_ h
  intro tr s call s' left hreach hregistered hstep
  exact registered_step_iff (reach_owners_known hreach) hregistered hstep

instance (tr : List (Watched Epoller)) (s : Watched Epoller) (call : OwnerCall) :
    Decidable (disablesSome tr s call) :=
  match call with
  | .operate c operation =>
    inferInstanceAs (Decidable (operation.isDisable = true → (s.channel c).isNoneEvent = false))
  | .removeChannel _ => inferInstanceAs (Decidable True)

/-- A channel goes out of the set and comes back before it is removed. -/
theorem registers_iff_back : ∃ tr s, multiplexer.owners.Reach disablesSome tr s ∧
    tr.length = 6 ∧ ∀ s ∈ tr, Registered s := by
  have hruns : multiplexer.owners.runsIn disablesSome multiplexer.numbered
      [.operate 0 .enableReading, .operate 0 .disableAll, .operate 1 .enableWriting,
        .operate 0 .enableReading, .operate 0 .disableAll, .removeChannel 0]
      (fun tr _ => tr.length = 6) = true := by
    decide +kernel
  obtain ⟨tr, s, hreach, hlength⟩ := Machine.exists_reachIn
    (Multiplexer.initial_numbered fun _ => trivial) hruns
  exact ⟨tr, s, hreach, of_decide_eq_true hlength, (registers_iff hreach.any).mpr hreach⟩

/-- A channel that is disabled twice is in the set again. -/
theorem registers_again :
    ¬ ∀ (tr : List (Watched Epoller)) (s : Watched Epoller),
      multiplexer.owners.Reach anyStep tr s → ∀ s ∈ tr, Registered s := by
  intro hall
  have hruns : multiplexer.owners.runs multiplexer.numbered
      [.operate 5 .enableReading, .operate 5 .disableAll, .operate 5 .disableAll]
      (fun _ s => s.poller.kernel[(5 : Int)]? = some ⟨0, 5⟩ ∧
        (s.channel 5).isNoneEvent = true ∧ (s.channel 5).fd_ = 5) = true := by
    decide +kernel
  obtain ⟨tr, s, hreach, htest⟩ := Machine.exists_reach
    (Multiplexer.initial_numbered fun _ => trivial) hruns
  obtain ⟨hkernel, hnone, hfd⟩ := of_decide_eq_true htest
  have hregistered :=
    Multiplexer.holds_of_trace (fun _ => registered_initial) hreach (hall tr s hreach)
  have habsent := hregistered 5
  rw [hfd, hkernel, hnone, if_pos rfl] at habsent
  cases habsent

end Epoller

end TcpNet
