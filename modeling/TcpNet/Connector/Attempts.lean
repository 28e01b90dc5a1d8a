import TcpNet.Connector.Spec
import TcpNet.Library.Trace

open Transition Trace

namespace TcpNet

/-- An attempt to connect is over with `retry`, or is passed over by `restart()`. -/
def ConnectorEvent.endsAttempt : ConnectorEvent → Bool
  | .retry => true
  | .restarted => true
  | _ => false

namespace Connector

/-- `startInloop` is entered in the state `kDisconnect` only, and `connecting` with an empty
    `channel_` only. -/
def OneAttempt (tr : List ConnectorEvent) : Prop :=
  (∀ state, .startInloop state ∈ tr → state = .kDisconnect) ∧
    ∀ channel, .connecting channel ∈ tr → channel = none

/-- The last attempt that `::connect` let stand is over. -/
def Settled (tr : List ConnectorEvent) : Prop :=
  .connecting none ∉ sinceLast ConnectorEvent.endsAttempt tr

/-- The `resetChannel` of the last attempt that `::connect` let stand has run. -/
def Cleared (tr : List ConnectorEvent) : Prop :=
  .connecting none ∉ sinceLast (· = .resetChannel) tr

/-- Whether an action leads to `startInloop` without a change of `state_`. -/
def startsInloop (s : Connector) : ConnectorAction → Bool
  | .start _ => true
  | .timer _ => true
  | .callFunctor _ => s.functors.head? = some .startInloop
  | _ => false

/-- Whether an action is an attempt that `::connect` lets stand. -/
def attempts (s : Connector) : ConnectorAction → Bool
  | .start ret => keepsWaiting ret
  | .restart ret => keepsWaiting ret
  | .timer ret => s.connect_ && keepsWaiting ret
  | .callFunctor ret => s.functors.head? = some .startInloop && s.connect_ && keepsWaiting ret
  | _ => false

/-- `start()` and the retry timers wait for the end of the last attempt, and every attempt
    that `::connect` lets stand waits for `resetChannel`. -/
def inTurn : StepCondition Connector ConnectorAction ConnectorEvent := fun tr s a =>
  (s.startsInloop a = true → Settled tr) ∧ (s.attempts a = true → Cleared tr)

instance (tr : List ConnectorEvent) : Decidable (Settled tr) :=
  inferInstanceAs (Decidable (_ ∉ _))

instance (tr : List ConnectorEvent) : Decidable (Cleared tr) :=
  inferInstanceAs (Decidable (_ ∉ _))

instance (tr : List ConnectorEvent) (s : Connector) (a : ConnectorAction) :
    Decidable (inTurn tr s a) := inferInstanceAs (Decidable (_ ∧ _))

variable {s s' : Connector} {tr es : List ConnectorEvent}

theorem oneAttempt_append_iff : OneAttempt (tr ++ es) ↔ OneAttempt tr ∧ OneAttempt es := by
  simp only [OneAttempt, List.mem_append]
  constructor
  · rintro ⟨hstart, hconnecting⟩
    exact ⟨⟨fun state hmem => hstart state (.inl hmem),
        fun channel hmem => hconnecting channel (.inl hmem)⟩,
      fun state hmem => hstart state (.inr hmem),
      fun channel hmem => hconnecting channel (.inr hmem)⟩
  · rintro ⟨⟨hstart, hconnecting⟩, hstart', hconnecting'⟩
    exact ⟨fun state hmem => hmem.elim (hstart state) (hstart' state),
      fun channel hmem => hmem.elim (hconnecting channel) (hconnecting' channel)⟩

/-- What the state and the channel tell of the history. -/
structure Tells (tr : List ConnectorEvent) (s : Connector) : Prop where
  state : s.state_ = .kDisconnect ↔ Settled tr
  channel : s.channel_ = none ↔ Cleared tr

/-- Events that neither begin an attempt nor end one, nor reset the channel. -/
def Quiet (es : List ConnectorEvent) : Prop :=
  ∀ e ∈ es, e ≠ .connecting none ∧ e.endsAttempt = false ∧ e ≠ .resetChannel

theorem OnlyTimers.quiet (h : OnlyTimers es) (sockfd : Int) : Quiet (.closed sockfd :: es) := by
  intro e hmem
  rcases List.mem_cons.mp hmem with rfl | hmem
  · exact ⟨nofun, rfl, nofun⟩
  · obtain ⟨delayMs, rfl⟩ := h e hmem
    exact ⟨nofun, rfl, nofun⟩

theorem notMem_sinceLast_of_quiet {q : ConnectorEvent → Bool} (h : Quiet es) :
    .connecting none ∉ sinceLast q es := by
  intro hmem
  refine (h _ ?_).1 rfl
  exact List.mem_reverse.mp ((List.takeWhile_sublist _).subset (List.mem_reverse.mp hmem))

theorem settled_append_of_quiet (h : Quiet es) : Settled (tr ++ es) ↔ Settled tr := by
  have hnone : ∀ e' ∈ es, e'.endsAttempt = false := fun e' hmem => (h e' hmem).2.1
  simp only [Settled, mem_sinceLast_append, notMem_sinceLast_of_quiet h, false_or,
    and_iff_left hnone]

theorem cleared_append_of_quiet (h : Quiet es) : Cleared (tr ++ es) ↔ Cleared tr := by
  have hnone : ∀ e' ∈ es, decide (e' = .resetChannel) = false :=
    fun e' hmem => decide_eq_false (h e' hmem).2.2
  simp only [Cleared, mem_sinceLast_append, notMem_sinceLast_of_quiet h, false_or,
    and_iff_left hnone]

theorem Tells.quiet (h : Tells tr s) (hes : Quiet es) (hstate : s'.state_ = .kDisconnect ↔
    s.state_ = .kDisconnect) (hchannel : s'.channel_ = none ↔ s.channel_ = none) :
    Tells (tr ++ es) s' where
  state := by rw [hstate, h.state, settled_append_of_quiet hes]
  channel := by rw [hchannel, h.channel, cleared_append_of_quiet hes]

/-- An attempt is given up, and a quiet rest follows. -/
theorem Tells.retry (h : Tells tr s) (before after : List ConnectorEvent) (hbefore : Quiet before)
    (hafter : Quiet after) (hstate : s'.state_ = .kDisconnect)
    (hchannel : s'.channel_ = none ↔ s.channel_ = none) :
    Tells (tr ++ (before ++ .retry :: after)) s' where
  state := by
    refine iff_of_true hstate ?_
    rw [Settled, ← List.append_assoc, sinceLast_append_cons rfl (fun e hmem => (hafter e hmem).2.1)]
    exact fun hmem => (hafter _ hmem).1 rfl
  channel := by
    have hquiet : ∀ e ∈ before ++ .retry :: after, decide (e = .resetChannel) = false := by
      intro e hmem
      rcases List.mem_append.mp hmem with hmem | hmem
      · exact decide_eq_false (hbefore e hmem).2.2
      · rcases List.mem_cons.mp hmem with rfl | hmem
        · rfl
        · exact decide_eq_false (hafter e hmem).2.2
    have hnone : .connecting none ∉ sinceLast (fun e => decide (e = ConnectorEvent.resetChannel))
        (before ++ .retry :: after) := by
      rw [mem_sinceLast_append, mem_sinceLast_cons]
      simp [notMem_sinceLast_of_quiet hafter, notMem_sinceLast_of_quiet hbefore]
    simp only [hchannel, h.channel, Cleared, mem_sinceLast_append, hnone, false_or,
      and_iff_left hquiet]

/-- An attempt stands. -/
theorem Tells.connecting (before : List ConnectorEvent) {channel : Channel}
    (hstate : s'.state_ = .kConnecting) (hchannel : s'.channel_ = some channel) :
    Tells (tr ++ (before ++ [.connecting none])) s' where
  state := by
    refine iff_of_false (by rw [hstate]; nofun) (fun hsettled => hsettled ?_)
    simp [mem_sinceLast_append, mem_sinceLast_cons, ConnectorEvent.endsAttempt]
  channel := by
    refine iff_of_false (by rw [hchannel]; nofun) (fun hcleared => hcleared ?_)
    simp [mem_sinceLast_append, mem_sinceLast_cons]

theorem Tells.restarted (h : Tells tr s) (hstate : s'.state_ = .kDisconnect)
    (hchannel : s'.channel_ = s.channel_) : Tells (tr ++ [.restarted]) s' where
  state := by
    refine iff_of_true hstate ?_
    simp [Settled, mem_sinceLast_append, mem_sinceLast_cons, ConnectorEvent.endsAttempt]
  channel := by
    rw [hchannel, h.channel]
    simp [Cleared, mem_sinceLast_append, mem_sinceLast_cons]

theorem Tells.resetChannel (h : Tells tr s) (hstate : s'.state_ = s.state_)
    (hchannel : s'.channel_ = none) : Tells (tr ++ [.resetChannel]) s' where
  state := by
    rw [hstate, h.state]
    simp [Settled, mem_sinceLast_append, mem_sinceLast_cons, ConnectorEvent.endsAttempt]
  channel := by
    refine iff_of_true hchannel ?_
    simp [Cleared, mem_sinceLast_append, mem_sinceLast_cons]

theorem tells_new : Tells [] new := ⟨by simp [new, Settled], by simp [new, Cleared]⟩

theorem StartInloop.tells {ret : Errno} (hstart : StartInloop s ret es s') (h : Tells tr s)
    (hrunning : s'.aborted = false) : Tells (tr ++ es) s' := by
  cases hstart with
  | late hstate => cases hrunning
  | stopped hstate hconnect =>
    exact h.quiet (by simp [Quiet, ConnectorEvent.endsAttempt]) Iff.rfl Iff.rfl
  | connects hstate hconnect hes =>
    cases hes with
    | waits hret hchannel =>
      exact .connecting [.startInloop .kDisconnect, .created s.sockets] rfl rfl
    | second hret hchannel => cases hrunning
    | @retries timers retryDelayMs more hret hmore =>
      refine h.retry [.startInloop .kDisconnect, .created s.sockets] (.closed s.sockets :: more)
        (by simp [Quiet, ConnectorEvent.endsAttempt]) (hmore.quiet s.sockets) rfl Iff.rfl
    | givesUp hret =>
      exact h.quiet (by simp [Quiet, ConnectorEvent.endsAttempt]) Iff.rfl Iff.rfl

theorem Handled.tells (hhandled : Handled s es s') (h : Tells tr s) : Tells (tr ++ es) s' := by
  cases hhandled with
  | nothing => exact h.quiet nofun Iff.rfl Iff.rfl
  | @retries channel timers retryDelayMs more hchannel hmonitored hmore =>
    refine h.retry [] (.closed channel.fd_ :: more) nofun (hmore.quiet channel.fd_) rfl ?_
    simp [retried, release, hchannel]
  | connected hchannel hmonitored hstate hconnect =>
    exact h.quiet (by simp [Quiet, ConnectorEvent.endsAttempt]) (by simp [setState, hstate])
      (by simp [setState, release, hchannel])
  | dropped hchannel hmonitored hstate hconnect =>
    exact h.quiet (by simp [Quiet, ConnectorEvent.endsAttempt]) (by simp [setState, hstate])
      (by simp [setState, release, hchannel])

theorem Step.tells {a : ConnectorAction} (hstep : Step s a es s') (h : Tells tr s)
    (hrunning : s'.aborted = false) : Tells (tr ++ es) s' := by
  cases hstep with
  | start hstart => exact hstart.tells ⟨h.state, h.channel⟩ hrunning
  | startElsewhere => exact h.quiet nofun Iff.rfl Iff.rfl
  | queueStart => exact h.quiet nofun Iff.rfl Iff.rfl
  | stop => exact h.quiet nofun Iff.rfl Iff.rfl
  | restart hstart =>
    rw [List.append_cons]
    exact hstart.tells (h.restarted rfl rfl) hrunning
  | timer hstart => exact hstart.tells ⟨h.state, h.channel⟩ hrunning
  | callStart hfunctors hstart => exact hstart.tells ⟨h.state, h.channel⟩ hrunning
  | callReset hfunctors => exact h.resetChannel rfl rfl
  | handleEvent hmonitored hhandled => exact hhandled.tells h

theorem OnlyTimers.oneAttempt (h : OnlyTimers es) : OneAttempt es :=
  ⟨fun _ hmem => absurd hmem (h.notMem nofun), fun _ hmem => absurd hmem (h.notMem nofun)⟩

/-- The two assertions, by what they look at. -/
theorem StartInloop.oneAttempt_iff {ret : Errno} (hstart : StartInloop s ret es s') :
    OneAttempt es ↔ s.state_ = .kDisconnect ∧
      (s.connect_ = true → keepsWaiting ret = true → s.channel_ = none) := by
  cases hstart with
  | late hstate => simp [OneAttempt, hstate]
  | stopped hstate hconnect => simp [OneAttempt, hstate, hconnect]
  | connects hstate hconnect hes =>
    cases hes with
    | waits hret hchannel => simp [OneAttempt, hstate, hchannel]
    | second hret hchannel => simp [OneAttempt, hconnect, hret, hchannel]
    | @retries timers retryDelayMs more hret hmore =>
      have hfirst : OneAttempt [.startInloop .kDisconnect, .created s.sockets, .retry,
          .closed s.sockets] := by simp [OneAttempt]
      refine iff_of_true (oneAttempt_append_iff.mpr ⟨hfirst, hmore.oneAttempt⟩) ⟨hstate, ?_⟩
      rw [hret]
      nofun
    | givesUp hret => simp [OneAttempt, hstate, hret]

theorem Handled.oneAttempt (hhandled : Handled s es s') : OneAttempt es := by
  cases hhandled with
  | nothing => simp [OneAttempt]
  | @retries channel timers retryDelayMs more hchannel hmonitored hmore =>
    have hfirst : OneAttempt [.retry, .closed channel.fd_] := by simp [OneAttempt]
    exact oneAttempt_append_iff.mpr ⟨hfirst, hmore.oneAttempt⟩
  | connected hchannel hmonitored hstate hconnect => simp [OneAttempt]
  | dropped hchannel hmonitored hstate hconnect => simp [OneAttempt]

/-- A step passes both assertions exactly when it comes in turn. -/
theorem Step.oneAttempt_iff {a : ConnectorAction} (hstep : Step s a es s') (h : Tells tr s) :
    OneAttempt es ↔ inTurn tr s a := by
  have hnone : OneAttempt [] := by simp [OneAttempt]
  rw [inTurn, ← h.state, ← h.channel]
  cases hstep with
  | start hstart => simp [hstart.oneAttempt_iff, startsInloop, attempts]
  | startElsewhere => simp [hnone, startsInloop, attempts]
  | queueStart => simp [hnone, startsInloop, attempts]
  | stop => simp [hnone, startsInloop, attempts]
  | restart hstart =>
    have hfirst : OneAttempt [.restarted] := by simp [OneAttempt]
    rw [← List.singleton_append, oneAttempt_append_iff, hstart.oneAttempt_iff]
    simp [hfirst, startsInloop, attempts]
  | timer hstart => simp [hstart.oneAttempt_iff, startsInloop, attempts]
  | callStart hfunctors hstart =>
    simp [hstart.oneAttempt_iff, startsInloop, attempts, hfunctors]
  | callReset hfunctors => simp [OneAttempt, startsInloop, attempts, hfunctors]
  | handleEvent hmonitored hhandled => simp [hhandled.oneAttempt, startsInloop, attempts]

theorem reach_tells {C : StepCondition Connector ConnectorAction ConnectorEvent}
    (h : machine.Reach C tr s) : s.aborted = false → Tells tr s := by
  refine Machine.Reach.invariant (I := fun tr s => s.aborted = false → Tells tr s) ?_ ?_ h
  · rintro s rfl _
    exact tells_new
  · intro tr s a s' es hreach htells _ hstep hrunning'
    obtain ⟨hrunning, hcases⟩ := step_cases (reach_wellFormed hreach) hstep
    exact hcases.tells (htells hrunning) hrunning'

/-- In a run both assertions always hold if and only if every step comes in turn. -/
theorem one_attempt_iff (h : machine.Reach anyStep tr s) :
    OneAttempt tr ↔ machine.Reach inTurn tr s := by
  refine h.iff_condition (by simp [OneAttempt])
    (fun tr es hall => (oneAttempt_append_iff.mp hall).1) ?_
  intro tr s a s' es hreach hbefore hstep
  obtain ⟨hrunning, hcases⟩ := step_cases (reach_wellFormed hreach) hstep
  rw [oneAttempt_append_iff, and_iff_right hbefore]
  exact hcases.oneAttempt_iff (reach_tells hreach hrunning)

/-- The socket of a `restart()` from `connectCallback_` is refused at once, and its retry
    timer fires behind `resetChannel`. -/
theorem one_attempt_after_restart :
    ∃ (tr : List ConnectorEvent) (s : Connector), machine.Reach inTurn tr s ∧
      .restarted ∈ tr ∧ s.state_ = .kConnecting ∧ OneAttempt tr := by
  have hruns : machine.runsIn inTurn new
      [.start EINPROGRESS, .handleEvent POLLOUT 0 false, .restart ECONNREFUSED, .callFunctor 0,
        .timer EINPROGRESS]
      (fun tr s => .restarted ∈ tr ∧ s.state_ = .kConnecting) = true := by
    decide +kernel
  obtain ⟨tr, s, hreach, htest⟩ := Machine.exists_reachIn rfl hruns
  obtain ⟨hrestarted, hstate⟩ := of_decide_eq_true htest
  exact ⟨tr, s, hreach, hrestarted, hstate, (one_attempt_iff hreach.any).mpr hreach⟩

/-- A retry timer is pending when `restart()` is called, and fires into the new attempt. -/
theorem second_attempt_of_timer :
    ∃ tr s, machine.Reach anyStep tr s ∧ ¬ OneAttempt tr := by
  have hruns : machine.runs new [.start ECONNREFUSED, .restart EINPROGRESS, .timer EINPROGRESS]
      (fun tr _ => .startInloop .kConnecting ∈ tr) = true := by
    decide +kernel
  obtain ⟨tr, s, hreach, htest⟩ := Machine.exists_reach rfl hruns
  refine ⟨tr, s, hreach, fun hone => ?_⟩
  cases hone.1 .kConnecting (of_decide_eq_true htest)

end Connector

end TcpNet
