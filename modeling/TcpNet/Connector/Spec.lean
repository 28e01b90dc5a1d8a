import TcpNet.Connector

open Transition

namespace TcpNet

namespace Connector

variable {s s' : Connector} {es : List ConnectorEvent}

/-- The connector behind `removeAndResetChannel`. -/
def release (s : Connector) (channel : Channel) : Connector :=
  { s with
    channel_ := some channel.disableAll
    monitored := false
    functors := s.functors ++ [.resetChannel] }

theorem removeAndResetChannel_goes_through {channel : Channel}
    (hchannel : s.channel_ = some channel) (hmonitored : s.monitored = true) :
    s.removeAndResetChannel = .ok (s.release channel, channel.fd_) := by
  simp only [removeAndResetChannel, hchannel, require_of hmonitored, ok_bind]
  rfl

theorem connecting_of_none {sockfd : Int} (h : s.channel_ = none) :
    s.connecting sockfd =
      ({ s with
          state_ := .kConnecting
          channel_ := some (Channel.new sockfd).enableWriting
          monitored := true }, [.connecting none]) := by
  simp [connecting, setState, h]

theorem connecting_of_some {sockfd : Int} {channel : Channel} (h : s.channel_ = some channel) :
    s.connecting sockfd =
      ({ s with state_ := .kConnecting, aborted := true }, [.connecting (some channel)]) := by
  simp [connecting, setState, abort, h]

/-- The state after `retry`, which may have set a timer. -/
def retried (s : Connector) (timers : Nat) (retryDelayMs : Int) : Connector :=
  { s with state_ := .kDisconnect, timers := timers, retryDelayMs_ := retryDelayMs }

/-- Nothing but the setting of a timer. -/
def OnlyTimers (es : List ConnectorEvent) : Prop := ∀ e ∈ es, ∃ delayMs, e = .runAfter delayMs

theorem OnlyTimers.notMem {e : ConnectorEvent} (h : OnlyTimers es)
    (hother : ∀ delayMs, e ≠ .runAfter delayMs) : e ∉ es := by
  intro hmem
  obtain ⟨delayMs, htimer⟩ := h e hmem
  exact hother delayMs htimer

theorem retry_spec (s : Connector) (sockfd : Int) :
    ∃ timers retryDelayMs more, OnlyTimers more ∧
      s.retry sockfd = (s.retried timers retryDelayMs, .retry :: .closed sockfd :: more) := by
  by_cases hconnect : s.connect_ = true
  · exact ⟨s.timers + 1, min (s.retryDelayMs_ * 2) kMaxRetryDelay, [.runAfter s.retryDelayMs_],
      by simp [OnlyTimers], if_pos hconnect⟩
  · exact ⟨s.timers, s.retryDelayMs_, [], nofun, if_neg hconnect⟩

/-- What `connect` can come to. The second case ends in an assertion. -/
inductive Connect (s : Connector) (saveError : Errno) : List ConnectorEvent → Connector → Prop
  | waits (hret : keepsWaiting saveError = true) (hchannel : s.channel_ = none) :
      Connect s saveError [.created s.sockets, .connecting none]
        { s with
          state_ := .kConnecting
          channel_ := some (Channel.new s.sockets).enableWriting
          monitored := true
          sockets := s.sockets + 1 }
  | second {channel : Channel} (hret : keepsWaiting saveError = true)
      (hchannel : s.channel_ = some channel) :
      Connect s saveError [.created s.sockets, .connecting (some channel)]
        { s with state_ := .kConnecting, sockets := s.sockets + 1, aborted := true }
  | retries {timers : Nat} {retryDelayMs : Int} {more : List ConnectorEvent}
      (hret : keepsWaiting saveError = false) (hmore : OnlyTimers more) :
      Connect s saveError (.created s.sockets :: .retry :: .closed s.sockets :: more)
        ({ s with sockets := s.sockets + 1 }.retried timers retryDelayMs)
  | givesUp (hret : keepsWaiting saveError = false) :
      Connect s saveError [.created s.sockets, .closed s.sockets]
        { s with sockets := s.sockets + 1 }

theorem connect_spec (s : Connector) (saveError : Errno) :
    Connect s saveError (s.connect saveError).2 (s.connect saveError).1 := by
  rw [connect]
  by_cases hret : keepsWaiting saveError = true
  · simp only [if_pos hret]
    by_cases hchannel : s.channel_ = none
    · rw [connecting_of_none (s := { s with sockets := s.sockets + 1 }) hchannel]
      exact .waits hret hchannel
    · obtain ⟨channel, hchannel⟩ := Option.ne_none_iff_exists'.mp hchannel
      rw [connecting_of_some (s := { s with sockets := s.sockets + 1 }) hchannel]
      exact .second hret hchannel
  · simp only [if_neg hret]
    rw [Bool.not_eq_true] at hret
    split
    · obtain ⟨timers, retryDelayMs, more, hmore, hretry⟩ :=
        retry_spec { s with sockets := s.sockets + 1 } s.sockets
      rw [hretry]
      exact .retries hret hmore
    · exact .givesUp hret

/-- What `startInloop` can come to. The first case ends in an assertion. -/
inductive StartInloop (s : Connector) (ret : Errno) : List ConnectorEvent → Connector → Prop
  | late (hstate : s.state_ ≠ .kDisconnect) :
      StartInloop s ret [.startInloop s.state_] s.abort
  | stopped (hstate : s.state_ = .kDisconnect) (hconnect : s.connect_ = false) :
      StartInloop s ret [.startInloop .kDisconnect] s
  | connects {s' : Connector} {es : List ConnectorEvent} (hstate : s.state_ = .kDisconnect)
      (hconnect : s.connect_ = true) (hes : Connect s ret es s') :
      StartInloop s ret (.startInloop .kDisconnect :: es) s'

theorem startInloop_spec (s : Connector) (ret : Errno) :
    StartInloop s ret (s.startInloop ret).2 (s.startInloop ret).1 := by
  rw [startInloop]
  by_cases hstate : s.state_ = .kDisconnect
  · rw [if_pos hstate, hstate]
    cases hconnect : s.connect_ with
    | false => exact .stopped hstate hconnect
    | true => exact .connects hstate hconnect (connect_spec s ret)
  · rw [if_neg hstate]
    exact .late hstate

/-- What the handlers that one report of events calls can come to. -/
inductive Handled (s : Connector) : List ConnectorEvent → Connector → Prop
  | nothing : Handled s [] s
  | retries {channel : Channel} {timers : Nat} {retryDelayMs : Int} {more : List ConnectorEvent}
      (hchannel : s.channel_ = some channel) (hmonitored : s.monitored = true)
      (hmore : OnlyTimers more) :
      Handled s (.retry :: .closed channel.fd_ :: more)
        ((s.release channel).retried timers retryDelayMs)
  | connected {channel : Channel} (hchannel : s.channel_ = some channel)
      (hmonitored : s.monitored = true) (hstate : s.state_ = .kConnecting)
      (hconnect : s.connect_ = true) :
      Handled s [.connected channel.fd_] ((s.release channel).setState .kConnected)
  | dropped {channel : Channel} (hchannel : s.channel_ = some channel)
      (hmonitored : s.monitored = true) (hstate : s.state_ = .kConnecting)
      (hconnect : s.connect_ = false) :
      Handled s [.closed channel.fd_] ((s.release channel).setState .kConnected)

theorem retry_handled {channel : Channel} (hchannel : s.channel_ = some channel)
    (hmonitored : s.monitored = true) :
    ∃ s' es, (s.release channel).retry channel.fd_ = (s', es) ∧ Handled s es s' ∧
      s'.state_ = .kDisconnect := by
  obtain ⟨timers, retryDelayMs, more, hmore, hretry⟩ := retry_spec (s.release channel) channel.fd_
  exact ⟨_, _, hretry, .retries hchannel hmonitored hmore, rfl⟩

theorem handleError_spec {channel : Channel} (hchannel : s.channel_ = some channel)
    (hmonitored : s.monitored = true) :
    ∃ s' es, s.handleError = .ok (s', es) ∧ Handled s es s' ∧ s'.state_ = .kDisconnect := by
  obtain ⟨s', es, hretry, hhandled⟩ := retry_handled hchannel hmonitored
  refine ⟨s', es, ?_, hhandled⟩
  rw [handleError, removeAndResetChannel_goes_through hchannel hmonitored, ← hretry]
  rfl

theorem handleWrite_of_not_connecting (h : s.state_ ≠ .kConnecting) (err : Errno)
    (selfConnect : Bool) : s.handleWrite err selfConnect = .ok (s, []) := by
  rw [handleWrite, if_neg h]
  rfl

theorem handleWrite_spec {channel : Channel} (hchannel : s.channel_ = some channel)
    (hmonitored : s.monitored = true) (err : Errno) (selfConnect : Bool) :
    ∃ s' es, s.handleWrite err selfConnect = .ok (s', es) ∧ Handled s es s' := by
  by_cases hstate : s.state_ = .kConnecting
  · have hbody := removeAndResetChannel_goes_through hchannel hmonitored
    obtain ⟨s₁, es₁, hretry, hhandled, _⟩ := retry_handled hchannel hmonitored
    by_cases herr : err ≠ 0
    · refine ⟨s₁, es₁, ?_, hhandled⟩
      rw [handleWrite, if_pos hstate, hbody, ok_bind]
      simp only [if_pos herr, hretry]
      rfl
    · cases selfConnect with
      | true =>
        refine ⟨s₁, es₁, ?_, hhandled⟩
        rw [handleWrite, if_pos hstate, hbody, ok_bind]
        simp only [if_neg herr, if_true, hretry]
        rfl
      | false =>
        cases hconnect : s.connect_ with
        | true =>
          refine ⟨_, _, ?_, .connected hchannel hmonitored hstate hconnect⟩
          rw [handleWrite, if_pos hstate, hbody, ok_bind]
          simp only [if_neg herr, release, hconnect, if_true]
          rfl
        | false =>
          refine ⟨_, _, ?_, .dropped hchannel hmonitored hstate hconnect⟩
          rw [handleWrite, if_pos hstate, hbody, ok_bind]
          simp only [if_neg herr, release, hconnect]
          rfl
  · exact ⟨s, [], handleWrite_of_not_connecting hstate err selfConnect, .nothing⟩

theorem callHandlers_append {err : Errno} {selfConnect : Bool} {first second : List Handler}
    {s₁ s₂ : Connector} {es₁ es₂ : List ConnectorEvent}
    (hfirst : s.callHandlers err selfConnect first = .ok (s₁, es₁))
    (hsecond : s₁.callHandlers err selfConnect second = .ok (s₂, es₂)) :
    s.callHandlers err selfConnect (first ++ second) = .ok (s₂, es₁ ++ es₂) := by
  induction first generalizing s es₁ with
  | nil =>
    cases hfirst
    exact hsecond
  | cons handler rest ih =>
    simp only [callHandlers, bind_eq_ok_iff, pure_eq_ok_iff, Prod.mk.injEq] at hfirst
    obtain ⟨⟨s', es'⟩, hhandler, ⟨s'', es''⟩, hrest, rfl, rfl⟩ := hfirst
    rw [List.cons_append, callHandlers, hhandler, ok_bind]
    simp only [ih hrest, ok_bind, List.append_assoc]
    rfl

theorem callHandlers_of_quiet {err : Errno} {selfConnect : Bool} {handlers : List Handler}
    (h : ∀ handler ∈ handlers, s.callHandler err selfConnect handler = .ok (s, [])) :
    s.callHandlers err selfConnect handlers = .ok (s, []) := by
  induction handlers with
  | nil => rfl
  | cons handler rest ih =>
    rw [callHandlers, h handler List.mem_cons_self, ok_bind]
    simp only [ih (fun handler' hmem => h handler' (List.mem_cons_of_mem handler hmem)), ok_bind]
    rfl

theorem callHandlers_singleton {err : Errno} {selfConnect : Bool} {handler : Handler}
    (h : s.callHandler err selfConnect handler = .ok (s', es)) :
    s.callHandlers err selfConnect [handler] = .ok (s', es) := by
  rw [callHandlers, h, ok_bind]
  simp only [callHandlers, pure, Except.pure, ok_bind, List.append_nil]

/-- The handlers for a report: `close` and `read` do nothing here. -/
theorem handleEvent_cases (revent : Events) :
    ∃ before between, (∀ handler ∈ before ++ between, handler = .close ∨ handler = .read) ∧
      (Channel.handleEvent revent = before ++ ([.error] ++ between) ∨
        Channel.handleEvent revent = before ++ ([.error] ++ (between ++ [.write])) ∨
        Channel.handleEvent revent = before ++ between ∨
        Channel.handleEvent revent = before ++ (between ++ [.write])) := by
  refine ⟨if revent &&& POLLHUP ≠ 0 ∧ revent &&& POLLIN ≠ 0 then [.close] else [],
    if revent &&& (POLLIN ||| POLLPRI ||| POLLRDHUP) ≠ 0 then [.read] else [], ?_, ?_⟩
  · intro handler hmem
    simp only [List.mem_append, List.mem_ite_nil_right, List.mem_singleton] at hmem
    exact hmem.imp And.right And.right
  · simp only [Channel.handleEvent, List.append_assoc]
    by_cases herror : revent &&& (POLLNVAL ||| POLLERR) ≠ 0
    · by_cases hwrite : revent &&& POLLOUT ≠ 0
      · simp only [if_pos herror, if_pos hwrite, or_true, true_or]
      · simp only [if_pos herror, if_neg hwrite, List.append_nil, true_or]
    · by_cases hwrite : revent &&& POLLOUT ≠ 0
      · simp only [if_neg herror, if_pos hwrite, List.nil_append, or_true]
      · simp only [if_neg herror, if_neg hwrite, List.nil_append, List.append_nil, or_true, true_or]

/-- The error handler comes first, and leaves the write handler nothing to do. -/
theorem callHandlers_spec {channel : Channel} (hchannel : s.channel_ = some channel)
    (hmonitored : s.monitored = true) (err : Errno) (selfConnect : Bool) (revent : Events) :
    ∃ s' es, s.callHandlers err selfConnect (Channel.handleEvent revent) = .ok (s', es) ∧
      Handled s es s' := by
  obtain ⟨before, between, hquiet, hhandlers⟩ := handleEvent_cases revent
  have hskip : ∀ (s : Connector) handlers, handlers ⊆ before ++ between →
      s.callHandlers err selfConnect handlers = .ok (s, []) := by
    intro s handlers hsub
    refine callHandlers_of_quiet (fun handler hmem => ?_)
    rcases hquiet handler (hsub hmem) with rfl | rfl <;> rfl
  have hbefore := hskip s before (List.subset_append_left before between)
  have hbetween := fun s => hskip s between (List.subset_append_right before between)
  obtain ⟨s₁, es₁, herror, hfailed, hstate⟩ := handleError_spec hchannel hmonitored
  obtain ⟨s₂, es₂, hwrite, hwritten⟩ := handleWrite_spec hchannel hmonitored err selfConnect
  have herrors : s.callHandlers err selfConnect [.error] = .ok (s₁, es₁) :=
    callHandlers_singleton herror
  have hlate : s₁.callHandlers err selfConnect [.write] = .ok (s₁, []) :=
    callHandlers_singleton (handleWrite_of_not_connecting (by rw [hstate]; nofun) err selfConnect)
  rcases hhandlers with hall | hall | hall | hall <;> rw [hall]
  · refine ⟨s₁, es₁, ?_, hfailed⟩
    have hrest := callHandlers_append herrors (hbetween s₁)
    rw [List.append_nil] at hrest
    exact callHandlers_append hbefore hrest
  · refine ⟨s₁, es₁, ?_, hfailed⟩
    have hrest := callHandlers_append herrors (callHandlers_append (hbetween s₁) hlate)
    rw [List.append_nil, List.append_nil] at hrest
    exact callHandlers_append hbefore hrest
  · exact ⟨s, [], callHandlers_append hbefore (hbetween s), .nothing⟩
  · exact ⟨s₂, es₂, callHandlers_append hbefore
      (callHandlers_append (hbetween s) (callHandlers_singleton hwrite)), hwritten⟩

/-- What an action can come to. -/
inductive Step (s : Connector) : ConnectorAction → List ConnectorEvent → Connector → Prop
  | start {s' : Connector} {es : List ConnectorEvent} {ret : Errno}
      (hstart : StartInloop { s with connect_ := true } ret es s') : Step s (.start ret) es s'
  | startElsewhere :
      Step s .startElsewhere [] { s with connect_ := true, starting := s.starting + 1 }
  | queueStart : Step s .queueStart []
      { s with starting := s.starting - 1, functors := s.functors ++ [.startInloop] }
  | stop : Step s .stop [] { s with connect_ := false }
  | restart {s' : Connector} {es : List ConnectorEvent} {ret : Errno}
      (hstart : StartInloop { s with
        state_ := .kDisconnect, retryDelayMs_ := kInitRetryDelay, connect_ := true } ret es s') :
      Step s (.restart ret) (.restarted :: es) s'
  | timer {s' : Connector} {es : List ConnectorEvent} {ret : Errno}
      (hstart : StartInloop { s with timers := s.timers - 1 } ret es s') :
      Step s (.timer ret) es s'
  | callStart {s' : Connector} {es : List ConnectorEvent} {ret : Errno}
      {rest : List ConnectorFunctor} (hfunctors : s.functors = .startInloop :: rest)
      (hstart : StartInloop { s with functors := rest } ret es s') :
      Step s (.callFunctor ret) es s'
  | callReset {ret : Errno} {rest : List ConnectorFunctor}
      (hfunctors : s.functors = .resetChannel :: rest) :
      Step s (.callFunctor ret) [.resetChannel]
        { s with functors := rest, channel_ := none, monitored := false }
  | handleEvent {s' : Connector} {es : List ConnectorEvent} {revent : Events} {err : Errno}
      {selfConnect : Bool} (hmonitored : s.monitored = true) (hhandled : Handled s es s') :
      Step s (.handleEvent revent err selfConnect) es s'

/-- A channel that the loop monitors is one that `connecting` made, and one that it does
    not monitor any more is about to be reset. -/
structure WellFormed (s : Connector) : Prop where
  watched : s.monitored = true → ∃ fd, s.channel_ = some (Channel.new fd).enableWriting
  resets : s.functors.count .resetChannel =
    if s.channel_ ≠ none ∧ s.monitored = false then 1 else 0

theorem step_cases {a : ConnectorAction} (hwf : s.WellFormed) (h : s.step a = .ok (s', es)) :
    s.aborted = false ∧ Step s a es s' := by
  simp only [step, bind_eq_ok_iff, enabled_eq_ok_iff] at h
  obtain ⟨_, hrunning, h⟩ := h
  refine ⟨hrunning, ?_⟩
  cases a with
  | start ret =>
    rw [act, pure_eq_ok_iff] at h
    have hstart := startInloop_spec { s with connect_ := true } ret
    rw [← Connector.start, h] at hstart
    exact .start hstart
  | startElsewhere =>
    rw [act, pure_eq_ok_iff, Prod.mk.injEq] at h
    obtain ⟨rfl, rfl⟩ := h
    exact .startElsewhere
  | queueStart =>
    simp only [act, bind_eq_ok_iff, pure_eq_ok_iff, Prod.mk.injEq] at h
    obtain ⟨_, _, rfl, rfl⟩ := h
    exact .queueStart
  | stop =>
    rw [act, pure_eq_ok_iff, Prod.mk.injEq] at h
    obtain ⟨rfl, rfl⟩ := h
    exact .stop
  | restart ret =>
    rw [act, pure_eq_ok_iff, Connector.restart, Prod.mk.injEq] at h
    obtain ⟨rfl, rfl⟩ := h
    exact .restart (startInloop_spec _ ret)
  | timer ret =>
    simp only [act, bind_eq_ok_iff, pure_eq_ok_iff] at h
    obtain ⟨_, _, h⟩ := h
    have hstart := startInloop_spec { s with timers := s.timers - 1 } ret
    rw [h] at hstart
    exact .timer hstart
  | callFunctor ret =>
    simp only [act] at h
    split at h
    · cases h
    · rename_i cb rest hfunctors
      rw [pure_eq_ok_iff] at h
      cases cb with
      | startInloop =>
        have hstart := startInloop_spec { s with functors := rest } ret
        rw [runFunctor] at h
        rw [h] at hstart
        exact .callStart hfunctors hstart
      | resetChannel =>
        cases h
        exact .callReset hfunctors
  | handleEvent revent err selfConnect =>
    simp only [act, bind_eq_ok_iff, enabled_eq_ok_iff] at h
    obtain ⟨_, hmonitored, h⟩ := h
    obtain ⟨fd, hchannel⟩ := hwf.watched hmonitored
    obtain ⟨s₁, es₁, hhandlers, hhandled⟩ :=
      callHandlers_spec hchannel hmonitored err selfConnect revent
    rw [h, Except.ok.injEq, Prod.mk.injEq] at hhandlers
    obtain ⟨rfl, rfl⟩ := hhandlers
    exact .handleEvent hmonitored hhandled

section WellFormed

variable {ret : Errno}

theorem wellFormed_new : new.WellFormed := ⟨nofun, rfl⟩

/-- The fields that the well-formedness of a connector is about. -/
theorem WellFormed.of_eq (h : s.WellFormed) (hchannel : s'.channel_ = s.channel_)
    (hmonitored : s'.monitored = s.monitored)
    (hresets : s'.functors.count .resetChannel = s.functors.count .resetChannel) :
    s'.WellFormed := by
  constructor
  · rw [hmonitored, hchannel]
    exact h.watched
  · rw [hresets, hmonitored, hchannel]
    exact h.resets

theorem WellFormed.retried {timers : Nat} {retryDelayMs : Int} (h : s.WellFormed) :
    (s.retried timers retryDelayMs).WellFormed := h.of_eq rfl rfl rfl

theorem StartInloop.wellFormed (hstart : StartInloop s ret es s') (h : s.WellFormed) :
    s'.WellFormed := by
  cases hstart with
  | late hstate => exact h.of_eq rfl rfl rfl
  | stopped hstate hconnect => exact h
  | connects hstate hconnect hes =>
    cases hes with
    | waits hret hchannel =>
      refine ⟨fun _ => ⟨s.sockets, rfl⟩, ?_⟩
      have hresets := h.resets
      rw [if_neg (by simp [hchannel])] at hresets
      exact hresets
    | second hret hchannel => exact h.of_eq rfl rfl rfl
    | retries hret hmore => exact h.of_eq rfl rfl rfl
    | givesUp hret => exact h.of_eq rfl rfl rfl

theorem WellFormed.release {channel : Channel} (h : s.WellFormed)
    (hmonitored : s.monitored = true) : (s.release channel).WellFormed := by
  refine ⟨nofun, ?_⟩
  have hresets := h.resets
  rw [if_neg (by simp [hmonitored])] at hresets
  simp [Connector.release, hresets]

theorem Handled.wellFormed (hhandled : Handled s es s') (h : s.WellFormed) : s'.WellFormed := by
  cases hhandled with
  | nothing => exact h
  | retries hchannel hmonitored hmore => exact (h.release hmonitored).retried
  | connected hchannel hmonitored hstate hconnect =>
    exact (h.release hmonitored).of_eq rfl rfl rfl
  | dropped hchannel hmonitored hstate hconnect =>
    exact (h.release hmonitored).of_eq rfl rfl rfl

/-- A functor that is queued or taken from the queue is not `resetChannel`. -/
theorem wellFormed_step {a : ConnectorAction} (h : s.WellFormed) (hstep : Step s a es s') :
    s'.WellFormed := by
  cases hstep with
  | start hstart => exact hstart.wellFormed (h.of_eq rfl rfl rfl)
  | startElsewhere => exact h.of_eq rfl rfl rfl
  | queueStart => exact h.of_eq rfl rfl (by simp)
  | stop => exact h.of_eq rfl rfl rfl
  | restart hstart => exact hstart.wellFormed (h.of_eq rfl rfl rfl)
  | timer hstart => exact hstart.wellFormed (h.of_eq rfl rfl rfl)
  | callStart hfunctors hstart =>
    exact hstart.wellFormed (h.of_eq rfl rfl (by simp [hfunctors]))
  | @callReset ret rest hfunctors =>
    refine ⟨nofun, ?_⟩
    have hresets := h.resets
    rw [hfunctors, List.count_cons_self] at hresets
    split at hresets
    · simpa using hresets
    · omega
  | handleEvent hmonitored hhandled => exact hhandled.wellFormed h

theorem reach_wellFormed {C : StepCondition Connector ConnectorAction ConnectorEvent}
    {tr : List ConnectorEvent} (h : machine.Reach C tr s) : s.WellFormed := by
  refine Machine.Reach.invariant (I := fun _ s => s.WellFormed) ?_ ?_ h
  · rintro s rfl
    exact wellFormed_new
  · intro tr s a s' es _ hwf _ hstep
    exact wellFormed_step hwf (step_cases hwf hstep).2

/-- No step goes through an empty `channel_`, or removes a channel twice. -/
theorem step_ne_assertion {a : ConnectorAction} (h : s.WellFormed) :
    s.step a ≠ .error .assertion := by
  intro hfail
  simp only [step, bind_eq_error_iff, enabled_ne_assertion, false_or] at hfail
  obtain ⟨_, _, hfail⟩ := hfail
  cases a with
  | start ret => exact pure_ne_error hfail
  | startElsewhere => exact pure_ne_error hfail
  | queueStart =>
    simp only [act, bind_eq_error_iff, enabled_ne_assertion, pure_ne_error, and_false,
      exists_false, or_false] at hfail
  | stop => exact pure_ne_error hfail
  | restart ret => exact pure_ne_error hfail
  | timer ret =>
    simp only [act, bind_eq_error_iff, enabled_ne_assertion, pure_ne_error, and_false,
      exists_false, or_false] at hfail
  | callFunctor ret =>
    simp only [act] at hfail
    split at hfail
    · cases hfail
    · exact pure_ne_error hfail
  | handleEvent revent err selfConnect =>
    simp only [act, bind_eq_error_iff, enabled_ne_assertion, enabled_eq_ok_iff, false_or] at hfail
    obtain ⟨_, hmonitored, hfail⟩ := hfail
    obtain ⟨fd, hchannel⟩ := h.watched hmonitored
    obtain ⟨s', es, hhandlers, _⟩ := callHandlers_spec hchannel hmonitored err selfConnect revent
    rw [hhandlers] at hfail
    cases hfail

end WellFormed

end Connector

end TcpNet
