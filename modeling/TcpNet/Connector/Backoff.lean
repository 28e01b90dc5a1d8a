import TcpNet.Connector.Spec
import TcpNet.Library.Trace
import Mathlib.Algebra.Group.Int.Defs
import Mathlib.Algebra.Order.Group.Int

open Transition Trace

namespace TcpNet

namespace ConnectorEvent

def isRunAfter : ConnectorEvent → Bool
  | .runAfter _ => true
  | _ => false

/-- The retries since the last `restart()`. -/
def retries (tr : List ConnectorEvent) : Nat :=
  (sinceLast (· = .restarted) tr).countP isRunAfter

/-- The delay of the next retry, behind an event. -/
def nextDelay (delayMs : Int) : ConnectorEvent → Int
  | .restarted => kInitRetryDelay
  | .runAfter _ => min (delayMs * 2) kMaxRetryDelay
  | _ => delayMs

/-- Every retry waits for the delay that it finds, and leaves the next one. -/
def Paced : Int → List ConnectorEvent → Int → Prop
  | delayMs, [], delayMs' => delayMs' = delayMs
  | delayMs, e :: rest, delayMs' =>
    (∀ delayMs', e = .runAfter delayMs' → delayMs' = delayMs) ∧
      Paced (nextDelay delayMs e) rest delayMs'

variable {delayMs delayMs' delayMs'' : Int} {es es' tr : List ConnectorEvent}

theorem Paced.append (h : Paced delayMs es delayMs') (h' : Paced delayMs' es' delayMs'') :
    Paced delayMs (es ++ es') delayMs'' := by
  induction es generalizing delayMs with
  | nil =>
    obtain rfl : delayMs' = delayMs := h
    exact h'
  | cons e rest ih => exact ⟨h.1, ih h.2⟩

theorem Paced.eq_foldl (h : Paced delayMs es delayMs') : delayMs' = es.foldl nextDelay delayMs := by
  induction es generalizing delayMs with
  | nil => exact h
  | cons e rest ih => exact ih h.2

theorem Paced.runAfter {before after : List ConnectorEvent}
    (h : Paced delayMs (before ++ .runAfter delayMs'' :: after) delayMs') :
    delayMs'' = before.foldl nextDelay delayMs := by
  induction before generalizing delayMs with
  | nil => exact h.1 delayMs'' rfl
  | cons e rest ih => exact ih h.2

/-- Twice the delay, but no more than the greatest one. -/
theorem min_doubled (k : Nat) :
    min (min (kInitRetryDelay * 2 ^ k) kMaxRetryDelay * 2) kMaxRetryDelay =
      min (kInitRetryDelay * 2 ^ (k + 1)) kMaxRetryDelay := by
  rw [pow_succ, ← mul_assoc]
  simp only [kMaxRetryDelay]
  omega

theorem retries_concat (tr : List ConnectorEvent) (e : ConnectorEvent) :
    retries (tr ++ [e]) =
      if e = .restarted then 0 else if e.isRunAfter then retries tr + 1 else retries tr := by
  rw [retries, sinceLast_concat]
  by_cases hrestarted : e = .restarted
  · rw [if_pos (decide_eq_true hrestarted), if_pos hrestarted]
    rfl
  · rw [if_neg (by simpa using hrestarted), if_neg hrestarted, List.countP_append,
      List.countP_singleton]
    split <;> rfl

theorem foldl_nextDelay (tr : List ConnectorEvent) :
    tr.foldl nextDelay kInitRetryDelay =
      min (kInitRetryDelay * 2 ^ retries tr) kMaxRetryDelay := by
  induction tr using List.reverseRecOn with
  | nil => rfl
  | append_singleton tr e ih =>
    rw [List.foldl_append, List.foldl_cons, List.foldl_nil, ih, retries_concat]
    cases e with
    | restarted => rfl
    | runAfter delayMs' => exact min_doubled (retries tr)
    | _ => rfl

end ConnectorEvent

namespace Connector

open ConnectorEvent

variable {s s' : Connector} {es tr : List ConnectorEvent} {err : Errno} {selfConnect : Bool}

theorem retry_of_connect (h : s.connect_ = true) (sockfd : Int) :
    s.retry sockfd = ({ s with
      state_ := .kDisconnect
      timers := s.timers + 1
      retryDelayMs_ := min (s.retryDelayMs_ * 2) kMaxRetryDelay },
      [.retry, .closed sockfd, .runAfter s.retryDelayMs_]) := if_pos h

theorem retry_of_stopped (h : s.connect_ = false) (sockfd : Int) :
    s.retry sockfd = (s.setState .kDisconnect, [.retry, .closed sockfd]) := by
  refine if_neg ?_
  rw [Bool.not_eq_true]
  exact h

theorem connect_eq (s : Connector) (saveError : Errno) :
    s.connect saveError =
      let made : Connector := { s with sockets := s.sockets + 1 }
      let more := if keepsWaiting saveError then made.connecting s.sockets
        else if triesAgain saveError then made.retry s.sockets
        else (made, [.closed s.sockets])
      (more.1, .created s.sockets :: more.2) := rfl

theorem paced_retry (s : Connector) (sockfd : Int) :
    Paced s.retryDelayMs_ (s.retry sockfd).2 (s.retry sockfd).1.retryDelayMs_ := by
  cases hconnect : s.connect_ with
  | true =>
    rw [retry_of_connect hconnect]
    simp [Paced, nextDelay]
  | false =>
    rw [retry_of_stopped hconnect]
    simp [Paced, nextDelay, setState]

theorem paced_connecting (s : Connector) (sockfd : Int) :
    Paced s.retryDelayMs_ (s.connecting sockfd).2 (s.connecting sockfd).1.retryDelayMs_ := by
  cases hchannel : s.channel_ with
  | none =>
    rw [connecting_of_none hchannel]
    simp [Paced, nextDelay]
  | some channel =>
    rw [connecting_of_some hchannel]
    simp [Paced, nextDelay]

theorem paced_connect (s : Connector) (ret : Errno) :
    Paced s.retryDelayMs_ (s.connect ret).2 (s.connect ret).1.retryDelayMs_ := by
  rw [connect_eq]
  refine ⟨by simp, ?_⟩
  simp only
  split
  · exact paced_connecting { s with sockets := s.sockets + 1 } s.sockets
  · split
    · exact paced_retry { s with sockets := s.sockets + 1 } s.sockets
    · simp [Paced, nextDelay]

theorem paced_startInloop (s : Connector) (ret : Errno) :
    Paced s.retryDelayMs_ (s.startInloop ret).2 (s.startInloop ret).1.retryDelayMs_ := by
  rw [startInloop]
  split
  · refine ⟨by simp, ?_⟩
    cases hconnect : s.connect_ with
    | true => exact paced_connect s ret
    | false => exact rfl
  · simp [Paced, nextDelay, abort]

/-- What holds of nothing, of every handler, and of two effects if it holds of both, holds
    of all that a report calls. -/
theorem callHandlers_rule {R : Connector → List ConnectorEvent → Connector → Prop}
    (hnil : ∀ s, R s [] s)
    (happend : ∀ {s s' s'' es es'}, R s es s' → R s' es' s'' → R s (es ++ es') s'')
    (hhandler : ∀ {s s' es handler}, s.callHandler err selfConnect handler = .ok (s', es) →
      R s es s') {handlers : List Handler}
    (h : s.callHandlers err selfConnect handlers = .ok (s', es)) : R s es s' := by
  induction handlers generalizing s es with
  | nil =>
    rw [callHandlers, pure_eq_ok_iff, Prod.mk.injEq] at h
    obtain ⟨rfl, rfl⟩ := h
    exact hnil s
  | cons handler rest ih =>
    simp only [callHandlers, bind_eq_ok_iff, pure_eq_ok_iff, Prod.mk.injEq] at h
    obtain ⟨⟨s₁, es₁⟩, hfirst, ⟨s₂, es₂⟩, hrest, rfl, rfl⟩ := h
    exact happend (hhandler hfirst) (ih hrest)

/-- A socket that is taken from the channel is tried again later, handed over or closed. -/
inductive Released (s : Connector) : List ConnectorEvent → Connector → Prop
  | nothing : Released s [] s
  | retries {channel : Channel} (hchannel : s.channel_ = some channel)
      (hmonitored : s.monitored = true) :
      Released s ((s.release channel).retry channel.fd_).2 ((s.release channel).retry channel.fd_).1
  | connected {channel : Channel} (hchannel : s.channel_ = some channel)
      (hmonitored : s.monitored = true) (hconnect : s.connect_ = true) :
      Released s [.connected channel.fd_] ((s.release channel).setState .kConnected)
  | dropped {channel : Channel} (hchannel : s.channel_ = some channel)
      (hmonitored : s.monitored = true) (hconnect : s.connect_ = false) :
      Released s [.closed channel.fd_] ((s.release channel).setState .kConnected)

theorem removeAndResetChannel_eq_ok {sockfd : Int}
    (h : s.removeAndResetChannel = .ok (s', sockfd)) :
    s.monitored = true ∧ ∃ channel, s.channel_ = some channel ∧ s' = s.release channel ∧
      sockfd = channel.fd_ := by
  cases hchannel : s.channel_ with
  | none =>
    simp only [removeAndResetChannel, hchannel] at h
    cases h
  | some channel =>
    simp only [removeAndResetChannel, hchannel, bind_eq_ok_iff, require_eq_ok_iff, pure_eq_ok_iff,
      Prod.mk.injEq] at h
    obtain ⟨_, hmonitored, rfl, rfl⟩ := h
    exact ⟨hmonitored, channel, rfl, rfl, rfl⟩

theorem callHandler_eq_ok {handler : Handler}
    (h : s.callHandler err selfConnect handler = .ok (s', es)) : Released s es s' := by
  cases handler with
  | error =>
    simp only [callHandler, handleError, bind_eq_ok_iff, pure_eq_ok_iff] at h
    obtain ⟨⟨s₁, sockfd⟩, hremove, hretry⟩ := h
    obtain ⟨hmonitored, channel, hchannel, rfl, rfl⟩ := removeAndResetChannel_eq_ok hremove
    obtain ⟨rfl, rfl⟩ := Prod.mk.inj hretry
    exact .retries hchannel hmonitored
  | write =>
    simp only [callHandler, handleWrite] at h
    split at h
    · simp only [bind_eq_ok_iff] at h
      obtain ⟨⟨s₁, sockfd⟩, hremove, h⟩ := h
      obtain ⟨hmonitored, channel, hchannel, rfl, rfl⟩ := removeAndResetChannel_eq_ok hremove
      split at h
      · obtain ⟨rfl, rfl⟩ := Prod.mk.inj (pure_eq_ok_iff.mp h)
        exact .retries hchannel hmonitored
      · split at h
        · obtain ⟨rfl, rfl⟩ := Prod.mk.inj (pure_eq_ok_iff.mp h)
          exact .retries hchannel hmonitored
        · split at h
          · rename_i hconnect
            obtain ⟨rfl, rfl⟩ := Prod.mk.inj (pure_eq_ok_iff.mp h)
            exact .connected hchannel hmonitored hconnect
          · rename_i hconnect
            obtain ⟨rfl, rfl⟩ := Prod.mk.inj (pure_eq_ok_iff.mp h)
            exact .dropped hchannel hmonitored (Bool.not_eq_true _ ▸ hconnect)
    · obtain ⟨rfl, rfl⟩ := Prod.mk.inj (pure_eq_ok_iff.mp h)
      exact .nothing
  | close =>
    obtain ⟨rfl, rfl⟩ := Prod.mk.inj (pure_eq_ok_iff.mp h)
    exact .nothing
  | read =>
    obtain ⟨rfl, rfl⟩ := Prod.mk.inj (pure_eq_ok_iff.mp h)
    exact .nothing

theorem Released.paced (h : Released s es s') : Paced s.retryDelayMs_ es s'.retryDelayMs_ := by
  cases h with
  | nothing => exact rfl
  | @retries channel hchannel hmonitored => exact paced_retry (s.release channel) channel.fd_
  | connected hchannel hmonitored hconnect => exact ⟨by simp, rfl⟩
  | dropped hchannel hmonitored hconnect => exact ⟨by simp, rfl⟩

theorem paced_callHandlers {handlers : List Handler}
    (h : s.callHandlers err selfConnect handlers = .ok (s', es)) :
    Paced s.retryDelayMs_ es s'.retryDelayMs_ :=
  callHandlers_rule (R := fun s es s' => Paced s.retryDelayMs_ es s'.retryDelayMs_)
    (fun _ => rfl) Paced.append (fun hhandler => (callHandler_eq_ok hhandler).paced) h

theorem paced_act {a : ConnectorAction} (h : s.act a = .ok (s', es)) :
    Paced s.retryDelayMs_ es s'.retryDelayMs_ := by
  cases a with
  | start ret =>
    rw [act, pure_eq_ok_iff] at h
    have hpaced := paced_startInloop { s with connect_ := true } ret
    rw [← Connector.start, h] at hpaced
    exact hpaced
  | startElsewhere =>
    obtain ⟨rfl, rfl⟩ := Prod.mk.inj (pure_eq_ok_iff.mp h)
    exact rfl
  | queueStart =>
    simp only [act, bind_eq_ok_iff, pure_eq_ok_iff, Prod.mk.injEq] at h
    obtain ⟨_, _, rfl, rfl⟩ := h
    exact rfl
  | stop =>
    obtain ⟨rfl, rfl⟩ := Prod.mk.inj (pure_eq_ok_iff.mp h)
    exact rfl
  | restart ret =>
    rw [act, pure_eq_ok_iff, Connector.restart, Prod.mk.injEq] at h
    obtain ⟨rfl, rfl⟩ := h
    exact ⟨by simp, paced_startInloop { s.setState .kDisconnect with
      retryDelayMs_ := kInitRetryDelay, connect_ := true } ret⟩
  | timer ret =>
    simp only [act, bind_eq_ok_iff, pure_eq_ok_iff] at h
    obtain ⟨_, _, h⟩ := h
    have hpaced := paced_startInloop { s with timers := s.timers - 1 } ret
    rw [h] at hpaced
    exact hpaced
  | callFunctor ret =>
    simp only [act] at h
    split at h
    · cases h
    · rename_i cb rest hfunctors
      rw [pure_eq_ok_iff] at h
      cases cb with
      | startInloop =>
        have hpaced := paced_startInloop { s with functors := rest } ret
        rw [runFunctor] at h
        rw [h] at hpaced
        exact hpaced
      | resetChannel =>
        obtain ⟨rfl, rfl⟩ := Prod.mk.inj h
        exact ⟨by simp, rfl⟩
  | handleEvent revent err selfConnect =>
    simp only [act, bind_eq_ok_iff, enabled_eq_ok_iff] at h
    obtain ⟨_, _, h⟩ := h
    exact paced_callHandlers h

theorem step_eq_ok {a : ConnectorAction} (h : s.step a = .ok (s', es)) :
    s.aborted = false ∧ s.act a = .ok (s', es) := by
  simp only [step, bind_eq_ok_iff, enabled_eq_ok_iff] at h
  obtain ⟨_, hrunning, h⟩ := h
  exact ⟨hrunning, h⟩

theorem reach_paced {C : StepCondition Connector ConnectorAction ConnectorEvent}
    (h : machine.Reach C tr s) : Paced kInitRetryDelay tr s.retryDelayMs_ := by
  refine h.invariant (I := fun tr s => Paced kInitRetryDelay tr s.retryDelayMs_) ?_ ?_
  · rintro s rfl
    exact rfl
  · intro tr s a s' es _ hpaced _ hstep
    exact hpaced.append (paced_act (step_eq_ok hstep).2)

/-- Whatever is started, stopped and reported, every retry waits twice as long as the one in
    front of it, from 500 ms up to 30 s. Only `restart()` begins anew: neither `start()` nor a
    connection that is made does. -/
theorem retry_delays (h : machine.Reach anyStep tr s) :
    (∀ before delayMs after, tr = before ++ .runAfter delayMs :: after →
      delayMs = min (500 * 2 ^ retries before) 30000) ∧
    s.retryDelayMs_ = min (500 * 2 ^ retries tr) 30000 := by
  have hpaced := reach_paced h
  constructor
  · rintro before delayMs after rfl
    rw [hpaced.runAfter, foldl_nextDelay]
    rfl
  · rw [hpaced.eq_foldl, foldl_nextDelay]
    rfl

/-- The seventh retry waits for 30 s, and `restart()` begins anew. -/
theorem retry_delays_seven : ∃ before after s,
    machine.Reach anyStep (before ++ .runAfter 30000 :: after) s ∧ retries before = 6 ∧
    .runAfter 500 ∈ after ∧ s.retryDelayMs_ = min (500 * 2 ^ 1) 30000 := by
  have hruns : machine.runs new
      ([.start ECONNREFUSED] ++ List.replicate 6 (.timer ECONNREFUSED) ++ [.restart ECONNREFUSED])
      (fun tr s => (∃ before ∈ tr.inits,
        before ++ .runAfter 30000 :: tr.drop (before.length + 1) = tr ∧
        retries before = 6 ∧ .runAfter 500 ∈ tr.drop (before.length + 1)) ∧
        retries tr = 1) = true := by
    decide +kernel
  obtain ⟨tr, s, hreach, htest⟩ := Machine.exists_reach rfl hruns
  obtain ⟨⟨before, _, hsplit, hretries, hanew⟩, hone⟩ := of_decide_eq_true htest
  refine ⟨before, tr.drop (before.length + 1), s, ?_, hretries, hanew, ?_⟩
  · rw [hsplit]
    exact hreach
  · rw [(retry_delays hreach).2, hone]

/-- Nobody starts the connector. -/
def notStarted : StepCondition Connector ConnectorAction ConnectorEvent := fun _ _ a =>
  match a with
  | .start _ | .startElsewhere | .restart _ => False
  | _ => True

instance (tr : List ConnectorEvent) (s : Connector) (a : ConnectorAction) :
    Decidable (notStarted tr s a) :=
  match a with
  | .start _ | .startElsewhere | .restart _ => inferInstanceAs (Decidable False)
  | .queueStart | .stop | .timer _ | .callFunctor _ | .handleEvent .. =>
    inferInstanceAs (Decidable True)

/-- Events that are no step to a connection. -/
def Resigned (es : List ConnectorEvent) : Prop :=
  ∀ e ∈ es, (∃ state, e = .startInloop state) ∨ e = .retry ∨ e = .resetChannel ∨
    ∃ fd, e = .closed fd

def isClosed : ConnectorEvent → Bool
  | .closed _ => true
  | _ => false

/-- The number of the attempts that stand. -/
def standing (s : Connector) : Nat := if s.monitored then 1 else 0

/-- What a connector does that is stopped: it closes the socket of the attempt that
    stands. -/
structure Stopped (s : Connector) (es : List ConnectorEvent) (s' : Connector) : Prop where
  connect : s'.connect_ = false
  resigned : Resigned es
  timers : s'.timers ≤ s.timers
  standing : es.countP isClosed + s'.standing ≤ s.standing
  channel : s'.monitored = true → s'.channel_ = s.channel_
  closed : ∀ fd, .closed fd ∈ es → ∃ channel, s.channel_ = some channel ∧ channel.fd_ = fd

theorem Stopped.nothing (h : s.connect_ = false) : Stopped s [] s :=
  ⟨h, by simp [Resigned], Nat.le_refl _, by simp, fun _ => rfl, by simp⟩

theorem monitored_of_standing (h : 0 < s.standing) : s.monitored = true := by
  rw [Connector.standing] at h
  split at h
  · assumption
  · omega

theorem Stopped.append {s'' : Connector} {es' : List ConnectorEvent} (h : Stopped s es s')
    (h' : Stopped s' es' s'') : Stopped s (es ++ es') s'' where
  connect := h'.connect
  resigned e hmem := (List.mem_append.mp hmem).elim (h.resigned e) (h'.resigned e)
  timers := h'.timers.trans h.timers
  standing := by
    have hbefore := h.standing
    have hbehind := h'.standing
    rw [List.countP_append]
    omega
  channel hmonitored := by
    have hbehind := h'.standing
    rw [show s''.standing = 1 from if_pos hmonitored] at hbehind
    exact (h'.channel hmonitored).trans (h.channel (monitored_of_standing (by omega)))
  closed fd hmem := by
    rcases List.mem_append.mp hmem with hmem | hmem
    · exact h.closed fd hmem
    · have hbehind := h'.standing
      have hsome : 0 < es'.countP isClosed := List.countP_pos_iff.mpr ⟨_, hmem, rfl⟩
      rw [← h.channel (monitored_of_standing (by omega))]
      exact h'.closed fd hmem

theorem Released.stopped (h : Released s es s') (hconnect : s.connect_ = false) :
    Stopped s es s' := by
  cases h with
  | nothing => exact .nothing hconnect
  | @retries channel hchannel hmonitored =>
    rw [retry_of_stopped (s := s.release channel) hconnect]
    refine ⟨hconnect, by simp [Resigned], Nat.le_refl _, ?_, by simp [setState, release], ?_⟩
    · simp [isClosed, Connector.standing, setState, release, hmonitored]
    · simpa using ⟨channel, hchannel, rfl⟩
  | connected hchannel hmonitored hconnect' =>
    rw [hconnect] at hconnect'
    cases hconnect'
  | @dropped channel hchannel hmonitored _ =>
    refine ⟨hconnect, by simp [Resigned], Nat.le_refl _, ?_, by simp [setState, release], ?_⟩
    · simp [isClosed, Connector.standing, setState, release, hmonitored]
    · simpa using ⟨channel, hchannel, rfl⟩

theorem stopped_startInloop (hconnect : s.connect_ = false) (ret : Errno) :
    Stopped s (s.startInloop ret).2 (s.startInloop ret).1 := by
  unfold startInloop
  split
  · simp only [hconnect]
    exact ⟨hconnect, by simp [Resigned], Nat.le_refl _, by simp [isClosed], fun _ => rfl,
      by simp⟩
  · refine ⟨hconnect, by simp [Resigned], Nat.le_refl _, ?_, fun _ => rfl, by simp⟩
    exact (Nat.zero_add _).le

/-- A state that the connector gets into without a word. -/
theorem Stopped.silent (h : Stopped s [] s) (hconnect : s'.connect_ = s.connect_)
    (htimers : s'.timers ≤ s.timers) (hmonitored : s'.monitored = s.monitored)
    (hchannel : s'.channel_ = s.channel_) : Stopped s [] s' := by
  refine ⟨hconnect.trans h.connect, by simp [Resigned], htimers, ?_, fun _ => hchannel, by simp⟩
  rw [Connector.standing, Connector.standing, hmonitored]
  simp

theorem stopped_act {a : ConnectorAction} (hconnect : s.connect_ = false)
    (hcond : notStarted tr s a) (h : s.act a = .ok (s', es)) : Stopped s es s' := by
  have hnothing := Stopped.nothing hconnect
  cases a with
  | start ret => exact hcond.elim
  | startElsewhere => exact hcond.elim
  | restart ret => exact hcond.elim
  | queueStart =>
    simp only [act, bind_eq_ok_iff, pure_eq_ok_iff, Prod.mk.injEq] at h
    obtain ⟨_, _, rfl, rfl⟩ := h
    exact hnothing.silent rfl (Nat.le_refl _) rfl rfl
  | stop =>
    obtain ⟨rfl, rfl⟩ := Prod.mk.inj (pure_eq_ok_iff.mp h)
    exact hnothing.silent hconnect.symm (Nat.le_refl _) rfl rfl
  | timer ret =>
    simp only [act, bind_eq_ok_iff, pure_eq_ok_iff] at h
    obtain ⟨_, _, h⟩ := h
    have hsilent : Stopped s [] { s with timers := s.timers - 1 } :=
      hnothing.silent rfl (Nat.sub_le ..) rfl rfl
    have hstart := stopped_startInloop (s := { s with timers := s.timers - 1 }) hconnect ret
    rw [h] at hstart
    exact hsilent.append hstart
  | callFunctor ret =>
    simp only [act] at h
    split at h
    · cases h
    · rename_i cb rest hfunctors
      rw [pure_eq_ok_iff] at h
      cases cb with
      | startInloop =>
        have hsilent : Stopped s [] { s with functors := rest } :=
          hnothing.silent rfl (Nat.le_refl _) rfl rfl
        have hstart := stopped_startInloop (s := { s with functors := rest }) hconnect ret
        rw [runFunctor] at h
        rw [h] at hstart
        exact hsilent.append hstart
      | resetChannel =>
        obtain ⟨rfl, rfl⟩ := Prod.mk.inj h
        exact ⟨hconnect, by simp [Resigned], Nat.le_refl _, by simp [isClosed, Connector.standing],
          by simp, by simp⟩
  | handleEvent revent err selfConnect =>
    simp only [act, bind_eq_ok_iff, enabled_eq_ok_iff] at h
    obtain ⟨_, _, h⟩ := h
    refine callHandlers_rule (R := fun s es s' => s.connect_ = false → Stopped s es s')
      (fun _ => Stopped.nothing) ?_ (fun hhandler => (callHandler_eq_ok hhandler).stopped) h hconnect
    intro s s' s'' es es' hfirst hsecond hconnect
    have hstopped := hfirst hconnect
    exact hstopped.append (hsecond hstopped.connect)

/-- Behind `stop()`, and until somebody starts the connector again, no socket is made, none
    is handed over and no retry is set, whatever calls of `startInloop` are still to come from
    timers and other threads. The one socket that may be closed is that of the attempt that
    stood. -/
theorem stop_lasts {tr' : List ConnectorEvent} {s'' : Connector}
    (hstop : machine.step s .stop = .ok (s', es))
    (hafter : (machine.after s').Reach notStarted tr' s'') :
    Resigned tr' ∧ s''.timers ≤ s.timers ∧ tr'.countP isClosed ≤ 1 ∧
      ∀ fd, .closed fd ∈ tr' → s.monitored = true ∧
        ∃ channel, s.channel_ = some channel ∧ channel.fd_ = fd := by
  have hleft := (step_eq_ok hstop).2
  obtain ⟨rfl, rfl⟩ := Prod.mk.inj (pure_eq_ok_iff.mp hleft)
  have hstopped : Stopped { s with connect_ := false } tr' s'' := by
    refine hafter.invariant (I := Stopped { s with connect_ := false }) ?_ ?_
    · rintro s₀ rfl
      exact .nothing rfl
    · intro tr s₀ a s₁ es _ hstopped hcond hstep
      exact hstopped.append (stopped_act hstopped.connect hcond (step_eq_ok hstep).2)
  have hstanding := hstopped.standing
  have hone : Connector.standing { s with connect_ := false } ≤ 1 := by
    rw [Connector.standing]
    split <;> omega
  refine ⟨hstopped.resigned, hstopped.timers, by omega, fun fd hmem => ⟨?_, hstopped.closed fd hmem⟩⟩
  have hsome : 0 < tr'.countP isClosed := List.countP_pos_iff.mpr ⟨_, hmem, rfl⟩
  have hmonitored := monitored_of_standing (s := { s with connect_ := false }) (by omega)
  exact hmonitored

/-- A retry is pending, `start()` is called in another thread and the attempt of `restart()`
    stands when the connector is stopped. -/
theorem stop_lasts_pending : ∃ s s' es tr' s'', machine.step s .stop = .ok (s', es) ∧
    (machine.after s').Reach notStarted tr' s'' ∧ s.timers = 1 ∧ s.starting = 1 ∧
    tr' = [.retry, .closed 1, .startInloop .kDisconnect, .resetChannel,
      .startInloop .kDisconnect] ∧ Resigned tr' := by
  have hruns : machine.runs new [.start ECONNREFUSED, .restart EINPROGRESS, .startElsewhere]
      (fun _ s => s.timers = 1 ∧ s.starting = 1 ∧ s.aborted = false ∧
        ((machine.after { s with connect_ := false }).runsIn notStarted { s with connect_ := false }
          [.handleEvent POLLERR 0 false, .timer 0, .queueStart, .callFunctor 0, .callFunctor 0]
          fun tr' _ => tr' = [.retry, .closed 1, .startInloop .kDisconnect, .resetChannel,
            .startInloop .kDisconnect]) = true) = true := by
    decide +kernel
  obtain ⟨_, s, _, htest⟩ := Machine.exists_reach rfl hruns
  obtain ⟨htimers, hstarting, hrunning, hruns'⟩ := of_decide_eq_true htest
  have hstop : machine.step s .stop = .ok ({ s with connect_ := false }, []) := by
    simp only [machine, step, enabled_of hrunning, ok_bind]
    rfl
  obtain ⟨tr', s'', hreach, htest'⟩ := Machine.exists_reachIn rfl hruns'
  exact ⟨s, _, _, tr', s'', hstop, hreach, htimers, hstarting, of_decide_eq_true htest',
    (stop_lasts hstop hreach).1⟩

end Connector

end TcpNet
