import TcpNet.Connector.Spec

open Transition

namespace TcpNet

namespace Connector

/-- The socket is the one that the connector waits for: the current `channel_` has its
    descriptor and asks for write events, and the loop monitors it. -/
def Monitors (s : Connector) (fd : Int) : Prop :=
  s.state_ = .kConnecting ∧ s.monitored = true ∧ s.channel_ = some (Channel.new fd).enableWriting

instance (s : Connector) (fd : Int) : Decidable (s.Monitors fd) :=
  inferInstanceAs (Decidable (_ ∧ _))

/-- `restart()` is not called while an attempt is under way. -/
def restartsApart : StepCondition Connector ConnectorAction ConnectorEvent :=
  fun _ s a => ∀ ret, a = .restart ret → s.state_ ≠ .kConnecting

instance (tr : List ConnectorEvent) (s : Connector) (a : ConnectorAction) :
    Decidable (restartsApart tr s a) :=
  match a with
  | .restart ret => decidable_of_iff (s.state_ ≠ .kConnecting)
      ⟨fun h _ _ => h, fun h => h ret rfl⟩
  | .start _ | .startElsewhere | .queueStart | .stop | .timer _ | .callFunctor _
  | .handleEvent _ _ _ => .isTrue nofun

/-- The number of channels, one or none, that the loop monitors for a socket. -/
def watch (s : Connector) (fd : Int) : Nat :=
  if s.monitored = true ∧ s.channel_ = some (Channel.new fd).enableWriting then 1 else 0

/-- How often a socket was closed or handed over. -/
def ended (es : List ConnectorEvent) (fd : Int) : Nat :=
  es.count (.closed fd) + es.count (.connected fd)

variable {s s' : Connector} {es es' : List ConnectorEvent} {fd : Int}

@[simp] theorem ended_append : ended (es ++ es') fd = ended es fd + ended es' fd := by
  simp only [ended, List.count_append]
  omega

theorem enableWriting_new_inj {fd fd' : Int} :
    (Channel.new fd).enableWriting = (Channel.new fd').enableWriting ↔ fd = fd' := by
  simp [Channel.enableWriting, Channel.new]

theorem watch_of_not_monitored (h : s.monitored = false) : s.watch fd = 0 := by
  simp [watch, h]

theorem watch_of_none (h : s.channel_ = none) : s.watch fd = 0 := by
  simp [watch, h]

theorem watch_of_some {fd' : Int} (hmonitored : s.monitored = true)
    (hchannel : s.channel_ = some (Channel.new fd').enableWriting) :
    s.watch fd = if fd' = fd then 1 else 0 := by
  simp only [watch, hmonitored, hchannel, Option.some.injEq, enableWriting_new_inj, true_and]

theorem OnlyTimers.count_created (h : OnlyTimers es) : es.count (.created fd) = 0 :=
  List.count_eq_zero.mpr (h.notMem nofun)

/-- What `retry` does ends its socket, and no other. -/
theorem OnlyTimers.ended_retry (h : OnlyTimers es) (sockfd : Int) :
    ended (.retry :: .closed sockfd :: es) fd = if sockfd = fd then 1 else 0 := by
  have hclosed : es.count (.closed fd) = 0 := List.count_eq_zero.mpr (h.notMem nofun)
  have hconnected : es.count (.connected fd) = 0 := List.count_eq_zero.mpr (h.notMem nofun)
  simp [ended, List.count_cons, hclosed, hconnected]

/-- The sockets that some events make are numbered from the first to the second count. -/
def Makes (es : List ConnectorEvent) (before after : Nat) : Prop :=
  (after = before ∧ ∀ fd, es.count (.created fd) = 0) ∨
    (after = before + 1 ∧ ∀ fd : Int, es.count (.created fd) = if (before : Int) = fd then 1 else 0)

/-- What the events do to a socket accounts for what the loop monitors. -/
def Balanced (s : Connector) (es : List ConnectorEvent) (s' : Connector) : Prop :=
  ∀ fd, ended es fd + s'.watch fd = es.count (.created fd) + s.watch fd

theorem Connect.makes {saveError : Errno} (h : Connect s saveError es s') :
    Makes es s.sockets s'.sockets := by
  refine .inr ?_
  cases h with
  | waits hret hchannel => exact ⟨rfl, fun fd => by simp [List.count_cons]⟩
  | second hret hchannel => exact ⟨rfl, fun fd => by simp [List.count_cons]⟩
  | retries hret hmore =>
    exact ⟨rfl, fun fd => by simp [List.count_cons, hmore.count_created]⟩
  | givesUp hret => exact ⟨rfl, fun fd => by simp [List.count_cons]⟩

theorem Connect.balanced {saveError : Errno} (h : Connect s saveError es s')
    (hrunning : s'.aborted = false) : Balanced s es s' := by
  intro fd
  cases h with
  | waits hret hchannel =>
    rw [watch_of_some rfl rfl, watch_of_none hchannel]
    simp [ended, List.count_cons]
  | second hret hchannel => cases hrunning
  | retries hret hmore =>
    change ended ([.created s.sockets] ++ _) fd + s.watch fd = _ + s.watch fd
    rw [ended_append, hmore.ended_retry]
    simp [ended, List.count_cons, hmore.count_created]
  | givesUp hret =>
    change _ + s.watch fd = _ + s.watch fd
    simp [ended, List.count_cons]

theorem StartInloop.makes {ret : Errno} (h : StartInloop s ret es s') :
    Makes es s.sockets s'.sockets := by
  cases h with
  | late hstate => exact .inl ⟨rfl, fun fd => by simp⟩
  | stopped hstate hconnect => exact .inl ⟨rfl, fun fd => by simp⟩
  | connects hstate hconnect hes =>
    refine hes.makes.imp (And.imp_right ?_) (And.imp_right ?_)
    · intro hnone fd
      simpa [List.count_cons] using hnone fd
    · intro hone fd
      simpa [List.count_cons] using hone fd

theorem StartInloop.balanced {ret : Errno} (h : StartInloop s ret es s')
    (hrunning : s'.aborted = false) : Balanced s es s' := by
  intro fd
  cases h with
  | late hstate => cases hrunning
  | stopped hstate hconnect => simp [ended]
  | connects hstate hconnect hes =>
    simpa [ended, List.count_cons] using hes.balanced hrunning fd

theorem Handled.makes (h : Handled s es s') : Makes es s.sockets s'.sockets := by
  refine .inl ?_
  cases h with
  | nothing => exact ⟨rfl, fun fd => rfl⟩
  | retries hchannel hmonitored hmore =>
    exact ⟨rfl, fun fd => by simp [hmore.count_created]⟩
  | connected hchannel hmonitored hstate hconnect => exact ⟨rfl, fun fd => by simp⟩
  | dropped hchannel hmonitored hstate hconnect => exact ⟨rfl, fun fd => by simp⟩

/-- The socket that the loop no longer monitors is closed or handed over. -/
theorem Handled.balanced (h : Handled s es s') (hwf : s.WellFormed) : Balanced s es s' := by
  intro fd
  have hfd : ∀ channel, s.channel_ = some channel → s.monitored = true →
      s.watch fd = if channel.fd_ = fd then 1 else 0 := by
    intro channel hchannel hmonitored
    obtain ⟨fd', hwatched⟩ := hwf.watched hmonitored
    rw [watch_of_some hmonitored hwatched]
    rw [hchannel, Option.some.injEq] at hwatched
    rw [hwatched]
    rfl
  cases h with
  | nothing => simp [ended]
  | @retries channel timers retryDelayMs more hchannel hmonitored hmore =>
    rw [watch_of_not_monitored rfl, hfd channel hchannel hmonitored, hmore.ended_retry]
    simp [hmore.count_created]
  | @connected channel hchannel hmonitored hstate hconnect =>
    rw [watch_of_not_monitored rfl, hfd channel hchannel hmonitored]
    simp [ended, List.count_cons]
  | @dropped channel hchannel hmonitored hstate hconnect =>
    rw [watch_of_not_monitored rfl, hfd channel hchannel hmonitored]
    simp [ended, List.count_cons]

theorem Step.makes {a : ConnectorAction} (h : Step s a es s') : Makes es s.sockets s'.sockets := by
  cases h with
  | start hstart => exact hstart.makes
  | startElsewhere => exact .inl ⟨rfl, fun fd => rfl⟩
  | queueStart => exact .inl ⟨rfl, fun fd => rfl⟩
  | stop => exact .inl ⟨rfl, fun fd => rfl⟩
  | restart hstart =>
    refine hstart.makes.imp (And.imp_right ?_) (And.imp_right ?_)
    · intro hnone fd
      simpa [List.count_cons] using hnone fd
    · intro hone fd
      simpa [List.count_cons] using hone fd
  | timer hstart => exact hstart.makes
  | callStart hfunctors hstart => exact hstart.makes
  | callReset hfunctors => exact .inl ⟨rfl, fun fd => by simp⟩
  | handleEvent hmonitored hhandled => exact hhandled.makes

/-- The channel that is reset is one that the loop has given up. -/
theorem WellFormed.not_monitored_of_reset {rest : List ConnectorFunctor} (h : s.WellFormed)
    (hfunctors : s.functors = .resetChannel :: rest) : s.monitored = false := by
  have hresets := h.resets
  rw [hfunctors, List.count_cons_self] at hresets
  split at hresets
  · rename_i hgone
    exact hgone.2
  · omega

theorem Step.balanced {a : ConnectorAction} (h : Step s a es s') (hwf : s.WellFormed)
    (hrunning : s'.aborted = false) : Balanced s es s' := by
  intro fd
  cases h with
  | start hstart => exact hstart.balanced hrunning fd
  | startElsewhere => rfl
  | queueStart => rfl
  | stop => rfl
  | restart hstart => simpa [ended, List.count_cons, watch] using hstart.balanced hrunning fd
  | timer hstart => exact hstart.balanced hrunning fd
  | callStart hfunctors hstart => exact hstart.balanced hrunning fd
  | callReset hfunctors =>
    rw [watch_of_not_monitored rfl, watch_of_not_monitored (hwf.not_monitored_of_reset hfunctors)]
    simp [ended]
  | handleEvent hmonitored hhandled => exact hhandled.balanced hwf fd

/-- Outside assertions that failed, the loop monitors the channel exactly while the
    attempt is under way. -/
def Apart (s : Connector) : Prop :=
  s.aborted = false → (s.monitored = true ↔ s.state_ = .kConnecting)

theorem StartInloop.apart {ret : Errno} (h : StartInloop s ret es s')
    (hnot : s.state_ = .kDisconnect → s.monitored = false) : s'.Apart := by
  intro hrunning
  cases h with
  | late hstate => cases hrunning
  | stopped hstate hconnect => simp [hstate, hnot hstate]
  | connects hstate hconnect hes =>
    cases hes with
    | waits hret hchannel => simp
    | second hret hchannel => cases hrunning
    | retries hret hmore => simp [retried, hnot hstate]
    | givesUp hret => simp [hstate, hnot hstate]

theorem Handled.apart (h : Handled s es s') (hapart : s.Apart) : s'.Apart := by
  cases h with
  | nothing => exact hapart
  | retries hchannel hmonitored hmore => intro _; simp [retried, release]
  | connected hchannel hmonitored hstate hconnect => intro _; simp [setState, release]
  | dropped hchannel hmonitored hstate hconnect => intro _; simp [setState, release]

theorem Step.apart {a : ConnectorAction} {tr : List ConnectorEvent} (h : Step s a es s')
    (hcond : restartsApart tr s a) (hwf : s.WellFormed) (hrunning : s.aborted = false)
    (hapart : s.Apart) : s'.Apart := by
  have hiff := hapart hrunning
  have hnot : s.state_ = .kDisconnect → s.monitored = false := by
    intro hstate
    rw [hstate] at hiff
    simpa using hiff
  cases h with
  | start hstart => exact hstart.apart hnot
  | startElsewhere => exact hapart
  | queueStart => exact hapart
  | stop => exact hapart
  | @restart s' es ret hstart =>
    refine hstart.apart (fun _ => ?_)
    have hidle : s.state_ ≠ .kConnecting := hcond ret rfl
    rw [← Bool.not_eq_true, hiff]
    exact hidle
  | timer hstart => exact hstart.apart hnot
  | callStart hfunctors hstart => exact hstart.apart hnot
  | callReset hfunctors =>
    intro _
    rw [← hiff, hwf.not_monitored_of_reset hfunctors]
  | handleEvent hmonitored hhandled => exact hhandled.apart hapart

/-- The books of a run: which sockets were made, and that each of them was closed or
    handed over, unless the loop monitors it. -/
structure Books (tr : List ConnectorEvent) (s : Connector) : Prop where
  wellFormed : s.WellFormed
  apart : s.Apart
  made : ∀ fd, tr.count (.created fd) = if 0 ≤ fd ∧ fd < s.sockets then 1 else 0
  balanced : s.aborted = false → ∀ fd, ended tr fd + s.watch fd = tr.count (.created fd)

theorem books_new : Books [] new where
  wellFormed := wellFormed_new
  apart := fun _ => ⟨nofun, nofun⟩
  made := by
    intro fd
    rw [if_neg (by simp [new])]
    rfl
  balanced := fun _ fd => rfl

theorem books_step {tr : List ConnectorEvent} {a : ConnectorAction} (h : Books tr s)
    (hcond : restartsApart tr s a) (hstep : s.step a = .ok (s', es)) : Books (tr ++ es) s' := by
  obtain ⟨hrunning, hstep⟩ := step_cases h.wellFormed hstep
  have hapart := hstep.apart hcond h.wellFormed hrunning h.apart
  refine ⟨wellFormed_step h.wellFormed hstep, hapart, ?_, ?_⟩
  · intro fd
    rw [List.count_append, h.made fd]
    rcases hstep.makes with ⟨hsockets, hnone⟩ | ⟨hsockets, hone⟩
    · rw [hnone fd, hsockets, Nat.add_zero]
    · rw [hone fd, hsockets]
      split <;> split <;> split <;> omega
  · intro hrunning' fd
    have hbefore := h.balanced hrunning fd
    have hafter := hstep.balanced h.wellFormed hrunning' fd
    rw [ended_append, List.count_append]
    omega

theorem reach_books {tr : List ConnectorEvent} (h : machine.Reach restartsApart tr s) :
    Books tr s := by
  refine Machine.Reach.invariant (I := fun tr s => Books tr s) ?_ ?_ h
  · rintro s rfl
    exact books_new
  · exact fun tr s a s' es _ hbooks hcond hstep => books_step hbooks hcond hstep

theorem watch_eq_of_apart (hapart : s.Apart) (hrunning : s.aborted = false) :
    s.watch fd = if s.Monitors fd then 1 else 0 := by
  have hiff := hapart hrunning
  unfold watch Monitors
  by_cases hmonitored : s.monitored = true
  · simp [hmonitored, hiff.mp hmonitored]
  · simp [hmonitored]

/-- A socket that was made was made once, and exactly one of these holds, and once only:
    it is monitored, it was closed, or it was handed over. -/
theorem one_fate {tr : List ConnectorEvent} (h : machine.Reach restartsApart tr s)
    (hrunning : s.aborted = false) {fd : Int} (hcreated : .created fd ∈ tr) :
    tr.count (.created fd) = 1 ∧
      (if s.Monitors fd then 1 else 0) + tr.count (.closed fd) + tr.count (.connected fd) = 1 := by
  have hbooks := reach_books h
  have hone : tr.count (.created fd) = 1 := by
    have hpositive := List.count_pos_iff.mpr hcreated
    have hmade := hbooks.made fd
    split at hmade <;> omega
  refine ⟨hone, ?_⟩
  have hbalanced := hbooks.balanced hrunning fd
  rw [watch_eq_of_apart hbooks.apart hrunning, ended, hone] at hbalanced
  omega

/-- The first socket is refused late, the second is handed over, and the third, made after
    a `restart()`, is monitored. -/
theorem one_fate_of_each_kind :
    ∃ (tr : List ConnectorEvent) (s : Connector), machine.Reach restartsApart tr s ∧
      s.aborted = false ∧ .created 0 ∈ tr ∧
      (.closed 0 ∈ tr ∧ .connected 1 ∈ tr ∧ s.Monitors 2) ∧
        tr.count (.closed 0) + tr.count (.connected 0) = 1 := by
  have hruns : machine.runsIn restartsApart new
      [.start EINPROGRESS, .handleEvent (POLLERR ||| POLLOUT) ECONNREFUSED false, .callFunctor 0,
        .timer EINPROGRESS, .handleEvent POLLOUT 0 false, .callFunctor 0, .restart EINPROGRESS]
      (fun tr s => s.aborted = false ∧ .created 0 ∈ tr ∧ ¬ s.Monitors 0 ∧
        .closed 0 ∈ tr ∧ .connected 1 ∈ tr ∧ s.Monitors 2) = true := by
    decide +kernel
  obtain ⟨tr, s, hreach, htest⟩ := Machine.exists_reachIn rfl hruns
  obtain ⟨hrunning, hcreated, hother, hshape⟩ := of_decide_eq_true htest
  have hfate := (one_fate hreach hrunning hcreated).2
  rw [if_neg hother] at hfate
  exact ⟨tr, s, hreach, hrunning, hcreated, hshape, by omega⟩

end Connector

end TcpNet
