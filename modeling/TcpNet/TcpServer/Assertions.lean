import TcpNet.TcpServer.Lifecycle

open Transition

namespace TcpNet

namespace System

open Lifeline

section GoesThrough

variable {s : System} {c : ConnId} {v : Lifeline}

theorem removeConnectionInLoop_goes_through (hview : s.view c = some v) :
    ∃ out, s.removeConnectionInLoop baseLoop c = .ok out := by
  rw [removeConnectionInLoop, require_of rfl, ok_bind, conn_eq_ok_iff.mpr (conn_of_view hview),
    ok_bind]
  split <;> exact ⟨_, rfl⟩

theorem performOne_goes_through (hview : s.view c = some v) (here : ThreadId) (effect : Effect) :
    ∃ out, s.performOne here c effect = .ok out := by
  cases effect with
  | closeCallBack =>
    simp only [performOne, removeConnection]
    by_cases hbase : here = baseLoop
    · rw [if_pos hbase, hbase]
      exact removeConnectionInLoop_goes_through hview
    · rw [if_neg hbase]
      exact ⟨_, rfl⟩
  | updateChannel | removeChannel | written _ | shutdownWrite | connectionCallBack _
  | messageCallBack => exact ⟨_, rfl⟩

theorem perform_goes_through {s : System} {v : Lifeline} (hwf : s.WellFormed)
    (hview : s.view c = some v) (here : ThreadId) (effects : List Effect) :
    ∃ out, s.perform here c effects = .ok out := by
  induction effects generalizing s v with
  | nil => exact ⟨_, rfl⟩
  | cons effect rest ih =>
    obtain ⟨⟨s₁, first⟩, hfirst⟩ := performOne_goes_through hview here effect
    have hacts := performOne_acts hwf hview hfirst
    obtain ⟨⟨s₂, others⟩, hrest⟩ := ih (hwf.of_steady hacts.steady) hacts.own
    simp only [perform, hfirst, ok_bind, hrest]
    exact ⟨_, rfl⟩

theorem callAfter_goes_through (hwf : s.WellFormed) (hview : s.view c = some v)
    {here : ThreadId} {first : List ConnEvent}
    {f : TcpConnection → Except Stop (TcpConnection × List Effect)}
    (hf : ∃ out, f v.conn = .ok out)
    (hkeeps : ∀ conn conn' effects, f conn = .ok (conn', effects) → conn.Same conn') :
    ∃ out, s.callAfter here c first f = .ok out := by
  obtain ⟨⟨conn', effects⟩, hrun⟩ := hf
  have hsame := hkeeps _ _ _ hrun
  have hset := actsOn_setConn hview hsame.loop hsame.name
  have hsteady := hwf.of_steady hset.steady
  obtain ⟨⟨s', es⟩, hperform⟩ := perform_goes_through hsteady hset.own here effects
  simp only [callAfter, call, conn_eq_ok_iff.mpr (conn_of_view hview), ok_bind, hrun, hperform]
  exact ⟨_, rfl⟩

end GoesThrough

theorem ne_assertion_of_goes_through {A : Type} {x : Except Stop A} (h : ∃ out, x = .ok out) :
    x ≠ .error .assertion := by
  obtain ⟨out, hout⟩ := h
  rw [hout]
  simp

/-- A guard in front of a step that goes through does not make an assertion fail. -/
theorem enabled_bind_ne_assertion {A : Type} {test : Prop} [Decidable test] {x : Except Stop A}
    (h : test → x ≠ .error .assertion) : (enabled test >>= fun _ => x) ≠ .error .assertion := by
  by_cases htest : test
  · rw [enabled_of htest, ok_bind]
    exact h htest
  · simp [enabled, htest]

section Steps

variable {s : System}

theorem conn_ne_assertion {c : ConnId} : s.conn c ≠ .error .assertion := by
  unfold System.conn
  split <;> simp [throw, throwThe, MonadExceptOf.throw]

theorem loops_ne_assertion (loop : EventLoop Functor) :
    loop.loop ≠ .error .assertion ∧ loop.pollReturns ≠ .error .assertion ∧
      loop.enterPending ≠ .error .assertion ∧ loop.swapPending ≠ .error .assertion ∧
      loop.leavePending ≠ .error .assertion ∧ loop.nextFunctor ≠ .error .assertion := by
  refine ⟨?_, ?_, ?_, ?_, ?_, ?_⟩
  · exact enabled_bind_ne_assertion (by simp)
  · exact enabled_bind_ne_assertion (by simp)
  · exact enabled_bind_ne_assertion (by simp)
  · exact enabled_bind_ne_assertion (by simp)
  · refine enabled_bind_ne_assertion (fun _ => ?_)
    split <;> simp [throw, throwThe, MonadExceptOf.throw]
  · refine enabled_bind_ne_assertion (fun _ => ?_)
    split <;> simp [throw, throwThe, MonadExceptOf.throw]

/-- A task at the head of the queue finds the state it asserts. -/
theorem run_goes_through {v : Lifeline} {ces : List ConnEvent} (hstage : Stage ces v) {task : Task}
    {rest : List Task} (hqueue : v.queue = task :: rest)
    (htask : task ≠ .removeConnectionInLoop) (io : WriteResult) :
    ∃ out, task.run v.conn v.conn.loop_ io = .ok out := by
  cases task with
  | connectEestablished =>
    refine TcpConnection.connectEestablished_goes_through rfl ?_
    cases hstage with
    | pending _ hstate => exact hstate
    | live _ _ _ hnone => exact absurd (by simp [hqueue]) hnone.1
    | doomed _ _ _ hnone => exact absurd (by simp [hqueue]) hnone
    | gone _ _ _ _ _ hnone => exact absurd (by simp [hqueue]) hnone.1
  | connectDestory =>
    refine TcpConnection.connectDestory_goes_through rfl ?_
    cases hstage with
    | pending _ _ _ _ hone => rw [hqueue] at hone; cases hone
    | live _ _ _ hnone => exact absurd (by simp [hqueue]) hnone.2
    | doomed _ hstate => exact hstate
    | gone _ _ _ _ _ hnone => exact absurd (by simp [hqueue]) hnone.2
  | removeConnectionInLoop => exact absurd rfl htask
  | sendInloop caller message => exact TcpConnection.sendInloop_goes_through message io rfl
  | shutdownInloop => exact TcpConnection.shutdownInloop_goes_through rfl

/-- Neither the assertions about states nor those about threads or buffers fail in
    a system whose connections are all in one of the stages. -/
theorem step_ne_assertion (hwf : s.WellFormed)
    (hstages : ∀ c v, s.view c = some v → ∃ ces, Stage ces v) (a : Action) :
    s.step a ≠ .error .assertion := by
  have hof : ∀ {A B : Type} {x : Except Stop A} {f : A → B}, x ≠ .error .assertion →
      (x >>= fun loop => pure (f loop)) ≠ .error .assertion := by
    intro A B x f hx hbind
    rcases bind_eq_error_iff.mp hbind with hx' | ⟨_, _, hpure⟩
    · exact hx hx'
    · exact pure_ne_error hpure
  cases a with
  | loop l => exact hof (loops_ne_assertion _).1
  | pollReturns l active =>
    intro hstep
    rcases bind_eq_error_iff.mp hstep with hloop | ⟨_, _, hrest⟩
    · exact (loops_ne_assertion _).2.1 hloop
    · exact enabled_bind_ne_assertion (fun _ => pure_ne_error) hrest
  | handleWakeup l => exact enabled_bind_ne_assertion (fun _ => pure_ne_error)
  | enterPending l =>
    exact enabled_bind_ne_assertion (fun _ => hof (loops_ne_assertion _).2.2.1)
  | swapPending l => exact hof (loops_ne_assertion _).2.2.2.1
  | leavePending l => exact hof (loops_ne_assertion _).2.2.2.2.1
  | accept sockfd =>
    refine enabled_bind_ne_assertion (fun _ => ?_)
    rw [newConnection, require_of rfl, ok_bind]
    refine enabled_bind_ne_assertion (fun _ => ?_)
    generalize s.server.threadpoll_.getNextLoop = next
    obtain ⟨ioLoop, pool⟩ := next
    simp only
    by_cases hinline : baseLoop = ioLoop
    · rw [if_pos hinline]
      refine ne_assertion_of_goes_through
        (callAfter_goes_through (wellFormed_enrolled hwf) (view_enrolled_self hwf) ?_ ?_)
      · exact TcpConnection.connectEestablished_goes_through hinline rfl
      · intro conn conn' effects hrun
        obtain ⟨_, _, rfl, _⟩ := TcpConnection.connectEestablished_eq_ok hrun
        exact ⟨rfl, rfl⟩
    · rw [if_neg hinline]
      exact pure_ne_error
  | handleEvent l io =>
    simp only [step]
    cases hcallbacks : s.callbacks l with
    | nil => simp [throw, throwThe, MonadExceptOf.throw]
    | cons entry rest =>
      obtain ⟨c, handler⟩ := entry
      obtain ⟨hwf₁, ⟨v, hview, hloop, htodo, hview₁⟩, _⟩ := handler_taken hwf hcallbacks
      obtain ⟨ces, hstage⟩ := hstages c v hview
      refine ne_assertion_of_goes_through (callAfter_goes_through hwf₁ hview₁ ?_ ?_)
      · exact TcpConnection.callBack_goes_through handler io hloop.symm
          (hstage.open_of_todo (by simp [htodo]))
      · exact fun _ _ _ hrun => (TcpConnection.callBack_same hrun).1
  | callFunctor l io =>
    intro hstep
    rcases bind_eq_error_iff.mp hstep with hnext | ⟨⟨⟨c, task⟩, loop⟩, hnext, hrun⟩
    · exact (loops_ne_assertion _).2.2.2.2.2 hnext
    obtain ⟨hphase, rest, hfunctors, rfl⟩ := EventLoop.nextFunctor_eq_ok hnext
    by_cases htask : task = .removeConnectionInLoop
    · subst htask
      obtain ⟨hbase, v, removals, _, _, hview₁⟩ := removal_taken hwf hfunctors
      subst hbase
      exact ne_assertion_of_goes_through (removeConnectionInLoop_goes_through hview₁) hrun
    · obtain ⟨v, queue, hview, hl, hqueue, _, hview₁⟩ := task_taken hwf htask hphase hfunctors
      obtain ⟨ces, hstage⟩ := hstages c v hview
      simp only [runFunctor_task htask] at hrun
      refine ne_assertion_of_goes_through (callAfter_goes_through
        (wellFormed_nextFunctor hwf hphase hfunctors) hview₁ ?_ ?_) hrun
      · rw [← hl]
        exact run_goes_through hstage hqueue htask io
      · exact fun _ _ _ hrun => run_same hrun
  | send t c message io =>
    refine enabled_bind_ne_assertion (fun _ => ?_)
    intro hsend
    rcases bind_eq_error_iff.mp hsend with hconn | ⟨conn, hconn, hrest⟩
    · exact conn_ne_assertion hconn
    obtain ⟨v, hview, rfl⟩ := exists_view_of_conn hconn
    by_cases hstate : v.conn.state_ = .kConnected
    · rw [if_pos hstate] at hrest
      by_cases hhere : t = v.conn.loop_
      · rw [if_pos hhere] at hrest
        rcases bind_eq_error_iff.mp hrest with hcall | ⟨_, _, hpure⟩
        · refine ne_assertion_of_goes_through (callAfter_goes_through hwf hview ?_ ?_) hcall
          · exact TcpConnection.sendInloop_goes_through message io hhere
          · exact fun _ _ _ hrun => (TcpConnection.sendInloop_same hrun).1
        · exact pure_ne_error hpure
      · rw [if_neg hhere] at hrest
        exact pure_ne_error hrest
    · rw [if_neg hstate] at hrest
      exact pure_ne_error hrest
  | shutdown t c =>
    refine enabled_bind_ne_assertion (fun _ => ?_)
    intro hshutdown
    rcases bind_eq_error_iff.mp hshutdown with hconn | ⟨conn, hconn, hrest⟩
    · exact conn_ne_assertion hconn
    obtain ⟨v, hview, rfl⟩ := exists_view_of_conn hconn
    by_cases hstate : v.conn.state_ = .kConnected
    · rw [if_pos hstate] at hrest
      by_cases hhere : t = v.conn.loop_
      · rw [if_pos hhere] at hrest
        refine ne_assertion_of_goes_through (callAfter_goes_through hwf hview ?_ ?_) hrest
        · exact TcpConnection.shutdownInloop_goes_through hhere
        · intro conn conn' effects hrun
          obtain ⟨_, rfl, _⟩ := TcpConnection.shutdownInloop_eq_ok hrun
          exact ⟨rfl, rfl⟩
      · rw [if_neg hhere] at hrest
        exact pure_ne_error hrest
    · rw [if_neg hstate] at hrest
      exact pure_ne_error hrest
  | queueSend t | wakeupSend t | setDisconnecting t | queueShutdown t | wakeupShutdown t =>
    simp only [step]
    split
    · exact hof conn_ne_assertion
    · simp [throw, throwThe, MonadExceptOf.throw]
  | returnSend t =>
    simp only [step]
    split
    · exact pure_ne_error
    · simp [throw, throwThe, MonadExceptOf.throw]
  | retrieve c len =>
    intro hstep
    rcases bind_eq_error_iff.mp hstep with hconn | ⟨conn, _, hrest⟩
    · exact conn_ne_assertion hconn
    refine enabled_bind_ne_assertion (fun hlen => ?_) hrest
    obtain ⟨input, hretrieve, _⟩ := conn.inputBuffer_.retrieve_spec hlen.2
    rw [hretrieve, ok_bind]
    exact pure_ne_error

end Steps

/-- No thread but the loop's own sends on a connection. -/
def localSends : StepCondition System Action Event := fun _ s a =>
  ∀ t c message io, a = .send t c message io → ∀ loop, s.loopOf c = some loop → t = loop

theorem labelOf_eq_send {s : System} {c : ConnId} {a : Action} {t : ThreadId} {message : Bytes}
    {io : WriteResult} (h : s.labelOf c a = .send t message io) : a = .send t c message io := by
  cases a with
  | send t' c' message' io' =>
    by_cases hc : c' = c
    · simp only [labelOf, if_pos hc, Label.send.injEq] at h
      obtain ⟨rfl, rfl, rfl⟩ := h
      rw [hc]
    · simp [labelOf, hc] at h
  | shutdown t' c' =>
    by_cases hc : c' = c <;> simp [labelOf, hc] at h
  | handleEvent l io' =>
    simp only [labelOf] at h
    split at h
    · split at h <;> cases h
    · cases h
  | callFunctor l io' =>
    simp only [labelOf] at h
    split at h
    · split at h <;> cases h
    · cases h
  | loop | pollReturns | handleWakeup | accept | enterPending | swapPending | leavePending
  | queueSend | wakeupSend | returnSend | setDisconnecting | queueShutdown | wakeupShutdown
  | retrieve => cases h

theorem everywhere_of_localSends {tr : List Event} {s : System} {a : Action}
    (h : localSends tr s a) : everywhere LocalSends tr s a := by
  intro c v hview t message io hlabel
  exact h t c message io (labelOf_eq_send hlabel) _ (loopOf_of_view hview)

theorem reach_localLife {tr : List Event} {s : System} (h : machine.Reach localSends tr s)
    (c : ConnId) :
    match s.view c with
    | none => eventsOf c tr = []
    | some v => LocalLife (eventsOf c tr) v :=
  reach_view (fun _ _ hborn => localLife_born hborn)
    (fun _ _ _ _ _ hlife hcond hstep => localLife_step hlife hcond hstep)
    (h.mono (fun _ _ _ => everywhere_of_localSends)) c

theorem mapped_iff_of_stage {tr : List ConnEvent} {v : Lifeline} (h : Stage tr v) :
    v.mapped = true ↔ .erased ∉ tr := by
  have herased : .erased ∈ tr ↔ .erased ∈ milestonesOf tr := by
    simp [milestonesOf, ConnEvent.isMilestone]
  rw [herased]
  cases h with
  | pending htr _ hmapped => simp [htr, hmapped, milestones]
  | live htr _ hmapped => simp [htr, hmapped, milestones]
  | doomed htr _ hmapped => simp [htr, hmapped, milestones]
  | gone htr _ _ hmapped => simp [htr, hmapped, milestones]

/-- With sends from the loops' own threads only, every connection goes through its
    milestones in order, each once at most, and its handlers run behind the second;
    `connects_` holds exactly the connections not yet erased, under distinct keys;
    and no assertion fails in any step. -/
theorem connection_lifecycle {tr : List Event} {s : System} (h : machine.Reach localSends tr s) :
    (∀ c, milestonesOf (eventsOf c tr) <+: milestones ∧ HandlersEstablished (eventsOf c tr)) ∧
      (∀ c conn, s.conns c = some conn →
        (s.server.connects_ conn.name_ = some c ↔ .erased ∉ eventsOf c tr) ∧
        ∀ c' conn', s.conns c' = some conn' → conn'.name_ = conn.name_ → c' = c) ∧
      ∀ a, s.step a ≠ .error .assertion := by
  have hwf := reach_wellFormed h
  have hlife : ∀ c v, s.view c = some v → LocalLife (eventsOf c tr) v := by
    intro c v hview
    have hinv := reach_localLife h c
    rw [hview] at hinv
    exact hinv
  refine ⟨fun c => ?_, fun c conn hconn => ⟨?_, ?_⟩, ?_⟩
  · cases hview : s.view c with
    | none =>
      have hquiet := reach_localLife h c
      rw [hview] at hquiet
      rw [hquiet]
      exact ⟨List.nil_prefix, Trace.guarded_nil⟩
    | some v =>
      have hl := (hlife c v hview).life
      refine ⟨?_, hl.handlers⟩
      cases hl.stage with
      | pending htr => rw [htr]; exact List.take_prefix _ _
      | live htr => rw [htr]; exact List.take_prefix _ _
      | doomed htr => rw [htr]; exact List.take_prefix _ _
      | gone htr => exact htr ▸ List.prefix_rfl
  · obtain ⟨v, hview, rfl⟩ := exists_view_of_conn (conn_eq_ok_iff.mpr hconn)
    rw [← mapped_iff_of_stage (hlife c v hview).life.stage, mapped_of_view hview, beq_iff_eq]
  · intro c' conn' hconn' hname
    have hnamed : ∀ {c conn}, s.conns c = some conn → conn.name_ = connName s.server.name_ c :=
      fun {c conn} hconn => hwf.named c _ (by simp [nameOf, hconn])
    exact connName_inj ((hnamed hconn').symm.trans (hname.trans (hnamed hconn)))
  · exact step_ne_assertion hwf (fun c v hview => ⟨_, (hlife c v hview).life.stage⟩)

/-- A hang-up makes the connection close twice; both removals reach the base loop. -/
def hangup : List Action :=
  opening ++ nextBatch 1 [(1, POLLHUP ||| POLLIN)]
      [⟨.delivered [], .accepted 0⟩, ⟨.delivered [], .accepted 0⟩] ++
    [.enterPending 0, .swapPending 0, .callFunctor 0 (.accepted 0), .callFunctor 0 (.accepted 0)] ++
    nextBatch 1 [] [] ++ [.callFunctor 1 (.accepted 0)]

/-- Two closings make one end. -/
theorem connection_lifecycle_hangup : ∃ tr s, machine.Reach localSends tr s ∧
    milestonesOf (eventsOf 1 tr) = milestones ∧
    (∀ c, milestonesOf (eventsOf c tr) <+: milestones ∧ HandlersEstablished (eventsOf c tr)) ∧
      (∀ c conn, s.conns c = some conn →
        (s.server.connects_ conn.name_ = some c ↔ .erased ∉ eventsOf c tr) ∧
        ∀ c' conn', s.conns c' = some conn' → conn'.name_ = conn.name_ → c' = c) ∧
      ∀ a, s.step a ≠ .error .assertion := by
  have hruns : machine.runs (start [] 1) hangup
      (fun tr _ => milestonesOf (eventsOf 1 tr) = milestones) = true := by
    decide +kernel
  have hlocal : ∀ a ∈ hangup, ∀ tr s, localSends tr s a := by
    simp [hangup, opening, nextBatch, localSends]
  obtain ⟨tr, s, hreach, htest⟩ := Machine.exists_reach_of (started_start [] 1) hlocal hruns
  exact ⟨tr, s, hreach, of_decide_eq_true htest, connection_lifecycle hreach⟩

end System

end TcpNet
