import TcpNet.Library.Trace
import TcpNet.TcpServer.Stream

open Transition Trace

namespace TcpNet

/-- The life of a connection: what happens once at most, and the order of it. -/
def milestones : List ConnEvent :=
  [.accepted, .established, .effect (.connectionCallBack .kConnected), .erased, .destroyQueued,
    .destroyed, .effect (.connectionCallBack .kDisconnected), .effect .removeChannel]

/-- The events that belong to `milestones`, and the connection callback in any
    other state. -/
def ConnEvent.isMilestone : ConnEvent → Bool
  | .accepted | .established | .erased | .destroyQueued | .destroyed => true
  | .effect (.connectionCallBack _) | .effect .removeChannel => true
  | _ => false

def milestonesOf (tr : List ConnEvent) : List ConnEvent := tr.filter (·.isMilestone)

/-- `connectDestory` has run to its end. -/
def ConnectDestoryRan (tr : List ConnEvent) : Prop := .effect .removeChannel ∈ tr

instance (tr : List ConnEvent) : Decidable (ConnectDestoryRan tr) :=
  inferInstanceAs (Decidable (_ ∈ _))

@[simp] theorem milestonesOf_append (tr es : List ConnEvent) :
    milestonesOf (tr ++ es) = milestonesOf tr ++ milestonesOf es :=
  List.filter_append ..

theorem connectDestoryRan_iff {tr : List ConnEvent} :
    ConnectDestoryRan tr ↔ .effect .removeChannel ∈ milestonesOf tr := by
  simp [ConnectDestoryRan, milestonesOf, ConnEvent.isMilestone]

namespace Lifeline

/-- A queued message that is executed after `connectDestory` needs nothing of the
    output buffer. -/
def SendsWholeOnceDestroyed : Condition := fun tr v label =>
  ∀ io, label = .task io → ∀ caller message rest, v.queue = .sendInloop caller message :: rest →
    ConnectDestoryRan tr → v.conn.SendsWhole message io

theorem perform_plain (v : Lifeline) (here : ThreadId) {effects : List Effect}
    (h : ∀ e ∈ effects, e.isPlain = true) :
    v.perform here effects =
      ({ v with polled := v.polled || decide (.updateChannel ∈ effects) },
        effects.map .effect) := by
  induction effects generalizing v with
  | nil => simp [perform]
  | cons effect rest ih =>
    have hrest : ∀ e ∈ rest, e.isPlain = true := fun e he => h e (List.mem_cons_of_mem _ he)
    have hfirst := h effect List.mem_cons_self
    cases effect with
    | updateChannel => simp [perform, performOne, ih _ hrest]
    | written _ | shutdownWrite | messageCallBack => simp [perform, performOne, ih _ hrest]
    | removeChannel | connectionCallBack _ | closeCallBack => cases hfirst

theorem milestonesOf_plain {effects : List Effect} (h : ∀ e ∈ effects, e.isPlain = true) :
    milestonesOf (effects.map .effect) = [] := by
  rw [milestonesOf, List.filter_eq_nil_iff]
  intro e he
  obtain ⟨effect, hmem, rfl⟩ := List.mem_map.mp he
  have hplain := h effect hmem
  cases effect <;> simp_all [Effect.isPlain, ConnEvent.isMilestone]

/-- The functors that drive the life of a connection. -/
def noLifeTasks (queue : List Task) : Prop :=
  .connectEestablished ∉ queue ∧ .connectDestory ∉ queue

/-- Between `connectEestablished` and `connectDestory`. -/
def Open (conn : TcpConnection) : Prop :=
  conn.state_ = .kConnected ∨ conn.state_ = .kDisconnecting

/-- The stages of a connection: its first functor is queued; it is in `connects_`;
    it has left `connects_` and `connectDestory` is queued; that has run. -/
inductive Stage (tr : List ConnEvent) (v : Lifeline) : Prop
  | pending (htr : milestonesOf tr = milestones.take 1) (hstate : v.conn.state_ = .kConnecting)
      (hmapped : v.mapped = true) (hpolled : v.polled = false)
      (hqueue : v.queue = [.connectEestablished]) (hremovals : v.removals = 0)
      (htodo : v.todo = []) (hthreads : ∀ t, v.threads t = none)
  | live (htr : milestonesOf tr = milestones.take 3) (hstate : Open v.conn)
      (hmapped : v.mapped = true) (hqueue : noLifeTasks v.queue)
  | doomed (htr : milestonesOf tr = milestones.take 5) (hstate : Open v.conn)
      (hmapped : v.mapped = false) (hestablish : .connectEestablished ∉ v.queue)
      (hdestroy : v.queue.count .connectDestory = 1)
  | gone (htr : milestonesOf tr = milestones)
      (hstate : v.conn.state_ = .kDisconnected ∨ v.conn.state_ = .kDisconnecting)
      (hwriting : v.conn.channel_.isWriting = false) (hmapped : v.mapped = false)
      (hpolled : v.polled = false) (hqueue : noLifeTasks v.queue) (htodo : v.todo = [])

/-- Event handlers run on established connections only. -/
def HandlersEstablished (tr : List ConnEvent) : Prop :=
  Guarded (fun e => ∃ handler, e = .handler handler) (.established ∈ ·) tr

theorem stage_born {es : List ConnEvent} {v : Lifeline} (h : Born es v) : Stage es v := by
  cases h with
  | queued loop name sockfd => exact .pending rfl rfl rfl rfl rfl rfl rfl (fun _ => rfl)
  | inline loop name sockfd hrun hperform =>
    obtain ⟨_, _, rfl, rfl⟩ := TcpConnection.connectEestablished_eq_ok hrun
    simp only [perform, performOne, Prod.mk.injEq] at hperform
    obtain ⟨rfl, rfl⟩ := hperform
    exact .live rfl (.inl rfl) rfl (by simp [new, noLifeTasks])

section Steps

variable {tr es : List ConnEvent} {v v' : Lifeline} {label : Label}

theorem Stage.ran_iff (h : Stage tr v) : ConnectDestoryRan tr ↔ milestonesOf tr = milestones := by
  rw [connectDestoryRan_iff]
  cases h <;> simp [*, milestones]

theorem Stage.gone_of_ran (h : Stage tr v) (hran : ConnectDestoryRan tr) :
    (v.conn.state_ = .kDisconnected ∨ v.conn.state_ = .kDisconnecting) ∧
      v.conn.channel_.isWriting = false ∧ v.polled = false ∧ v.todo = [] := by
  have hall := h.ran_iff.mp hran
  cases h with
  | pending htr => rw [htr] at hall; exact absurd hall (by decide)
  | live htr => rw [htr] at hall; exact absurd hall (by decide)
  | doomed htr => rw [htr] at hall; exact absurd hall (by decide)
  | gone _ hstate hwriting _ hpolled _ htodo => exact ⟨hstate, hwriting, hpolled, htodo⟩

/-- `v'` differs from `v` in nothing that moves a connection to another stage. -/
structure Calm (v v' : Lifeline) : Prop where
  state : v'.conn.state_ = v.conn.state_ ∨ v'.conn.state_ = .kDisconnecting
  mapped : v'.mapped = v.mapped
  establish : .connectEestablished ∈ v'.queue → .connectEestablished ∈ v.queue
  destroy : v'.queue.count .connectDestory = v.queue.count .connectDestory

theorem noLifeTasks_of_calm {queue queue' : List Task} (h : noLifeTasks queue)
    (hestablish : .connectEestablished ∈ queue' → .connectEestablished ∈ queue)
    (hdestroy : queue'.count .connectDestory = queue.count .connectDestory) :
    noLifeTasks queue' := by
  refine ⟨fun hmem => h.1 (hestablish hmem), ?_⟩
  rw [← List.count_eq_zero, hdestroy, List.count_eq_zero]
  exact h.2

theorem open_of_state {conn conn' : TcpConnection} (h : Open conn)
    (hstate : conn'.state_ = conn.state_ ∨ conn'.state_ = .kDisconnecting) : Open conn' := by
  rcases hstate with hsame | hset
  · unfold Open
    rw [hsame]
    exact h
  · exact .inr hset

/-- Past the first stage a calm step stays in its stage; behind `connectDestory` it
    must also leave the channel alone. -/
theorem Stage.calm (h : Stage tr v) (hbegun : v.conn.state_ ≠ .kConnecting)
    (htr : milestonesOf es = []) (hcalm : Calm v v')
    (hgone : ConnectDestoryRan tr →
      v'.conn.channel_.isWriting = false ∧ v'.polled = false ∧ v'.todo = []) :
    Stage (tr ++ es) v' := by
  have hsame : milestonesOf (tr ++ es) = milestonesOf tr := by
    rw [milestonesOf_append, htr, List.append_nil]
  have hran := h.ran_iff
  cases h with
  | pending _ hstate => exact absurd hstate hbegun
  | live hmilestones hstate hmapped hqueue =>
    exact .live (hsame.trans hmilestones) (open_of_state hstate hcalm.state)
      (hcalm.mapped.trans hmapped) (noLifeTasks_of_calm hqueue hcalm.establish hcalm.destroy)
  | doomed hmilestones hstate hmapped hestablish hdestroy =>
    exact .doomed (hsame.trans hmilestones) (open_of_state hstate hcalm.state)
      (hcalm.mapped.trans hmapped) (fun hmem => hestablish (hcalm.establish hmem))
      (hcalm.destroy.trans hdestroy)
  | gone hmilestones hstate _ hmapped _ hqueue _ =>
    obtain ⟨hwriting, hpolled, htodo⟩ := hgone (hran.mpr hmilestones)
    refine .gone (hsame.trans hmilestones) ?_ hwriting (hcalm.mapped.trans hmapped) hpolled
      (noLifeTasks_of_calm hqueue hcalm.establish hcalm.destroy) htodo
    rcases hcalm.state with hkept | hset
    · rw [hkept]
      exact hstate
    · exact .inr hset

/-- A removal takes a live connection to its next stage, and leaves it alone later. -/
theorem Stage.remove (h : Stage tr v) (hbegun : v.conn.state_ ≠ .kConnecting)
    (hremove : v.removeConnectionInLoop = (v', es)) : Stage (tr ++ es) v' := by
  unfold removeConnectionInLoop at hremove
  by_cases hmapped : v.mapped = true
  · rw [if_pos hmapped, Prod.mk.injEq] at hremove
    obtain ⟨rfl, rfl⟩ := hremove
    cases h with
    | pending _ hstate => exact absurd hstate hbegun
    | live htr hstate _ hqueue =>
      refine .doomed ?_ hstate rfl ?_ ?_
      · rw [milestonesOf_append, htr]
        rfl
      · simpa using hqueue.1
      · rw [List.count_append, List.count_eq_zero.mpr hqueue.2]
        rfl
    | doomed _ _ hunmapped => rw [hunmapped] at hmapped; cases hmapped
    | gone _ _ _ hunmapped => rw [hunmapped] at hmapped; cases hmapped
  · rw [if_neg hmapped, Prod.mk.injEq] at hremove
    obtain ⟨rfl, rfl⟩ := hremove
    rw [List.append_nil]
    exact h

/-- Only the first functor can move a connection out of its first stage. -/
theorem stage_step_pending (htr : milestonesOf tr = milestones.take 1)
    (hstate : v.conn.state_ = .kConnecting) (hmapped : v.mapped = true)
    (hpolled : v.polled = false) (hqueue : v.queue = [.connectEestablished])
    (hremovals : v.removals = 0) (htodo : v.todo = []) (hthreads : ∀ t, v.threads t = none)
    (hstep : Step label v es v') : Stage (tr ++ es) v' := by
  have hstay : Stage tr v := .pending htr hstate hmapped hpolled hqueue hremovals htodo hthreads
  cases hstep with
  | other | noSend _ | noShutdown _ =>
    rw [List.append_nil]
    exact hstay
  | poll handlers hregistered _ =>
    have hnone : handlers = [] := by
      by_contra hsome
      have hpolled' := hregistered hsome
      rw [hpolled] at hpolled'
      cases hpolled'
    rw [List.append_nil]
    exact .pending htr hstate hmapped hpolled hqueue hremovals hnone hthreads
  | retrieve input =>
    rw [List.append_nil]
    exact .pending htr hstate hmapped hpolled hqueue hremovals htodo hthreads
  | callBack hhandler => rw [htodo] at hhandler; cases hhandler
  | @task v v' task rest io conn effects es _ hhead hrun hperform =>
    rw [hqueue, List.cons.injEq] at hhead
    obtain ⟨rfl, rfl⟩ := hhead
    obtain ⟨_, _, rfl, rfl⟩ := TcpConnection.connectEestablished_eq_ok hrun
    simp only [perform, performOne, Prod.mk.injEq] at hperform
    obtain ⟨rfl, rfl⟩ := hperform
    refine .live ?_ (.inl rfl) hmapped (by simp [noLifeTasks])
    rw [milestonesOf_append, htr]
    rfl
  | remove hsome => rw [hremovals] at hsome; cases hsome
  | send hconnected | shutdown hconnected | beginSend hconnected | beginShutdown hconnected =>
    rw [hstate] at hconnected
    cases hconnected
  | queueSend hcall | wakeupSend hcall | returnSend hcall | setDisconnecting hcall
  | queueShutdown hcall | wakeupShutdown hcall =>
    rw [hthreads] at hcall
    cases hcall

/-- A functor that is taken from the queue and is no part of the life. -/
theorem calm_pop {task : Task} {rest : List Task} {conn : TcpConnection} {polled : Bool}
    (hqueue : v.queue = task :: rest) (hdestroy : task ≠ .connectDestory)
    (hstate : conn.state_ = v.conn.state_) :
    Calm v { v with queue := rest, conn := conn, polled := polled } where
  state := .inl hstate
  mapped := rfl
  establish := by
    intro hmem
    rw [hqueue]
    exact List.mem_cons_of_mem _ hmem
  destroy := by rw [hqueue, List.count_cons_of_ne hdestroy]

theorem calm_push {task : Task} (hestablish : task ≠ .connectEestablished)
    (hdestroy : task ≠ .connectDestory) {threads : ThreadId → Option Call} :
    Calm v { v with threads := threads, queue := v.queue ++ [task] } where
  state := .inl rfl
  mapped := rfl
  establish := by
    intro hmem
    simpa [Ne.symm hestablish] using hmem
  destroy := by simp [List.count_append, hdestroy]

theorem stage_step (h : Stage tr v) (hcond : SendsWholeOnceDestroyed tr v label)
    (hstep : Step label v es v') : Stage (tr ++ es) v' := by
  by_cases hpending : v.conn.state_ = .kConnecting
  · cases h with
    | pending htr hstate hmapped hpolled hqueue hremovals htodo hthreads =>
      exact stage_step_pending htr hstate hmapped hpolled hqueue hremovals htodo hthreads hstep
    | live _ hstate | doomed _ hstate | gone _ hstate => simp [Open, hpending] at hstate
  have hgone := fun hran => (h.gone_of_ran hran).2
  cases hstep with
  | other | noSend _ | noShutdown _ =>
    rw [List.append_nil]
    exact h
  | poll handlers hregistered _ =>
    refine h.calm hpending rfl ⟨.inl rfl, rfl, id, rfl⟩ (fun hran => ?_)
    obtain ⟨hwriting, hpolled, _⟩ := hgone hran
    refine ⟨hwriting, hpolled, ?_⟩
    by_contra hsome
    have hpolled' := hregistered hsome
    rw [hpolled] at hpolled'
    cases hpolled'
  | retrieve input => exact h.calm hpending rfl ⟨.inl rfl, rfl, id, rfl⟩ hgone
  | @callBack v v' handler rest io conn effects es htodo hrun hperform =>
    obtain ⟨_, hstate⟩ := TcpConnection.callBack_same hrun
    have hnotGone : ¬ ConnectDestoryRan tr := by
      intro hran
      rw [(hgone hran).2.2] at htodo
      cases htodo
    rcases TcpConnection.callBack_effects hrun with hplain | rfl
    · rw [perform_plain _ _ hplain, Prod.mk.injEq] at hperform
      obtain ⟨rfl, rfl⟩ := hperform
      refine h.calm hpending ?_ ⟨.inl hstate, rfl, id, rfl⟩ (fun hran => absurd hran hnotGone)
      exact milestonesOf_plain hplain
    · -- the close callback reaches the server, at once or through the queue
      have hclosed : Stage (tr ++ [.handler handler, .effect .updateChannel,
          .effect .closeCallBack]) { v with todo := rest, conn := conn, polled := true } :=
        h.calm hpending rfl ⟨.inl hstate, rfl, id, rfl⟩ (fun hran => absurd hran hnotGone)
      have hbegun : conn.state_ ≠ .kConnecting := by
        rw [hstate]
        exact hpending
      by_cases hbase : v.conn.loop_ = baseLoop
      · simp only [perform, performOne, if_pos hbase] at hperform
        generalize hremove : removeConnectionInLoop _ = removed at hperform
        obtain ⟨v₁, es₁⟩ := removed
        simp only [List.append_nil, List.nil_append, List.cons_append, Prod.mk.injEq] at hperform
        obtain ⟨rfl, rfl⟩ := hperform
        have hstage := hclosed.remove hbegun hremove
        rw [List.append_assoc] at hstage
        exact hstage
      · simp only [perform, performOne, if_neg hbase, Prod.mk.injEq] at hperform
        obtain ⟨rfl, rfl⟩ := hperform
        refine h.calm hpending rfl ⟨.inl hstate, rfl, id, rfl⟩ (fun hran => absurd hran hnotGone)
  | @task v v' task rest io conn effects es htodo hqueue hrun hperform =>
    cases task with
    | connectEestablished =>
      obtain ⟨_, hstate, _⟩ := TcpConnection.connectEestablished_eq_ok hrun
      exact absurd hstate hpending
    | connectDestory =>
      obtain ⟨_, _, rfl, rfl⟩ := TcpConnection.connectDestory_eq_ok hrun
      simp only [perform, performOne, Prod.mk.injEq] at hperform
      obtain ⟨rfl, rfl⟩ := hperform
      cases h with
      | pending _ hstate => exact absurd hstate hpending
      | live _ _ _ hnone => exact absurd (by simp [hqueue]) hnone.2
      | gone _ _ _ _ _ hnone => exact absurd (by simp [hqueue]) hnone.2
      | doomed htr hstate hmapped hestablish hdestroy =>
        refine .gone ?_ (.inl rfl) (Channel.isWriting_disableAll _) hmapped rfl ⟨?_, ?_⟩ htodo
        · rw [milestonesOf_append, htr]
          rfl
        · intro hmem
          exact hestablish (by simp [hqueue, hmem])
        · rw [hqueue, List.count_cons_self] at hdestroy
          exact List.count_eq_zero.mp (Nat.succ.inj hdestroy)
    | removeConnectionInLoop => cases hrun
    | shutdownInloop =>
      have hplain := TcpConnection.shutdownInloop_isPlain hrun
      obtain ⟨_, hsame, heffects⟩ := TcpConnection.shutdownInloop_eq_ok hrun
      rw [perform_plain _ _ hplain, Prod.mk.injEq] at hperform
      obtain ⟨rfl, rfl⟩ := hperform
      refine h.calm hpending (milestonesOf_plain hplain)
        (calm_pop hqueue (by simp) (by rw [hsame])) (fun hran => ?_)
      obtain ⟨hwriting, hpolled, _⟩ := hgone hran
      refine ⟨by rw [hsame]; exact hwriting, ?_, htodo⟩
      rw [heffects]
      split <;> simp [hpolled]
    | sendInloop caller message =>
      have hplain := TcpConnection.sendInloop_isPlain hrun
      have hstate := (TcpConnection.sendInloop_same hrun).2
      obtain ⟨_, hsend⟩ := TcpConnection.sendInloop_eq_ok hrun
      rw [perform_plain _ _ hplain, Prod.mk.injEq] at hperform
      obtain ⟨rfl, rfl⟩ := hperform
      have hevents : milestonesOf ((Task.sendInloop caller message).events ++
          effects.map .effect) = [] := by
        rw [milestonesOf_append, milestonesOf_plain hplain]
        rfl
      refine h.calm hpending hevents (calm_pop hqueue (by simp) hstate) (fun hran => ?_)
      obtain ⟨hwriting, hpolled, _⟩ := hgone hran
      have hwhole := hcond io rfl caller message rest hqueue hran
      cases hsend with
      | taken hsent _ _ =>
        have hquiet : .updateChannel ∉ effects := by
          rcases hsent with rfl | ⟨_, rfl⟩ <;> simp
        exact ⟨hwriting, by simp [hpolled, hquiet], htodo⟩
      | buffered _ _ _ _ hon => rw [hwriting] at hon; cases hon
      | watched _ _ _ _ _ hpart => exact absurd hwhole hpart
  | @remove v v' removals es hremovals hremove =>
    have hcounted : Stage (tr ++ []) { v with removals := removals } :=
      h.calm hpending rfl ⟨.inl rfl, rfl, id, rfl⟩ hgone
    rw [List.append_nil] at hcounted
    exact hcounted.remove hpending hremove
  | @send v v' message io conn effects es hconnected hrun hperform =>
    have hplain := TcpConnection.sendInloop_isPlain hrun
    have hstate := (TcpConnection.sendInloop_same hrun).2
    rw [perform_plain _ _ hplain, Prod.mk.injEq] at hperform
    obtain ⟨rfl, rfl⟩ := hperform
    have hevents : milestonesOf ([.sending v.conn.loop_ message, .executed v.conn.loop_ message] ++
        effects.map .effect ++ [.sent v.conn.loop_ message]) = [] := by
      rw [milestonesOf_append, milestonesOf_append, milestonesOf_plain hplain]
      rfl
    refine h.calm hpending hevents ⟨.inl hstate, rfl, id, rfl⟩ (fun hran => ?_)
    have hclosed := (h.gone_of_ran hran).1
    rw [hconnected] at hclosed
    simp at hclosed
  | @shutdown v v' conn effects es hconnected hrun hperform =>
    have hplain := TcpConnection.shutdownInloop_isPlain hrun
    obtain ⟨_, rfl, _⟩ := TcpConnection.shutdownInloop_eq_ok hrun
    rw [perform_plain _ _ hplain, Prod.mk.injEq] at hperform
    obtain ⟨rfl, rfl⟩ := hperform
    refine h.calm hpending (milestonesOf_plain hplain) ⟨.inr rfl, rfl, id, rfl⟩ (fun hran => ?_)
    have hclosed := (h.gone_of_ran hran).1
    rw [hconnected] at hclosed
    simp at hclosed
  | beginSend _ _ _ | wakeupSend _ | returnSend _ | beginShutdown _ _ _ | wakeupShutdown _ =>
    exact h.calm hpending rfl ⟨.inl rfl, rfl, id, rfl⟩ hgone
  | setDisconnecting _ => exact h.calm hpending rfl ⟨.inr rfl, rfl, id, rfl⟩ hgone
  | queueSend _ | queueShutdown _ =>
    exact h.calm hpending rfl (calm_push (by simp) (by simp)) hgone

end Steps

/-- The stage of a connection, and that its handlers came behind `established`. -/
structure Life (tr : List ConnEvent) (v : Lifeline) : Prop where
  stage : Stage tr v
  handlers : HandlersEstablished tr

theorem HandlersEstablished.append {tr es : List ConnEvent} (h : HandlersEstablished tr)
    (hnew : ∀ handler, .handler handler ∈ es → .established ∈ tr) :
    HandlersEstablished (tr ++ es) := by
  refine (guarded_append_iff h).mpr ?_
  rintro before e after hsplit ⟨handler, rfl⟩
  exact List.mem_append_left _ (hnew handler (by simp [hsplit]))

theorem Performed.no_handler {v v' : Lifeline} {effects : List Effect} {es : List ConnEvent}
    (h : Performed v effects v' es) (handler : Handler) : .handler handler ∉ es := by
  intro hmem
  rcases h.shape _ hmem with ⟨_, _, heq⟩ | heq | heq <;> cases heq

theorem established_of_stage {tr : List ConnEvent} {v : Lifeline} (h : Stage tr v)
    (hbegun : v.conn.state_ ≠ .kConnecting) : .established ∈ tr := by
  have hmem : .established ∈ milestonesOf tr := by
    cases h with
    | pending _ hstate => exact absurd hstate hbegun
    | live htr => rw [htr]; decide
    | doomed htr => rw [htr]; decide
    | gone htr => rw [htr]; decide
  exact List.mem_of_mem_filter hmem

/-- Handlers run between the second milestone and `connectDestory`. -/
theorem Stage.open_of_todo {tr : List ConnEvent} {v : Lifeline} (h : Stage tr v)
    (htodo : v.todo ≠ []) : Open v.conn := by
  cases h with
  | pending _ _ _ _ _ _ hnone => exact absurd hnone htodo
  | live _ hstate => exact hstate
  | doomed _ hstate => exact hstate
  | gone _ _ _ _ _ _ hnone => exact absurd hnone htodo

theorem Open.begun {conn : TcpConnection} (h : Open conn) : conn.state_ ≠ .kConnecting := by
  rcases h with h | h <;> simp [h]

theorem life_born {es : List ConnEvent} {v : Lifeline} (h : Born es v) : Life es v := by
  refine ⟨stage_born h, ?_⟩
  refine guarded_of_forall_not ?_
  rintro _ hmem ⟨handler, rfl⟩
  cases h with
  | queued => simp at hmem
  | inline _ _ _ _ hperform =>
    have hnone := (performed hperform).no_handler handler
    simp [hnone] at hmem

theorem life_step {tr es : List ConnEvent} {v v' : Lifeline} {label : Label} (h : Life tr v)
    (hcond : SendsWholeOnceDestroyed tr v label) (hstep : Step label v es v') :
    Life (tr ++ es) v' := by
  refine ⟨stage_step h.stage hcond hstep, h.handlers.append (fun handler hmem => ?_)⟩
  cases hstep with
  | callBack htodo _ _ =>
    have hopen := h.stage.open_of_todo (by simp [htodo])
    exact established_of_stage h.stage hopen.begun
  | @task v v' task rest io conn effects es _ _ _ hperform =>
    rcases List.mem_append.mp hmem with hmem | hmem
    · cases task <;> simp [Task.events] at hmem
    · exact absurd hmem ((performed hperform).no_handler handler)
  | remove _ hremove =>
    exact absurd hmem ((performed_remove hremove).no_handler handler)
  | send _ _ hperform =>
    have hnone := (performed hperform).no_handler handler
    simp [hnone] at hmem
  | shutdown _ _ hperform =>
    have hnone := (performed hperform).no_handler handler
    simp [hnone] at hmem
  | other | poll _ _ _ | beginSend _ _ _ | noSend _ | queueSend _ | wakeupSend _ | returnSend _
  | beginShutdown _ _ _ | noShutdown _ | setDisconnecting _ | queueShutdown _ | wakeupShutdown _
  | retrieve _ => simp at hmem

/-- Only the loop's own thread sends. -/
def LocalSends : Condition := fun _ v label =>
  ∀ t message io, label = .send t message io → t = v.conn.loop_

/-- A life without a message in the queue or on the way to it. -/
structure LocalLife (tr : List ConnEvent) (v : Lifeline) : Prop where
  life : Life tr v
  queue : sendsOf v.queue = []
  calls : ∀ t message, v.threads t ≠ some (.sending message)

theorem localLife_born {es : List ConnEvent} {v : Lifeline} (h : Born es v) : LocalLife es v := by
  refine ⟨life_born h, ?_, ?_⟩
  · cases h with
    | queued => rfl
    | inline _ _ _ _ hperform =>
      rw [(performed hperform).sends]
      rfl
  · intro t message
    cases h with
    | queued => simp [new]
    | inline _ _ _ _ hperform =>
      rw [(performed hperform).threads]
      simp [new]

theorem LocalLife.sendsWhole {tr : List ConnEvent} {v : Lifeline} (h : LocalLife tr v)
    (label : Label) : SendsWholeOnceDestroyed tr v label := by
  intro io _ caller message rest hqueue
  have hnone := h.queue
  rw [hqueue] at hnone
  cases hnone

theorem localLife_step {tr es : List ConnEvent} {v v' : Lifeline} {label : Label}
    (h : LocalLife tr v) (hcond : LocalSends tr v label) (hstep : Step label v es v') :
    LocalLife (tr ++ es) v' := by
  refine ⟨life_step h.life (h.sendsWhole label) hstep, ?_, ?_⟩
  · cases hstep with
    | other | poll _ _ _ | beginSend _ _ _ | noSend _ | wakeupSend _ | returnSend _
    | beginShutdown _ _ _ | noShutdown _ | setDisconnecting _ | wakeupShutdown _ | retrieve _ =>
      exact h.queue
    | callBack _ _ hperform | send _ _ hperform | shutdown _ _ hperform =>
      rw [(performed hperform).sends]
      exact h.queue
    | @task v v' task rest io conn effects es _ hqueue _ hperform =>
      rw [(performed hperform).sends]
      have hall := h.queue
      rw [hqueue] at hall
      exact List.filterMap_eq_nil_iff.mpr
        (fun cb hcb => List.filterMap_eq_nil_iff.mp hall cb (List.mem_cons_of_mem _ hcb))
    | @remove v v' removals es _ hremove =>
      rw [(performed_remove hremove).sends]
      exact h.queue
    | queueSend hcall => exact absurd hcall (h.calls _ _)
    | queueShutdown _ =>
      rw [sendsOf_append, h.queue]
      rfl
  · intro t message
    have hset : ∀ {t' call}, (∀ m, call ≠ some (.sending m)) →
        (v.setThread t' call).threads t ≠ some (.sending message) := by
      intro t' call hcall
      by_cases ht : t = t'
      · simpa [setThread, ht] using hcall message
      · simpa [setThread, ht] using h.calls t message
    cases hstep with
    | other | poll _ _ _ | noSend _ | noShutdown _ | retrieve _ => exact h.calls t message
    | callBack _ _ hperform | task _ _ _ hperform | send _ _ hperform | shutdown _ _ hperform =>
      rw [(performed hperform).threads]
      exact h.calls t message
    | @remove v v' removals es _ hremove =>
      rw [(performed_remove hremove).threads]
      exact h.calls t message
    | beginSend _ hforeign _ => exact absurd (hcond _ _ _ rfl) hforeign
    | queueSend hcall => exact absurd hcall (h.calls _ _)
    | wakeupSend _ | returnSend _ | beginShutdown _ _ _ | setDisconnecting _ | queueShutdown _
    | wakeupShutdown _ => exact hset (by simp)

end Lifeline

end TcpNet
