import TcpNet.TcpServer.Destroyed

open Transition

namespace TcpNet

/-- The functors that hold a `TcpConnectionPtr`. The others hold `this`. -/
def Task.owns : Task → Bool
  | .connectEestablished | .connectDestory | .removeConnectionInLoop => true
  | .sendInloop _ _ | .shutdownInloop => false

namespace Lifeline

/-- Something holds a `TcpConnectionPtr`: `connects_`, or a queued functor. -/
def Owned (v : Lifeline) : Prop :=
  v.mapped = true ∨ (∃ task ∈ v.queue, task.owns = true) ∨ 0 < v.removals

/-- Something leads to the connection by a plain pointer: the channel in the poller, a handler
    of an active channel, or a queued functor. -/
def Reached (v : Lifeline) : Prop :=
  v.polled = true ∨ v.todo ≠ [] ∨ ∃ task ∈ v.queue, task.owns = false

instance (v : Lifeline) : Decidable v.Owned := inferInstanceAs (Decidable (_ ∨ _ ∨ _))

instance (v : Lifeline) : Decidable v.Reached := inferInstanceAs (Decidable (_ ∨ _ ∨ _))

/-- Only the loop's own thread calls the connection. -/
def LocalCalls : Condition := fun tr v label =>
  LocalSends tr v label ∧ ∀ t, label = .shutdown t → t = v.conn.loop_

/-- A life in which no functor holds `this` and no thread is on its way to queue one. -/
structure Tended (tr : List ConnEvent) (v : Lifeline) : Prop where
  life : LocalLife tr v
  queue : ∀ task ∈ v.queue, task = .connectEestablished ∨ task = .connectDestory
  calls : ∀ t, v.threads t = none

variable {tr es : List ConnEvent} {v v' : Lifeline} {label : Label}

/-- Apart from the close callback, what a connection asks for leaves its owners as they are. -/
theorem perform_keeps {here : ThreadId} {effects : List Effect} (h : .closeCallBack ∉ effects)
    (hperform : v.perform here effects = (v', es)) :
    v'.mapped = v.mapped ∧ v'.removals = v.removals ∧ v'.queue = v.queue ∧
      .effect .closeCallBack ∉ es := by
  induction effects generalizing v es with
  | nil =>
    rw [perform, Prod.mk.injEq] at hperform
    obtain ⟨rfl, rfl⟩ := hperform
    exact ⟨rfl, rfl, rfl, by simp⟩
  | cons effect rest ih =>
    rw [List.mem_cons, not_or] at h
    obtain ⟨hfirst, hrest⟩ := h
    have hunfold : v.perform here (effect :: rest) =
        (((v.performOne here effect).1.perform here rest).1, .effect effect ::
          (v.performOne here effect).2 ++ ((v.performOne here effect).1.perform here rest).2) := rfl
    have hone : (v.performOne here effect).2 = [] ∧
        (v.performOne here effect).1.mapped = v.mapped ∧
        (v.performOne here effect).1.removals = v.removals ∧
        (v.performOne here effect).1.queue = v.queue := by
      cases effect with
      | closeCallBack => exact absurd rfl hfirst
      | updateChannel | removeChannel | written _ | shutdownWrite | connectionCallBack _
      | messageCallBack => exact ⟨rfl, rfl, rfl, rfl⟩
    obtain ⟨hnone, hmapped, hremovals, hqueue⟩ := hone
    rw [hunfold] at hperform
    generalize hlater : (v.performOne here effect).1.perform here rest = later at hperform
    obtain ⟨v₂, others⟩ := later
    rw [hnone, Prod.mk.injEq] at hperform
    obtain ⟨rfl, rfl⟩ := hperform
    obtain ⟨hmapped', hremovals', hqueue', hquiet⟩ := ih hrest hlater
    refine ⟨hmapped'.trans hmapped, hremovals'.trans hremovals, hqueue'.trans hqueue, ?_⟩
    rw [List.cons_append, List.nil_append, List.mem_cons, not_or]
    refine ⟨fun heq => hfirst ?_, hquiet⟩
    rw [ConnEvent.effect.injEq] at heq
    exact heq

theorem tended_born (h : Born es v) : Tended es v := by
  refine ⟨localLife_born h, ?_, ?_⟩
  · cases h with
    | queued => simp
    | inline loop name sockfd hrun hperform =>
      obtain ⟨_, _, rfl, rfl⟩ := TcpConnection.connectEestablished_eq_ok hrun
      obtain ⟨_, _, hqueue, _⟩ := perform_keeps (by simp) hperform
      rw [hqueue]
      simp [new]
  · intro t
    cases h with
    | queued => rfl
    | inline _ _ _ _ hperform =>
      rw [(performed hperform).threads]
      rfl

theorem queue_of_performed {effects : List Effect} (hperformed : Performed v effects v' es)
    (h : ∀ task ∈ v.queue, task = .connectEestablished ∨ task = .connectDestory) :
    ∀ task ∈ v'.queue, task = .connectEestablished ∨ task = .connectDestory := by
  obtain ⟨more, hmore, hdestroy⟩ := hperformed.queue
  intro task htask
  rw [hmore, List.mem_append] at htask
  exact htask.elim (h task) fun hmem => .inr (hdestroy task hmem)

theorem tended_step (h : Tended tr v) (hcond : LocalCalls tr v label)
    (hstep : Step label v es v') : Tended (tr ++ es) v' := by
  refine ⟨localLife_step h.life hcond.1 hstep, ?_, ?_⟩
  · cases hstep with
    | other | poll _ _ _ | noSend _ | noShutdown _ | beginSend _ _ _ | wakeupSend _ | returnSend _
    | beginShutdown _ _ _ | setDisconnecting _ | wakeupShutdown _ | retrieve _ => exact h.queue
    | callBack _ _ hperform | send _ _ hperform | shutdown _ _ hperform =>
      exact queue_of_performed (performed hperform) h.queue
    | task _ hqueue _ hperform =>
      refine queue_of_performed (performed hperform) (fun task htask => h.queue task ?_)
      rw [hqueue]
      exact List.mem_cons_of_mem _ htask
    | remove _ hremove => exact queue_of_performed (performed_remove hremove) h.queue
    | queueSend hcall => rw [h.calls] at hcall; cases hcall
    | queueShutdown hcall => rw [h.calls] at hcall; cases hcall
  · intro t
    cases hstep with
    | other | poll _ _ _ | noSend _ | noShutdown _ | retrieve _ => exact h.calls t
    | callBack _ _ hperform | task _ _ _ hperform | send _ _ hperform | shutdown _ _ hperform =>
      rw [(performed hperform).threads]
      exact h.calls t
    | remove _ hremove =>
      rw [(performed_remove hremove).threads]
      exact h.calls t
    | beginSend _ hforeign _ => exact absurd (hcond.1 _ _ _ rfl) hforeign
    | beginShutdown _ hforeign _ => exact absurd (hcond.2 _ rfl) hforeign
    | queueSend hcall | wakeupSend hcall | returnSend hcall | setDisconnecting hcall
    | queueShutdown hcall | wakeupShutdown hcall =>
      rw [h.calls] at hcall
      cases hcall

/-- What leads to a connection does so while something owns it: up to `connectDestory`
    either `connects_` or the functor holds it, and behind that nothing leads to it. -/
theorem Tended.owned_of_reached (h : Tended tr v) (hreached : v.Reached) : v.Owned := by
  cases h.life.life.stage with
  | pending _ _ hmapped => exact .inl hmapped
  | live _ _ hmapped => exact .inl hmapped
  | doomed _ _ _ _ hdestroy =>
    have hmem : .connectDestory ∈ v.queue := by
      rw [← List.count_pos_iff, hdestroy]
      exact Nat.one_pos
    exact .inr (.inl ⟨_, hmem, rfl⟩)
  | gone _ _ _ _ hpolled hqueue htodo =>
    rcases hreached with hpolled' | htodo' | ⟨task, hmem, howns⟩
    · rw [hpolled] at hpolled'
      cases hpolled'
    · exact absurd htodo htodo'
    · rcases h.queue task hmem with rfl | rfl <;> cases howns

/-- A connection that nothing owns and nothing leads to. -/
structure Freed (v : Lifeline) : Prop where
  state : v.conn.state_ ≠ .kConnected
  mapped : v.mapped = false
  queue : v.queue = []
  removals : v.removals = 0
  polled : v.polled = false
  todo : v.todo = []
  calls : ∀ t, v.threads t = none

theorem Tended.freed (h : Tended tr v) (hfree : ¬ v.Owned) : Freed v := by
  simp only [Owned, not_or, Bool.not_eq_true, not_exists, not_and, Nat.not_lt,
    Nat.le_zero] at hfree
  obtain ⟨hmapped, howns, hremovals⟩ := hfree
  have hqueue : v.queue = [] := by
    rw [List.eq_nil_iff_forall_not_mem]
    intro task htask
    have hnone := howns task htask
    rcases h.queue task htask with rfl | rfl <;> cases hnone
  cases h.life.life.stage with
  | pending _ _ hmapped' => rw [hmapped] at hmapped'; cases hmapped'
  | live _ _ hmapped' => rw [hmapped] at hmapped'; cases hmapped'
  | doomed _ _ _ _ hdestroy => rw [hqueue] at hdestroy; cases hdestroy
  | gone _ hstate _ _ hpolled _ htodo =>
    refine ⟨?_, hmapped, hqueue, hremovals, hpolled, htodo, h.calls⟩
    rcases hstate with hstate | hstate <;> rw [hstate] <;> nofun

/-- Nothing happens to such a connection any more. -/
theorem freed_step (h : Freed v) (hstep : Step label v es v') : Freed v' ∧ es = [] := by
  have hcalls : ∀ {t call}, v.threads t ≠ some call := by
    intro t call hcall
    rw [h.calls] at hcall
    cases hcall
  cases hstep with
  | other | noSend _ | noShutdown _ => exact ⟨h, rfl⟩
  | poll handlers hpolled htodo =>
    refine ⟨⟨h.state, h.mapped, h.queue, h.removals, h.polled, ?_, h.calls⟩, rfl⟩
    by_contra hsome
    have hpolled' := hpolled hsome
    rw [h.polled] at hpolled'
    cases hpolled'
  | retrieve input =>
    exact ⟨⟨h.state, h.mapped, h.queue, h.removals, h.polled, h.todo, h.calls⟩, rfl⟩
  | callBack htodo _ _ => rw [h.todo] at htodo; cases htodo
  | task _ hqueue _ _ => rw [h.queue] at hqueue; cases hqueue
  | remove hremovals _ => rw [h.removals] at hremovals; cases hremovals
  | send hstate _ _ | beginSend hstate _ _ | shutdown hstate _ _ | beginShutdown hstate _ _ =>
    exact absurd hstate h.state
  | queueSend hcall | wakeupSend hcall | returnSend hcall | setDisconnecting hcall
  | queueShutdown hcall | wakeupShutdown hcall => exact absurd hcall hcalls

/-- A connection has left `connects_`, or will, exactly behind its close callback. -/
def ClosedLeaves (tr : List ConnEvent) (v : Lifeline) : Prop :=
  .effect .closeCallBack ∈ tr ↔ v.mapped = false ∨ 0 < v.removals

theorem removeConnectionInLoop_unmaps (h : v.removeConnectionInLoop = (v', es)) :
    v'.mapped = false := by
  unfold removeConnectionInLoop at h
  split at h
  · rw [Prod.mk.injEq] at h
    rw [← h.1]
  · rename_i hmapped
    rw [Prod.mk.injEq] at h
    rw [← h.1]
    exact Bool.eq_false_iff.mpr hmapped

theorem closedLeaves_born (h : Born es v) : ClosedLeaves es v := by
  cases h with
  | queued => simp [ClosedLeaves, new]
  | inline loop name sockfd hrun hperform =>
    obtain ⟨_, _, rfl, rfl⟩ := TcpConnection.connectEestablished_eq_ok hrun
    obtain ⟨hmapped, hremovals, _, hquiet⟩ := perform_keeps (by simp) hperform
    rw [ClosedLeaves, hmapped, hremovals]
    simp [hquiet, new]

theorem closedLeaves_step (h : ClosedLeaves tr v) (hstep : Step label v es v') :
    ClosedLeaves (tr ++ es) v' := by
  -- a step that does not call the close callback
  have hquiet : .effect .closeCallBack ∉ es → v'.mapped = v.mapped → v'.removals = v.removals →
      ClosedLeaves (tr ++ es) v' := by
    intro hnone hmapped hremovals
    rw [ClosedLeaves, hmapped, hremovals, List.mem_append, or_iff_left hnone]
    exact h
  cases hstep with
  | other | poll _ _ _ | noSend _ | noShutdown _ | retrieve _ | beginSend _ _ _ | queueSend _
  | wakeupSend _ | returnSend _ | beginShutdown _ _ _ | setDisconnecting _ | queueShutdown _
  | wakeupShutdown _ => exact hquiet (by simp) rfl rfl
  | @callBack v v' handler rest io conn effects es htodo hrun hperform =>
    rcases TcpConnection.callBack_effects hrun with hplain | rfl
    · have hnone : .closeCallBack ∉ effects := fun hmem => by cases hplain _ hmem
      obtain ⟨hmapped, hremovals, _, hnone'⟩ := perform_keeps hnone hperform
      exact hquiet (by simp [hnone']) hmapped hremovals
    · by_cases hbase : v.conn.loop_ = baseLoop
      · simp only [perform, performOne, if_pos hbase] at hperform
        generalize hremove : removeConnectionInLoop _ = removed at hperform
        obtain ⟨v₁, es₁⟩ := removed
        simp only [Prod.mk.injEq] at hperform
        obtain ⟨rfl, rfl⟩ := hperform
        exact iff_of_true (by simp) (.inl (removeConnectionInLoop_unmaps hremove))
      · simp only [perform, performOne, if_neg hbase, Prod.mk.injEq] at hperform
        obtain ⟨rfl, rfl⟩ := hperform
        exact iff_of_true (by simp) (.inr (Nat.succ_pos _))
  | @task v v' task rest io conn effects es htodo hqueue hrun hperform =>
    have hnone : .closeCallBack ∉ effects ∧ .effect .closeCallBack ∉ task.events := by
      cases task with
      | connectEestablished =>
        obtain ⟨_, _, _, rfl⟩ := TcpConnection.connectEestablished_eq_ok hrun
        simp [Task.events]
      | connectDestory =>
        obtain ⟨_, _, _, rfl⟩ := TcpConnection.connectDestory_eq_ok hrun
        simp [Task.events]
      | removeConnectionInLoop => cases hrun
      | sendInloop caller message =>
        refine ⟨fun hmem => ?_, by simp [Task.events]⟩
        cases TcpConnection.sendInloop_isPlain hrun _ hmem
      | shutdownInloop =>
        refine ⟨fun hmem => ?_, by simp [Task.events]⟩
        cases TcpConnection.shutdownInloop_isPlain hrun _ hmem
    obtain ⟨hmapped, hremovals, _, hnone'⟩ := perform_keeps hnone.1 hperform
    refine hquiet ?_ hmapped hremovals
    rw [List.mem_append, not_or]
    exact ⟨hnone.2, hnone'⟩
  | @remove v v' removals es hremovals hremove =>
    have hclosed : .effect .closeCallBack ∈ tr := h.mpr (.inr (by omega))
    exact iff_of_true (List.mem_append_left _ hclosed) (.inl (removeConnectionInLoop_unmaps hremove))
  | @send v v' message io conn effects es hstate hrun hperform =>
    have hnone : .closeCallBack ∉ effects :=
      fun hmem => by cases TcpConnection.sendInloop_isPlain hrun _ hmem
    obtain ⟨hmapped, hremovals, _, hnone'⟩ := perform_keeps hnone hperform
    exact hquiet (by simp [hnone']) hmapped hremovals
  | @shutdown v v' conn effects es hstate hrun hperform =>
    have hnone : .closeCallBack ∉ effects :=
      fun hmem => by cases TcpConnection.shutdownInloop_isPlain hrun _ hmem
    obtain ⟨hmapped, hremovals, _, hnone'⟩ := perform_keeps hnone hperform
    exact hquiet (by simp [hnone']) hmapped hremovals

end Lifeline

namespace System

open Lifeline

/-- No thread but the loop's own sends on a connection or shuts it down. -/
def localCalls : StepCondition System Action Event := fun tr s a =>
  localSends tr s a ∧ ∀ t c, a = .shutdown t c → ∀ loop, s.loopOf c = some loop → t = loop

theorem labelOf_eq_shutdown {s : System} {c : ConnId} {a : Action} {t : ThreadId}
    (h : s.labelOf c a = .shutdown t) : a = .shutdown t c := by
  cases a with
  | shutdown t' c' =>
    by_cases hc : c' = c
    · simp only [labelOf, if_pos hc, Label.shutdown.injEq] at h
      rw [h, hc]
    · simp [labelOf, hc] at h
  | send t' c' message io =>
    by_cases hc : c' = c <;> simp [labelOf, hc] at h
  | handleEvent l io =>
    simp only [labelOf] at h
    split at h
    · split at h <;> cases h
    · cases h
  | callFunctor l io =>
    simp only [labelOf] at h
    split at h
    · split at h <;> cases h
    · cases h
  | loop | pollReturns | handleWakeup | accept | enterPending | swapPending | leavePending
  | queueSend | wakeupSend | returnSend | setDisconnecting | queueShutdown | wakeupShutdown
  | retrieve => cases h

theorem everywhere_of_localCalls {tr : List Event} {s : System} {a : Action}
    (h : localCalls tr s a) : everywhere LocalCalls tr s a := by
  intro c v hview
  refine ⟨everywhere_of_localSends h.1 c v hview, fun t hlabel => ?_⟩
  exact h.2 t c (labelOf_eq_shutdown hlabel) _ (loopOf_of_view hview)

variable {tr : List Event} {s : System} {c : ConnId} {v : Lifeline}

theorem reach_tended (h : machine.Reach localCalls tr s) (hview : s.view c = some v) :
    Tended (eventsOf c tr) v := by
  have hinv := reach_view (I := Tended) (C := LocalCalls) (fun _ _ hborn => tended_born hborn)
    (fun _ _ _ _ _ htended hcond hstep => tended_step htended hcond hstep)
    (h.mono (fun _ _ _ => everywhere_of_localCalls)) c
  rw [hview] at hinv
  exact hinv

theorem reach_closedLeaves {C : StepCondition System Action Event} (h : machine.Reach C tr s)
    (hview : s.view c = some v) : ClosedLeaves (eventsOf c tr) v := by
  have hinv := reach_view (I := ClosedLeaves) (C := fun _ _ _ => True)
    (fun _ _ hborn => closedLeaves_born hborn)
    (fun _ _ _ _ _ hleaves _ hstep => closedLeaves_step hleaves hstep)
    (reach_everywhere_true h.any) c
  rw [hview] at hinv
  exact hinv

/-- A freed connection stays freed and silent in every run that goes on from there. -/
theorem silent_of_freed {C : StepCondition System Action Event} (hwf : s.WellFormed)
    (hview : s.view c = some v) (hfreed : Freed v) {tr' : List Event} {s' : System}
    (h : (machine.after s).Reach C tr' s') :
    s'.WellFormed ∧ (∃ v', s'.view c = some v' ∧ Freed v') ∧ eventsOf c tr' = [] := by
  induction h with
  | init hinit =>
    obtain rfl : _ = s := hinit
    exact ⟨hwf, ⟨v, hview, hfreed⟩, rfl⟩
  | @step tr' es s₁ s₂ a _ _ hgo ih =>
    obtain ⟨hwf₁, ⟨v₁, hview₁, hfreed₁⟩, hquiet⟩ := ih
    have hprojects := step_projects hwf₁ hgo
    have hmoves := hprojects.moves c
    rw [hview₁] at hmoves
    generalize hafter : s₂.view c = after at hmoves
    generalize hevents : eventsOf c es = ces at hmoves
    cases hmoves with
    | @step _ v₂ _ hstep =>
      obtain ⟨hfreed₂, rfl⟩ := freed_step hfreed₁ hstep
      refine ⟨hprojects.wf, ⟨v₂, rfl, hfreed₂⟩, ?_⟩
      rw [eventsOf_append, hquiet, hevents]
      rfl

/-- Where the loops' own threads alone call the connections, nothing leads to a connection that
    nothing owns: no poller has its channel, no handler and no functor is to run on it; and from
    the moment when its last owner is gone, nothing happens to it in any run that goes on. -/
theorem connection_lifetime (h : machine.Reach localCalls tr s) (hview : s.view c = some v) :
    (v.Reached → v.Owned) ∧
      (¬ v.Owned → ∀ tr' s', (machine.after s).Reach localCalls tr' s' →
        eventsOf c tr' = []) := by
  have htended := reach_tended h hview
  refine ⟨htended.owned_of_reached, fun hfree tr' s' hafter => ?_⟩
  exact (silent_of_freed (reach_wellFormed h) hview (htended.freed hfree) hafter).2.2

/-- The connection that hung up, when both removals are done and `connectDestory` has run. -/
theorem connection_lifetime_hangup : ∃ tr s v, machine.Reach localCalls tr s ∧
    s.view 1 = some v ∧ ¬ v.Owned ∧ (v.Reached → v.Owned) ∧
      (¬ v.Owned → ∀ tr' s', (machine.after s).Reach localCalls tr' s' →
        eventsOf 1 tr' = []) := by
  have hruns : machine.runs (start [] 1) hangup
      (fun _ s => match s.view 1 with
        | some v => ¬ v.Owned
        | none => false) = true := by
    decide +kernel
  have hlocal : ∀ a ∈ hangup, ∀ tr s, localCalls tr s a := by
    simp [hangup, opening, nextBatch, localCalls, localSends]
  obtain ⟨tr, s, hreach, htest⟩ := Machine.exists_reach_of (started_start [] 1) hlocal hruns
  cases hview : s.view 1 with
  | none => rw [hview] at htest; cases htest
  | some v =>
    rw [hview] at htest
    exact ⟨tr, s, v, hreach, hview, of_decide_eq_true htest, connection_lifetime hreach hview⟩

/-- When no functor of a connection is queued, `connects_` has it exactly if it has not closed;
    and behind its close callback it is reclaimed: `connectDestory` has run, its poller does not
    have its channel, no handler is to run on it, and nothing owns it. -/
theorem closed_reclaimed {conn : TcpConnection} (h : machine.Reach localCalls tr s)
    (hconn : s.conns c = some conn)
    (hidle : ∀ cb ∈ (s.loops baseLoop).queued ++ (s.loops conn.loop_).queued, cb.conn ≠ c) :
    (s.server.connects_ conn.name_ = some c ↔ .effect .closeCallBack ∉ eventsOf c tr) ∧
      (.effect .closeCallBack ∈ eventsOf c tr →
        ConnectDestoryRan (eventsOf c tr) ∧ s.polled c = false ∧
          handlersFor c (s.callbacks conn.loop_) = [] ∧ ∀ v, s.view c = some v → ¬ v.Owned) := by
  obtain ⟨v, hview, rfl⟩ := exists_view_of_conn (conn_eq_ok_iff.mpr hconn)
  have htended := reach_tended h hview
  have hleaves := reach_closedLeaves h hview
  have hfields : v.polled = s.polled c ∧ v.todo = handlersFor c (s.callbacks v.conn.loop_) ∧
      v.queue = [] ∧ v.removals = 0 := by
    have hview' := hview
    rw [view, hconn, Option.map_some, Option.some.injEq] at hview'
    rw [← hview']
    refine ⟨rfl, rfl, ?_, ?_⟩
    · rw [tasksOf, List.filterMap_eq_nil_iff]
      exact fun cb hmem => if_neg fun hboth => hidle cb (List.mem_append_right _ hmem) hboth.1
    · rw [removalsOf, List.count_eq_zero]
      exact fun hmem => hidle _ (List.mem_append_left _ hmem) rfl
  obtain ⟨hpolled, htodo, hqueue, hremovals⟩ := hfields
  have hmapped : v.mapped = false ↔ .effect .closeCallBack ∈ eventsOf c tr := by
    rw [ClosedLeaves, hremovals] at hleaves
    rw [hleaves]
    simp
  refine ⟨?_, fun hclosed => ?_⟩
  · rw [← hmapped, Bool.not_eq_false, mapped_of_view hview, beq_iff_eq]
  · have hfree : ¬ v.Owned := by
      simp [Owned, hmapped.mpr hclosed, hqueue, hremovals]
    have hfreed := htended.freed hfree
    refine ⟨?_, hpolled ▸ hfreed.polled, htodo ▸ hfreed.todo, ?_⟩
    · cases htended.life.life.stage with
      | pending _ _ hmapped' | live _ _ hmapped' =>
        rw [hfreed.mapped] at hmapped'
        cases hmapped'
      | doomed _ _ _ _ hdestroy => rw [hqueue] at hdestroy; cases hdestroy
      | gone htr => exact htended.life.life.stage.ran_iff.mpr htr
    · intro v' hview'
      rw [hview, Option.some.injEq] at hview'
      rw [← hview']
      exact hfree

/-- The connection that hung up, with empty queues on both loops. -/
theorem closed_reclaimed_hangup : ∃ tr s conn, machine.Reach localCalls tr s ∧
    s.conns 1 = some conn ∧ .effect .closeCallBack ∈ eventsOf 1 tr ∧
    (s.server.connects_ conn.name_ = some 1 ↔ .effect .closeCallBack ∉ eventsOf 1 tr) ∧
      (.effect .closeCallBack ∈ eventsOf 1 tr →
        ConnectDestoryRan (eventsOf 1 tr) ∧ s.polled 1 = false ∧
          handlersFor 1 (s.callbacks conn.loop_) = [] ∧
          ∀ v, s.view 1 = some v → ¬ v.Owned) := by
  have hruns : machine.runs (start [] 1) hangup
      (fun tr s => (s.conns 1).any fun conn => .effect .closeCallBack ∈ eventsOf 1 tr ∧
        (s.loops baseLoop).queued ++ (s.loops conn.loop_).queued = []) = true := by
    decide +kernel
  have hlocal : ∀ a ∈ hangup, ∀ tr s, localCalls tr s a := by
    simp [hangup, opening, nextBatch, localCalls, localSends]
  obtain ⟨tr, s, hreach, htest⟩ := Machine.exists_reach_of (started_start [] 1) hlocal hruns
  cases hconn : s.conns 1 with
  | none => rw [hconn] at htest; cases htest
  | some conn =>
    rw [hconn] at htest
    obtain ⟨hclosed, hidle⟩ := of_decide_eq_true htest
    refine ⟨tr, s, conn, hreach, hconn, hclosed, closed_reclaimed hreach hconn ?_⟩
    rw [hidle]
    simp

/-- A message of another thread is queued behind `connectDestory`: its functor leads to a
    connection that nothing owns any more. -/
theorem reached_after_lateSend : ¬ ∀ tr s, machine.Reach anyStep tr s → ∀ c v,
    s.view c = some v → v.Reached → v.Owned := by
  intro hall
  have hruns : machine.runs (start [] 1) lateSend.dropLast
      (fun _ s => match s.view 1 with
        | some v => v.Reached ∧ ¬ v.Owned
        | none => false) = true := by
    decide +kernel
  obtain ⟨tr, s, hreach, htest⟩ := Machine.exists_reach (started_start [] 1) hruns
  cases hview : s.view 1 with
  | none => rw [hview] at htest; cases htest
  | some v =>
    rw [hview] at htest
    obtain ⟨hreached, hfree⟩ := of_decide_eq_true htest
    exact hfree (hall tr s hreach 1 v hview hreached)

end System

end TcpNet
