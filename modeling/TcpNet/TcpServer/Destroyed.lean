import TcpNet.TcpServer.Assertions

open Transition Trace

namespace TcpNet

/-- No `updateChannel` behind the end of `connectDestory`. -/
def NotPolledAgain (tr : List ConnEvent) : Prop :=
  Guarded (· = .effect .updateChannel) (fun before => ¬ ConnectDestoryRan before) tr

namespace Lifeline

section Steps

variable {tr es : List ConnEvent} {v v' : Lifeline} {label : Label}

theorem update_mem_map {effects : List Effect} :
    ConnEvent.effect .updateChannel ∈ effects.map .effect ↔ .updateChannel ∈ effects := by
  simp

/-- Behind `connectDestory`, a queued message updates the channel exactly when the
    kernel leaves a part of it to the output buffer. -/
theorem update_of_send {caller : ThreadId} {message : Bytes} {io : WriteResult}
    {conn : TcpConnection} {effects : List Effect} (hwriting : v.conn.channel_.isWriting = false)
    (hrun : (Task.sendInloop caller message).run v.conn v.conn.loop_ io = .ok (conn, effects)) :
    .updateChannel ∈ effects ↔ ¬ v.conn.SendsWhole message io := by
  obtain ⟨_, hsend⟩ := TcpConnection.sendInloop_eq_ok hrun
  cases hsend with
  | taken hsent _ hwhole =>
    have hquiet : .updateChannel ∉ effects := by
      rcases hsent with rfl | ⟨_, rfl⟩ <;> simp
    exact ⟨fun hmem => absurd hmem hquiet, fun hpart => absurd hwhole hpart⟩
  | buffered _ _ _ _ hon => rw [hwriting] at hon; cases hon
  | watched _ _ _ _ _ hpart => exact ⟨fun _ => hpart, fun _ => by simp⟩

/-- Behind `connectDestory`, only such a message updates the channel. -/
theorem update_iff_of_ran (h : Life tr v) (hran : ConnectDestoryRan tr)
    (hstep : Step label v es v') :
    .effect .updateChannel ∈ es ↔ ¬ SendsWholeOnceDestroyed tr v label := by
  obtain ⟨hstate, hwriting, _, htodo⟩ := h.stage.gone_of_ran hran
  have hconnected : v.conn.state_ ≠ .kConnected := by
    rcases hstate with hstate | hstate <;> simp [hstate]
  have hquiet : ∀ {label : Label}, (∀ io, label ≠ .task io) → .effect .updateChannel ∉ es →
      (.effect .updateChannel ∈ es ↔ ¬ SendsWholeOnceDestroyed tr v label) := by
    intro label hlabel hnone
    exact ⟨fun hmem => absurd hmem hnone, fun hnot =>
      absurd (fun io heq => absurd heq (hlabel io)) hnot⟩
  cases hstep with
  | callBack hsome => rw [htodo] at hsome; cases hsome
  | send hyes | shutdown hyes | beginSend hyes | beginShutdown hyes => exact absurd hyes hconnected
  | remove _ hremove =>
    refine hquiet (by simp) ?_
    intro hmem
    unfold removeConnectionInLoop at hremove
    split at hremove
    · rw [Prod.mk.injEq] at hremove
      rw [← hremove.2] at hmem
      simp at hmem
    · rw [Prod.mk.injEq] at hremove
      rw [← hremove.2] at hmem
      simp at hmem
  | other | poll _ _ _ | noSend _ | queueSend _ | wakeupSend _ | returnSend _ | noShutdown _
  | setDisconnecting _ | queueShutdown _ | wakeupShutdown _ | retrieve _ =>
    exact hquiet (by simp) (by simp)
  | @task v v' task rest io conn effects es _ hqueue hrun hperform =>
    cases task with
    | connectEestablished =>
      obtain ⟨_, hnew, _⟩ := TcpConnection.connectEestablished_eq_ok hrun
      rw [hnew] at hstate
      simp at hstate
    | connectDestory =>
      have hall := h.stage.ran_iff.mp hran
      cases h.stage with
      | pending htr => rw [htr] at hall; exact absurd hall (by decide)
      | live htr => rw [htr] at hall; exact absurd hall (by decide)
      | doomed htr => rw [htr] at hall; exact absurd hall (by decide)
      | gone _ _ _ _ _ hnone => exact absurd (by simp [hqueue]) hnone.2
    | removeConnectionInLoop => cases hrun
    | shutdownInloop =>
      have hplain := TcpConnection.shutdownInloop_isPlain hrun
      obtain ⟨_, _, rfl⟩ := TcpConnection.shutdownInloop_eq_ok hrun
      rw [perform_plain _ _ hplain, Prod.mk.injEq] at hperform
      obtain ⟨_, rfl⟩ := hperform
      constructor
      · intro hmem
        simp [Task.events, hwriting] at hmem
      · intro hnot
        refine absurd (fun io' _ caller message rest' hsend => ?_) hnot
        rw [hqueue] at hsend
        cases hsend
    | sendInloop caller message =>
      have hplain := TcpConnection.sendInloop_isPlain hrun
      have hupdate := update_of_send hwriting hrun
      rw [perform_plain _ _ hplain, Prod.mk.injEq] at hperform
      obtain ⟨_, rfl⟩ := hperform
      simp only [Task.events, List.cons_append, List.nil_append, List.mem_cons, reduceCtorEq,
        false_or, update_mem_map, hupdate, not_iff_not]
      constructor
      · intro hwhole io' hio caller' message' rest' hsend _
        rw [Label.task.injEq] at hio
        rw [hqueue, List.cons.injEq, Task.sendInloop.injEq] at hsend
        obtain ⟨⟨_, rfl⟩, _⟩ := hsend
        rw [← hio]
        exact hwhole
      · intro hcond
        exact hcond io rfl caller message rest hqueue hran

theorem Performed.no_removeChannel {effects : List Effect} (h : Performed v effects v' es)
    (hnone : .removeChannel ∉ effects) : ¬ ConnectDestoryRan es := by
  intro hran
  rcases h.shape _ hran with ⟨effect, hmem, heq⟩ | heq | heq
  · cases heq
    exact hnone hmem
  · cases heq
  · cases heq

theorem no_removeChannel_of_plain {effects : List Effect} (h : ∀ e ∈ effects, e.isPlain = true) :
    .removeChannel ∉ effects := by
  intro hmem
  have hplain := h _ hmem
  cases hplain

/-- The end of `connectDestory` is the last event of its step. -/
theorem no_update_behind_end (hstep : Step label v es v') {before after : List ConnEvent}
    (hsplit : es = before ++ .effect .updateChannel :: after) : ¬ ConnectDestoryRan before := by
  have hwithout : ¬ ConnectDestoryRan es → ¬ ConnectDestoryRan before := by
    intro hnone hran
    refine hnone ?_
    rw [hsplit]
    exact List.mem_append_left _ hran
  have hcons : ∀ {first : ConnEvent} {es : List ConnEvent}, first ≠ .effect .removeChannel →
      ¬ ConnectDestoryRan es → ¬ ConnectDestoryRan (first :: es) := by
    intro first es hfirst hnone hran
    rcases List.mem_cons.mp hran with heq | hmem
    · exact hfirst heq.symm
    · exact hnone hmem
  cases hstep with
  | other | poll _ _ _ | beginSend _ _ _ | noSend _ | queueSend _ | wakeupSend _ | returnSend _
  | beginShutdown _ _ _ | noShutdown _ | setDisconnecting _ | queueShutdown _ | wakeupShutdown _
  | retrieve _ => exact hwithout (by simp [ConnectDestoryRan])
  | callBack _ hrun hperform =>
    refine hwithout (hcons (by simp) ((performed hperform).no_removeChannel ?_))
    rcases TcpConnection.callBack_effects hrun with hplain | rfl
    · exact no_removeChannel_of_plain hplain
    · simp
  | remove _ hremove => exact hwithout ((performed_remove hremove).no_removeChannel (by simp))
  | send _ hrun hperform =>
    have hnone := (performed hperform).no_removeChannel
      (no_removeChannel_of_plain (TcpConnection.sendInloop_isPlain hrun))
    refine hwithout (fun hran => hnone ?_)
    simpa [ConnectDestoryRan] using hran
  | shutdown _ hrun hperform =>
    exact hwithout (hcons (by simp) ((performed hperform).no_removeChannel
      (no_removeChannel_of_plain (TcpConnection.shutdownInloop_isPlain hrun))))
  | @task v v' task rest io conn effects es _ hqueue hrun hperform =>
    cases task with
    | connectEestablished =>
      obtain ⟨_, _, _, rfl⟩ := TcpConnection.connectEestablished_eq_ok hrun
      exact hwithout (hcons (by simp) ((performed hperform).no_removeChannel (by simp)))
    | connectDestory =>
      obtain ⟨_, _, _, rfl⟩ := TcpConnection.connectDestory_eq_ok hrun
      simp only [perform, performOne, Prod.mk.injEq] at hperform
      obtain ⟨_, rfl⟩ := hperform
      have hbefore : before = [.destroyed] := by
        rcases before with _ | ⟨_, _ | ⟨_, _ | ⟨_, _ | ⟨_, rest⟩⟩⟩⟩ <;>
          simp_all [Task.events]
      rw [hbefore]
      simp [ConnectDestoryRan]
    | removeConnectionInLoop => cases hrun
    | shutdownInloop =>
      exact hwithout ((performed hperform).no_removeChannel
        (no_removeChannel_of_plain (TcpConnection.shutdownInloop_isPlain hrun)))
    | sendInloop caller message =>
      exact hwithout (hcons (by simp) ((performed hperform).no_removeChannel
        (no_removeChannel_of_plain (TcpConnection.sendInloop_isPlain hrun))))

end Steps

theorem notPolledAgain_born {es : List ConnEvent} {v : Lifeline} (h : Born es v) :
    NotPolledAgain es := by
  intro before e after hsplit _ hran
  have hmem : .effect .removeChannel ∈ es := by
    rw [hsplit]
    exact List.mem_append_left _ hran
  cases h with
  | queued => simp at hmem
  | inline _ _ _ hrun hperform =>
    obtain ⟨_, _, _, rfl⟩ := TcpConnection.connectEestablished_eq_ok hrun
    simp only [List.mem_cons, reduceCtorEq, false_or] at hmem
    exact (performed hperform).no_removeChannel (by simp) hmem

theorem notPolledAgain_step {tr es : List ConnEvent} {v v' : Lifeline} {label : Label}
    (h : Life tr v) (hbefore : NotPolledAgain tr) (hstep : Step label v es v') :
    NotPolledAgain (tr ++ es) ↔ SendsWholeOnceDestroyed tr v label := by
  unfold NotPolledAgain at hbefore ⊢
  rw [guarded_append_iff hbefore]
  constructor
  · intro hquiet
    by_cases hran : ConnectDestoryRan tr
    · by_contra hpart
      obtain ⟨before, after, hsplit⟩ :=
        List.append_of_mem ((update_iff_of_ran h hran hstep).mpr hpart)
      exact hquiet before _ after hsplit rfl (List.mem_append_left _ hran)
    · exact fun _ _ _ _ _ _ hran' => absurd hran' hran
  · rintro hcond before _ after hsplit rfl hran
    rcases List.mem_append.mp hran with hran | hran
    · refine (update_iff_of_ran h hran hstep).mp ?_ hcond
      rw [hsplit]
      exact List.mem_append_right _ List.mem_cons_self
    · exact no_update_behind_end hstep hsplit hran

end Lifeline

namespace System

open Lifeline

/-- A connection is never put back into its poller after `connectDestory` exactly in
    the runs in which every message still queued at that point, when its
    `sendInloop` comes, is empty, or meets an empty output buffer and a kernel that
    takes all of it. -/
theorem not_polled_again_iff {tr : List Event} {s : System} (h : machine.Reach anyStep tr s) :
    (∀ c, NotPolledAgain (eventsOf c tr)) ↔
      machine.Reach (everywhere SendsWholeOnceDestroyed) tr s := by
  refine reach_iff (I := Life) guarded_nil (fun _ _ hall => hall.of_append) ?_ ?_ ?_ h
  · exact fun _ _ hborn => ⟨life_born hborn, notPolledAgain_born hborn⟩
  · exact fun _ _ _ _ _ hlife hcond hstep => life_step hlife hcond hstep
  · exact fun _ _ _ _ _ hlife hbefore hstep => notPolledAgain_step hlife hbefore hstep

/-- The hang-up with nothing in the queue is such a run. -/
theorem not_polled_again_hangup : ∃ tr s, machine.Reach anyStep tr s ∧
    ConnectDestoryRan (eventsOf 1 tr) ∧
    ((∀ c, NotPolledAgain (eventsOf c tr)) ↔
      machine.Reach (everywhere SendsWholeOnceDestroyed) tr s) := by
  have hruns : machine.runs (start [] 1) hangup
      (fun tr _ => ConnectDestoryRan (eventsOf 1 tr)) = true := by
    decide +kernel
  obtain ⟨tr, s, hreach, htest⟩ := Machine.exists_reach (started_start [] 1) hruns
  exact ⟨tr, s, hreach, of_decide_eq_true htest, not_polled_again_iff hreach⟩

/-- Thread 7 finds `kConnected` after the peer has hung up, and queues its message
    behind `connectDestory`; the kernel takes one of its two bytes. -/
def lateSend : List Action :=
  opening ++ nextBatch 1 [(1, POLLIN)] [⟨.delivered [], .accepted 0⟩] ++
    [.send 7 1 [1, 2] (.accepted 0), .enterPending 0, .swapPending 0,
      .callFunctor 0 (.accepted 0)] ++ queueAndReturn 7 ++
    nextBatch 1 [] [] ++ [.callFunctor 1 (.accepted 0), .callFunctor 1 (.accepted 1)]

/-- The destroyed connection asks its poller for write events. -/
theorem polled_again_after_lateSend :
    ¬ ∀ tr s, machine.Reach anyStep tr s → ∀ c, NotPolledAgain (eventsOf c tr) := by
  intro hall
  have hruns : machine.runs (start [] 1) lateSend (fun tr _ =>
      (eventsOf 1 tr).getLast? = some (.effect .updateChannel) ∧
        ConnectDestoryRan (eventsOf 1 tr).dropLast) = true := by
    decide +kernel
  obtain ⟨tr, s, hreach, htest⟩ := Machine.exists_reach (started_start [] 1) hruns
  obtain ⟨hlast, hran⟩ := of_decide_eq_true htest
  refine hall tr s hreach 1 (eventsOf 1 tr).dropLast _ [] ?_ rfl hran
  exact (List.dropLast_append_getLast? _ hlast).symm

end System

end TcpNet
