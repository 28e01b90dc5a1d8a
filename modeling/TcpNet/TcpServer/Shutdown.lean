import TcpNet.Library.Cutoff
import TcpNet.TcpServer.Destroyed
import Mathlib.Data.List.TakeWhile

open Transition Trace Cutoff

namespace TcpNet

/-- The messages whose `send` had found `kConnected` and returned before the first
    `shutdown` set `kDisconnecting`. -/
def inTimeOf (tr : List ConnEvent) : List (ThreadId × Bytes) :=
  sentOf (tr.takeWhile (· ≠ .disconnecting))

/-- Every message that was sent in time is executed, and accepted completely by
    `::write`: of equal messages of a thread, as many as it sent in time. Only empty
    messages may be left out. -/
def DeliveredInTime (tr : List ConnEvent) : Prop :=
  Delivered (·.2) (inTimeOf tr) (executedOf tr) (writtenOf tr)

/-- `shutdownWrite` finds everything delivered that was sent in time. -/
def GracefulShutdown (tr : List ConnEvent) : Prop :=
  Guarded (· = .effect .shutdownWrite) DeliveredInTime tr

section InTime

variable {tr es : List ConnEvent}

theorem takeWhile_append_of_mem {A : Type} {p : A → Bool} {l l' : List A} {a : A} (h : a ∈ l)
    (ha : p a = false) : (l ++ l').takeWhile p = l.takeWhile p := by
  induction l with
  | nil => cases h
  | cons b l ih =>
    rcases List.mem_cons.mp h with rfl | hmem
    · simp [ha]
    · by_cases hb : p b = true
      · simp [hb, ih hmem]
      · simp [hb]

theorem inTimeOf_append_late (h : .disconnecting ∈ tr) : inTimeOf (tr ++ es) = inTimeOf tr := by
  rw [inTimeOf, takeWhile_append_of_mem h (by simp), inTimeOf]

theorem inTimeOf_append_quiet (h : sentOf es = []) : inTimeOf (tr ++ es) = inTimeOf tr := by
  by_cases hdisconnecting : .disconnecting ∈ tr
  · exact inTimeOf_append_late hdisconnecting
  · have hearly : ∀ e ∈ tr, decide (e ≠ ConnEvent.disconnecting) = true := by
      intro e he
      rw [decide_eq_true_eq]
      rintro rfl
      exact hdisconnecting he
    have hnone : sentOf (es.takeWhile (· ≠ .disconnecting)) = [] := by
      refine List.filterMap_eq_nil_iff.mpr (fun e he => ?_)
      exact List.filterMap_eq_nil_iff.mp h e ((List.takeWhile_prefix _).subset he)
    rw [inTimeOf, List.takeWhile_append_of_pos hearly, sentOf_append, hnone, List.append_nil,
      inTimeOf, List.takeWhile_eq_self_iff.mpr hearly]

end InTime

namespace Lifeline

/-- The functors in front of the first queued `shutdownInloop`. -/
def ahead (queue : List Task) : List Task := queue.takeWhile (· ≠ .shutdownInloop)

/-- The messages sent in time that still wait in the queue. -/
def waitingOf (tr : List ConnEvent) (v : Lifeline) : List (ThreadId × Bytes) :=
  waiting (inTimeOf tr) (executedOf tr) (sendsOf v.queue)

/-- The messages executed behind those sent in time. -/
def lateOf (tr : List ConnEvent) : List (ThreadId × Bytes) :=
  behind (loaded (·.2) (inTimeOf tr)) (executedOf tr)

/-- Where `shutdownWrite` can come from, and when it comes in time: a write event
    that empties the buffer while the connection is disconnecting, with no message
    in the queue that was sent in time; a queued `shutdownInloop`, unless the
    channel was disabled with output in the buffer that was sent in time; and a
    `shutdown` in the thread of the loop, if neither holds anything sent in time.
    Empty messages do not count. -/
structure ShutsDownInTime (tr : List ConnEvent) (v : Lifeline) (label : Label) : Prop where
  handleWrite : ∀ io rest, label = .callBack io → v.todo = .write :: rest →
    v.conn.Drains io.write → v.conn.state_ = .kDisconnecting →
    ∀ entry ∈ waitingOf tr v, entry.2 = []
  queued : ∀ io rest, label = .task io → v.queue = .shutdownInloop :: rest →
    v.conn.channel_.event_ = Channel.kNoneEvent →
    v.conn.outputBuffer_.contents.length ≤ ((lateOf tr).flatMap (·.2)).length
  direct : label = .shutdown v.conn.loop_ → v.conn.state_ = .kConnected →
    v.conn.channel_.isWriting = false → (∀ entry ∈ waitingOf tr v, entry.2 = []) ∧
      (v.conn.channel_.event_ = Channel.kNoneEvent →
        v.conn.outputBuffer_.contents.length ≤ ((lateOf tr).flatMap (·.2)).length)

/-- Nothing is sent before `connectEestablished`. -/
def Unopened (v : Lifeline) : Prop :=
  v.conn.state_ = .kConnecting →
    v.conn.outputBuffer_.contents = [] ∧ sendsOf v.queue = [] ∧ ∀ t, v.threads t = none

/-- What every run keeps, whether its shutdowns come in time or not. -/
structure Orderly (tr : List ConnEvent) (v : Lifeline) : Prop where
  accounts : Accounts tr v
  unopened : Unopened v
  watched : v.conn.BacklogWatched
  queued : .shutdownInloop ∈ v.queue → .disconnecting ∈ tr
  stopped : ∀ t, v.threads t = some .stopped → .disconnecting ∈ tr
  fifo : .shutdownInloop ∈ v.queue →
    List.Subperm (inTimeOf tr) (executedOf tr ++ sendsOf (ahead v.queue))

section Queue

theorem ahead_append_of_mem {queue more : List Task} (h : .shutdownInloop ∈ queue) :
    ahead (queue ++ more) = ahead queue :=
  takeWhile_append_of_mem h (by simp)

theorem ahead_push (queue : List Task) (h : .shutdownInloop ∉ queue) :
    ahead (queue ++ [.shutdownInloop]) = queue := by
  have hall : ∀ task ∈ queue, decide (task ≠ Task.shutdownInloop) = true := by
    intro task htask
    rw [decide_eq_true_eq]
    rintro rfl
    exact h htask
  rw [ahead, List.takeWhile_append_of_pos hall]
  simp

theorem ahead_cons {task : Task} (h : task ≠ .shutdownInloop) (queue : List Task) :
    ahead (task :: queue) = task :: ahead queue := by
  simp [ahead, h]

end Queue

section Steps

variable {tr es : List ConnEvent} {v v' : Lifeline} {label : Label}

/-- The messages of the sends that have returned are executed or queued, those sent in
    time among them. -/
theorem Accounts.inTime (h : Accounts tr v) :
    List.Subperm (inTimeOf tr) (executedOf tr ++ sendsOf v.queue) := by
  have hsent : List.Subperm (sentOf tr) (executedOf tr ++ sendsOf v.queue) := by
    refine subperm_of_filter (·.1) (fun t => ?_)
    rw [← h.returned t]
    exact (List.sublist_append_left _ _).subperm
  refine .trans (List.Sublist.subperm ?_) hsent
  exact (List.takeWhile_sublist _).filterMap _

theorem unopened_of_begun (h : v.conn.state_ ≠ .kConnecting) : Unopened v :=
  fun hconnecting => absurd hconnecting h

theorem Performed.unopened {v₀ : Lifeline} {effects : List Effect} (h : Performed v₀ effects v' es)
    (hunopened : Unopened v₀) : Unopened v' := by
  rw [Unopened, h.conn, h.sends, h.threads]
  exact hunopened

theorem unopened_step (h : Unopened v) (hstep : Step label v es v') : Unopened v' := by
  have hcalls : ∀ {t call}, v.threads t = some call → v.conn.state_ ≠ .kConnecting := by
    intro t call hcall hconnecting
    rw [(h hconnecting).2.2] at hcall
    cases hcall
  cases hstep with
  | other | poll _ _ _ | noSend _ | noShutdown _ | retrieve _ => exact h
  | callBack htodo hrun hperform =>
    refine (performed hperform).unopened (fun hconnecting => ?_)
    obtain ⟨hempty, hrest⟩ := h ((TcpConnection.callBack_same hrun).2.symm.trans hconnecting)
    have hstream := TcpConnection.callBack_stream hrun
    rw [hempty] at hstream
    exact ⟨(List.append_eq_nil_iff.mp hstream).2, hrest⟩
  | @task v v' task rest io conn effects es htodo hqueue hrun hperform =>
    refine (performed hperform).unopened (fun hconnecting => ?_)
    cases task with
    | connectEestablished =>
      obtain ⟨_, _, rfl, _⟩ := TcpConnection.connectEestablished_eq_ok hrun
      cases hconnecting
    | connectDestory =>
      obtain ⟨_, _, rfl, _⟩ := TcpConnection.connectDestory_eq_ok hrun
      cases hconnecting
    | removeConnectionInLoop => cases hrun
    | sendInloop caller message =>
      have hnone := (h ((TcpConnection.sendInloop_same hrun).2.symm.trans hconnecting)).2.1
      rw [hqueue] at hnone
      cases hnone
    | shutdownInloop =>
      obtain ⟨_, rfl, _⟩ := TcpConnection.shutdownInloop_eq_ok hrun
      obtain ⟨hempty, hnone, hidle⟩ := h hconnecting
      rw [hqueue] at hnone
      exact ⟨hempty, hnone, hidle⟩
  | remove _ hremove => exact (performed_remove hremove).unopened h
  | send hstate hrun hperform =>
    refine (performed hperform).unopened (unopened_of_begun ?_)
    simp [(TcpConnection.sendInloop_same hrun).2, hstate]
  | shutdown hstate hrun hperform =>
    obtain ⟨_, rfl, _⟩ := TcpConnection.shutdownInloop_eq_ok hrun
    exact (performed hperform).unopened (unopened_of_begun (by simp))
  | beginSend hstate _ _ | beginShutdown hstate _ _ =>
    exact unopened_of_begun (by simp [Lifeline.setThread, hstate])
  | queueSend hcall | wakeupSend hcall | returnSend hcall | queueShutdown hcall
  | wakeupShutdown hcall => exact unopened_of_begun (hcalls hcall)
  | setDisconnecting _ => exact unopened_of_begun (by simp)

/-- A step that queues no `shutdownInloop` and leaves the messages in front of one
    where they are, or executes them. -/
theorem Orderly.quiet (h : Orderly tr v) (haccounts : Accounts (tr ++ es) v')
    (hunopened : Unopened v') (hwatched : v'.conn.BacklogWatched)
    (hstopped : ∀ t, v'.threads t = some .stopped → v.threads t = some .stopped)
    (hqueue : .shutdownInloop ∈ v'.queue → .shutdownInloop ∈ v.queue ∧
      List.Subperm (sendsOf (ahead v.queue)) (executedOf es ++ sendsOf (ahead v'.queue))) :
    Orderly (tr ++ es) v' where
  accounts := haccounts
  unopened := hunopened
  watched := hwatched
  queued := fun hmem => List.mem_append_left _ (h.queued (hqueue hmem).1)
  stopped := fun t hcall => List.mem_append_left _ (h.stopped t (hstopped t hcall))
  fifo := by
    intro hmem
    obtain ⟨hbefore, hahead⟩ := hqueue hmem
    rw [inTimeOf_append_late (h.queued hbefore), executedOf_append, List.append_assoc]
    exact (h.fifo hbefore).trans ((List.subperm_append_left _).mpr hahead)

/-- A call into the connection: `first` is in front of what carrying out its effects
    shows, and `v₀` is the connection right behind the call. -/
theorem Orderly.call (h : Orderly tr v) (haccounts : Accounts (tr ++ es) v')
    (hunopened : Unopened v') {v₀ : Lifeline} {effects : List Effect} {others : List ConnEvent}
    (hperformed : Performed v₀ effects v' others)
    (hwatched : v₀.conn.BacklogWatched) (hthreads : v₀.threads = v.threads)
    (hqueue : .shutdownInloop ∈ v₀.queue → .shutdownInloop ∈ v.queue ∧
      List.Subperm (sendsOf (ahead v.queue)) (executedOf es ++ sendsOf (ahead v₀.queue))) :
    Orderly (tr ++ es) v' := by
  obtain ⟨more, hmore, hdestroys⟩ := hperformed.queue
  refine h.quiet haccounts hunopened ?_ ?_ ?_
  · rw [hperformed.conn]
    exact hwatched
  · intro t hcall
    rw [hperformed.threads, hthreads] at hcall
    exact hcall
  · intro hmem
    have hmem₀ : .shutdownInloop ∈ v₀.queue := by
      rw [hmore] at hmem
      rcases List.mem_append.mp hmem with hmem | hmem
      · exact hmem
      · have hdestroy := hdestroys _ hmem
        cases hdestroy
    rw [hmore, ahead_append_of_mem hmem₀]
    exact hqueue hmem₀

/-- A call of `send` or `shutdown` moves on to a stage other than `stopped`. -/
theorem Orderly.setThread (h : Orderly tr v) {t : ThreadId} {call : Option Call}
    (haccounts : Accounts (tr ++ es) v') (hunopened : Unopened v') (hconn : v'.conn = v.conn)
    (hcall : call ≠ some .stopped) (hthreads : v'.threads = Function.update v.threads t call)
    (hqueue : .shutdownInloop ∈ v'.queue → .shutdownInloop ∈ v.queue ∧
      List.Subperm (sendsOf (ahead v.queue)) (executedOf es ++ sendsOf (ahead v'.queue))) :
    Orderly (tr ++ es) v' := by
  refine h.quiet haccounts hunopened ?_ ?_ hqueue
  · rw [hconn]
    exact h.watched
  · intro t' hstopped
    rw [hthreads] at hstopped
    by_cases ht : t' = t
    · rw [ht, Function.update_self] at hstopped
      exact absurd hstopped hcall
    · rw [Function.update_of_ne ht] at hstopped
      exact hstopped

theorem orderly_born (h : Born es v) : Orderly es v := by
  have haccounts := accounts_born h
  cases h with
  | queued loop name sockfd =>
    refine ⟨haccounts, ?_, ?_, ?_, ?_, ?_⟩ <;>
      simp [Unopened, TcpConnection.BacklogWatched, new, TcpConnection.new, sendsOf]
  | inline loop name sockfd hrun hperform =>
    obtain ⟨_, _, rfl, rfl⟩ := TcpConnection.connectEestablished_eq_ok hrun
    simp only [perform, performOne, Prod.mk.injEq] at hperform
    obtain ⟨rfl, rfl⟩ := hperform
    refine ⟨haccounts, ?_, ?_, ?_, ?_, ?_⟩ <;>
      simp [Unopened, TcpConnection.BacklogWatched, new, TcpConnection.new]

/-- A foreign thread queues its shutdown, behind the messages sent in time. -/
theorem Orderly.queueShutdown (h : Orderly tr v) {t : ThreadId}
    (haccounts : Accounts tr
      { v.setThread t (some .stopQueued) with queue := v.queue ++ [.shutdownInloop] })
    (hunopened : Unopened
      { v.setThread t (some .stopQueued) with queue := v.queue ++ [.shutdownInloop] })
    (hcall : v.threads t = some .stopped) :
    Orderly tr { v.setThread t (some .stopQueued) with queue := v.queue ++ [.shutdownInloop] } := by
  have hlate := h.stopped t hcall
  refine ⟨haccounts, hunopened, h.watched, fun _ => hlate, fun _ _ => hlate, fun _ => ?_⟩
  simp only
  by_cases hmem : .shutdownInloop ∈ v.queue
  · rw [ahead_append_of_mem hmem]
    exact h.fifo hmem
  · rw [ahead_push v.queue hmem]
    exact h.accounts.inTime

theorem orderly_step (h : Orderly tr v) (hstep : Step label v es v') : Orderly (tr ++ es) v' := by
  have haccounts := accounts_step h.accounts hstep
  have hunopened := unopened_step h.unopened hstep
  have hsame : ∀ (first : List ConnEvent), .shutdownInloop ∈ v.queue → .shutdownInloop ∈ v.queue ∧
      List.Subperm (sendsOf (ahead v.queue)) (executedOf first ++ sendsOf (ahead v.queue)) :=
    fun first hmem => ⟨hmem, (List.sublist_append_right _ _).subperm⟩
  cases hstep with
  | other | noSend _ | noShutdown _ =>
    rw [List.append_nil]
    exact h
  | poll _ _ _ | retrieve _ =>
    exact h.quiet haccounts hunopened h.watched (fun _ hcall => hcall) (hsame [])
  | callBack htodo hrun hperform =>
    exact h.call haccounts hunopened (performed hperform)
      (TcpConnection.callBack_watched h.watched hrun) rfl (hsame _)
  | remove hremovals hremove =>
    exact h.call haccounts hunopened (performed_remove hremove) h.watched rfl (hsame _)
  | @task v v' task rest io conn effects es htodo hqueue hrun hperform =>
    have hperformed := performed hperform
    refine h.call haccounts hunopened hperformed ?_ rfl ?_
    · cases task with
      | connectEestablished =>
        obtain ⟨_, hconnecting, rfl, _⟩ := TcpConnection.connectEestablished_eq_ok hrun
        exact fun hsome => absurd (h.unopened hconnecting).1 hsome
      | connectDestory =>
        obtain ⟨_, _, rfl, _⟩ := TcpConnection.connectDestory_eq_ok hrun
        exact fun _ => .inr rfl
      | removeConnectionInLoop => cases hrun
      | sendInloop caller message => exact TcpConnection.sendInloop_watched h.watched hrun
      | shutdownInloop =>
        obtain ⟨_, rfl, _⟩ := TcpConnection.shutdownInloop_eq_ok hrun
        exact h.watched
    · -- what is taken from the queue is executed
      intro hmem
      rw [executedOf_append, executedOf_events, hperformed.executed, List.append_nil, hqueue]
      refine ⟨List.mem_cons_of_mem _ hmem, ?_⟩
      by_cases hshutdown : task = .shutdownInloop
      · rw [hshutdown]
        simp [ahead, sendsOf, List.nil_subperm]
      · rw [ahead_cons hshutdown, ← sendsOf_append]
        exact .refl _
  | send hstate hrun hperform =>
    exact h.call haccounts hunopened (performed hperform)
      (TcpConnection.sendInloop_watched h.watched hrun) rfl (hsame _)
  | beginSend _ _ _ | wakeupSend _ | returnSend _ | beginShutdown _ _ _ | wakeupShutdown _ =>
    exact h.setThread haccounts hunopened rfl (by simp) rfl (hsame _)
  | @queueSend v t message hcall =>
    refine h.setThread haccounts hunopened rfl (by simp) rfl (fun hmem => ?_)
    have hbefore : .shutdownInloop ∈ v.queue := by simpa using hmem
    rw [ahead_append_of_mem hbefore]
    exact hsame [] hbefore
  | shutdown hstate hrun hperform =>
    obtain ⟨_, rfl, _⟩ := TcpConnection.shutdownInloop_eq_ok hrun
    exact h.call haccounts hunopened (performed hperform) h.watched rfl (hsame _)
  | setDisconnecting hcall =>
    have hlate : ConnEvent.disconnecting ∈ tr ++ [.disconnecting] := by simp
    refine ⟨haccounts, hunopened, h.watched, fun _ => hlate, fun _ _ => hlate, fun hmem => ?_⟩
    rw [inTimeOf_append_quiet rfl, executedOf_append]
    exact (List.append_nil (executedOf tr)).symm ▸ h.fifo hmem
  | queueShutdown hcall =>
    rw [List.append_nil] at haccounts ⊢
    exact h.queueShutdown haccounts hunopened hcall

/-- A channel that does not ask for write events has output in its buffer only where it
    was disabled. -/
theorem Orderly.fits_iff (h : Orderly tr v) (hwriting : v.conn.channel_.isWriting = false)
    (late : Bytes) : v.conn.outputBuffer_.contents.length ≤ late.length ↔
      (v.conn.channel_.event_ = Channel.kNoneEvent →
        v.conn.outputBuffer_.contents.length ≤ late.length) := by
  refine ⟨fun hfits _ => hfits, fun hfits => ?_⟩
  by_cases hempty : v.conn.outputBuffer_.contents = []
  · simp [hempty]
  · rcases h.watched hempty with hwatched | hdisabled
    · rw [hwriting] at hwatched
      cases hwatched
    · exact hfits hdisabled

/-- `shutdownWrite` at the end of a step, with `rest` of the output still in the
    buffer. -/
theorem Orderly.graceful_concat_iff (h : Orderly tr v) (before : List ConnEvent) (rest : Bytes)
    (hnone : .effect .shutdownWrite ∉ before) (hexecuted : executedOf before = [])
    (hsent : sentOf before = [])
    (hout : writtenOf before ++ rest = v.conn.outputBuffer_.contents) :
    Guarded (· = .effect .shutdownWrite) (fun before => DeliveredInTime (tr ++ before))
        (before ++ [.effect .shutdownWrite]) ↔
      (∀ entry ∈ waitingOf tr v, entry.2 = []) ∧
        rest.length ≤ ((lateOf tr).flatMap (·.2)).length := by
  have hstream : writtenOf tr ++ writtenOf before ++ rest = (executedOf tr).flatMap (·.2) := by
    rw [List.append_assoc, hout]
    exact h.accounts.bytes
  have hguarded : ∀ e ∈ before, ¬ e = .effect .shutdownWrite := by
    rintro e he rfl
    exact hnone he
  rw [guarded_concat_iff hguarded rfl, DeliveredInTime, inTimeOf_append_quiet hsent,
    executedOf_append, hexecuted, List.append_nil, writtenOf_append]
  exact delivered_iff h.accounts.inTime hstream

theorem shutsDownInTime_other : ShutsDownInTime tr v .other :=
  ⟨fun _ _ hlabel => (nomatch hlabel), fun _ _ hlabel => (nomatch hlabel),
    fun hlabel => (nomatch hlabel)⟩

theorem shutsDownInTime_send {t : ThreadId} {message : Bytes} {io : WriteResult} :
    ShutsDownInTime tr v (.send t message io) :=
  ⟨fun _ _ hlabel => (nomatch hlabel), fun _ _ hlabel => (nomatch hlabel),
    fun hlabel => (nomatch hlabel)⟩

theorem shutsDownInTime_callBack {io : IoResult} (h : ∀ rest, v.todo = .write :: rest →
      v.conn.Drains io.write → v.conn.state_ = .kDisconnecting →
      ∀ entry ∈ waitingOf tr v, entry.2 = []) : ShutsDownInTime tr v (.callBack io) where
  handleWrite := by
    intro _ rest hlabel
    cases hlabel
    exact h rest
  queued := fun _ _ hlabel => (nomatch hlabel)
  direct := fun hlabel => (nomatch hlabel)

theorem shutsDownInTime_task {io : WriteResult} (h : ∀ rest, v.queue = .shutdownInloop :: rest →
      v.conn.channel_.event_ = Channel.kNoneEvent →
      v.conn.outputBuffer_.contents.length ≤ ((lateOf tr).flatMap (·.2)).length) :
    ShutsDownInTime tr v (.task io) where
  handleWrite := fun _ _ hlabel => (nomatch hlabel)
  queued := fun _ rest _ => h rest
  direct := fun hlabel => (nomatch hlabel)

theorem shutsDownInTime_shutdown {t : ThreadId} (h : t = v.conn.loop_ →
      v.conn.state_ = .kConnected → v.conn.channel_.isWriting = false →
      (∀ entry ∈ waitingOf tr v, entry.2 = []) ∧
        (v.conn.channel_.event_ = Channel.kNoneEvent →
          v.conn.outputBuffer_.contents.length ≤ ((lateOf tr).flatMap (·.2)).length)) :
    ShutsDownInTime tr v (.shutdown t) where
  handleWrite := fun _ _ hlabel => (nomatch hlabel)
  queued := fun _ _ hlabel => (nomatch hlabel)
  direct := fun hlabel => h (Label.shutdown.inj hlabel)

/-- Where no `shutdownWrite` comes, nothing can go wrong. -/
theorem graceful_iff_of_quiet (hquiet : .effect .shutdownWrite ∉ es)
    (hcond : ShutsDownInTime tr v label) :
    Guarded (· = .effect .shutdownWrite) (fun before => DeliveredInTime (tr ++ before)) es ↔
      ShutsDownInTime tr v label := by
  refine ⟨fun _ => hcond, fun _ => guarded_of_forall_not ?_⟩
  rintro e he rfl
  exact hquiet he

theorem Performed.no_shutdownWrite {v₀ : Lifeline} {effects : List Effect}
    (h : Performed v₀ effects v' es) (hnone : .shutdownWrite ∉ effects) :
    .effect .shutdownWrite ∉ es := by
  intro hmem
  rcases h.shape _ hmem with ⟨effect, hin, heq⟩ | heq | heq
  · rw [ConnEvent.effect.injEq] at heq
    rw [heq] at hnone
    exact hnone hin
  · cases heq
  · cases heq

theorem DirectWrite.no_shutdownWrite {sent : List Effect} (h : TcpConnection.DirectWrite sent) :
    .shutdownWrite ∉ sent := by
  rcases h with rfl | ⟨data, rfl⟩ <;> simp

theorem sendInloop_no_shutdownWrite {conn conn' : TcpConnection} {here : ThreadId} {message : Bytes}
    {io : WriteResult} {effects : List Effect}
    (h : conn.sendInloop here message io = .ok (conn', effects)) : .shutdownWrite ∉ effects := by
  obtain ⟨_, hsend⟩ := TcpConnection.sendInloop_eq_ok h
  cases hsend with
  | taken hsent _ _ => exact DirectWrite.no_shutdownWrite hsent
  | buffered hsent _ _ _ _ => exact DirectWrite.no_shutdownWrite hsent
  | watched hsent _ _ _ _ _ =>
    intro hmem
    rcases List.mem_append.mp hmem with hmem | hmem
    · exact DirectWrite.no_shutdownWrite hsent hmem
    · cases List.mem_singleton.mp hmem

/-- A write event that empties the buffer of a disconnecting connection. -/
theorem graceful_callBack (h : Orderly tr v) {handler : Handler} {rest : List Handler}
    {io : IoResult} {conn : TcpConnection} {effects : List Effect} (htodo : v.todo = handler :: rest)
    (hrun : v.conn.callBack v.conn.loop_ handler io = .ok (conn, effects))
    (hperform : { v with todo := rest, conn := conn }.perform v.conn.loop_ effects = (v', es)) :
    Guarded (· = .effect .shutdownWrite) (fun before => DeliveredInTime (tr ++ before))
      (.handler handler :: es) ↔ ShutsDownInTime tr v (.callBack io) := by
  have hperformed := performed hperform
  have hquiet : .shutdownWrite ∉ effects →
      .effect .shutdownWrite ∉ ConnEvent.handler handler :: es := by
    intro hnone hmem
    rcases List.mem_cons.mp hmem with heq | hmem
    · cases heq
    · exact hperformed.no_shutdownWrite hnone hmem
  have hidle : (handler = .write → v.conn.Drains io.write → v.conn.state_ ≠ .kDisconnecting) →
      ShutsDownInTime tr v (.callBack io) := by
    intro hno
    refine shutsDownInTime_callBack (fun rest' htodo' hdrains hstate => ?_)
    rw [htodo, List.cons.injEq] at htodo'
    exact absurd hstate (hno htodo'.1 hdrains)
  have hother : handler ≠ .write → ShutsDownInTime tr v (.callBack io) :=
    fun hne => hidle (fun hwrite => absurd hwrite hne)
  cases handler with
  | close =>
    obtain ⟨_, _, _, rfl⟩ := TcpConnection.handleClose_eq_ok hrun
    exact graceful_iff_of_quiet (hquiet (by simp)) (hother (by simp))
  | error =>
    simp only [TcpConnection.callBack, TcpConnection.handleError, pure_eq_ok_iff,
      Prod.mk.injEq] at hrun
    exact graceful_iff_of_quiet (hquiet (by simp [← hrun.2])) (hother (by simp))
  | read =>
    refine graceful_iff_of_quiet (hquiet ?_) (hother (by simp))
    obtain ⟨_, ⟨_, rfl | rfl⟩ | ⟨_, _, _, rfl⟩⟩ := TcpConnection.handleRead_eq_ok hrun <;> simp
  | write =>
    obtain ⟨_, hwrite⟩ := TcpConnection.handleWrite_eq_ok hrun
    cases hwrite with
    | idle hmore =>
      exact graceful_iff_of_quiet (hquiet (by simp)) (hidle (fun _ hdrains => absurd hdrains hmore))
    | some hmore _ _ _ =>
      exact graceful_iff_of_quiet (hquiet (by simp)) (hidle (fun _ hdrains => absurd hdrains hmore))
    | drained hdrains _ =>
      by_cases hstate : v.conn.state_ = .kDisconnecting
      · simp only [hstate, if_true, perform, performOne, Prod.mk.injEq] at hperform
        obtain ⟨_, rfl⟩ := hperform
        have hconcat := h.graceful_concat_iff [.handler .write,
          .effect (.written v.conn.outputBuffer_.contents), .effect .updateChannel] [] (by simp)
          rfl rfl (by simp [writtenOf])
        refine hconcat.trans ?_
        constructor
        · rintro ⟨hempty, _⟩
          exact shutsDownInTime_callBack (fun _ _ _ _ => hempty)
        · intro hcond
          exact ⟨hcond.handleWrite io rest rfl htodo hdrains hstate, Nat.zero_le _⟩
      · rw [if_neg hstate] at hperformed hquiet
        exact graceful_iff_of_quiet (hquiet (by simp)) (hidle (fun _ _ => hstate))

/-- A queued `shutdownInloop` comes behind everything that was sent in time. Only
    a disabled channel lets it find output in the buffer. -/
theorem graceful_shutdownInloop (h : Orderly tr v) {rest : List Task} {io : WriteResult}
    {conn : TcpConnection} {effects : List Effect} (hqueue : v.queue = .shutdownInloop :: rest)
    (hrun : v.conn.shutdownInloop v.conn.loop_ = .ok (conn, effects))
    (hperform : { v with queue := rest, conn := conn }.perform v.conn.loop_ effects = (v', es)) :
    Guarded (· = .effect .shutdownWrite) (fun before => DeliveredInTime (tr ++ before)) es ↔
      ShutsDownInTime tr v (.task io) := by
  obtain ⟨_, rfl, rfl⟩ := TcpConnection.shutdownInloop_eq_ok hrun
  have hiff : ShutsDownInTime tr v (.task io) ↔ (v.conn.channel_.event_ = Channel.kNoneEvent →
      v.conn.outputBuffer_.contents.length ≤ ((lateOf tr).flatMap (·.2)).length) := by
    exact ⟨fun hcond => hcond.queued io rest rfl hqueue,
      fun hfits => shutsDownInTime_task (fun _ _ => hfits)⟩
  by_cases hwriting : v.conn.channel_.isWriting = false
  · rw [if_pos hwriting] at hperform
    simp only [perform, performOne, Prod.mk.injEq] at hperform
    obtain ⟨_, rfl⟩ := hperform
    have hwaiting : waitingOf tr v = [] := by
      have hfifo := h.fifo (by simp [hqueue])
      have hahead : sendsOf (ahead v.queue) = [] := by simp [hqueue, ahead, sendsOf]
      rw [hahead, List.append_nil] at hfifo
      exact waiting_eq_nil hfifo _
    have hconcat := h.graceful_concat_iff [] v.conn.outputBuffer_.contents (by simp) rfl rfl rfl
    refine hconcat.trans ?_
    rw [hwaiting, h.fits_iff hwriting, hiff]
    exact and_iff_right (List.forall_mem_nil _)
  · rw [if_neg hwriting] at hperform
    refine graceful_iff_of_quiet ((performed hperform).no_shutdownWrite (by simp)) (hiff.mpr ?_)
    exact fun hnone => absurd (Channel.isWriting_of_none hnone) hwriting

/-- A `shutdown` in the thread of the loop overtakes the queue. -/
theorem graceful_shutdown (h : Orderly tr v) {conn : TcpConnection} {effects : List Effect}
    (hstate : v.conn.state_ = .kConnected)
    (hrun : { v.conn with state_ := .kDisconnecting }.shutdownInloop v.conn.loop_ =
      .ok (conn, effects))
    (hperform : { v with conn := conn }.perform v.conn.loop_ effects = (v', es)) :
    Guarded (· = .effect .shutdownWrite) (fun before => DeliveredInTime (tr ++ before))
      (.disconnecting :: es) ↔ ShutsDownInTime tr v (.shutdown v.conn.loop_) := by
  obtain ⟨_, rfl, rfl⟩ := TcpConnection.shutdownInloop_eq_ok hrun
  by_cases hwriting : v.conn.channel_.isWriting = false
  · simp only [hwriting, if_true, perform, performOne, Prod.mk.injEq] at hperform
    obtain ⟨_, rfl⟩ := hperform
    have hconcat := h.graceful_concat_iff [.disconnecting] v.conn.outputBuffer_.contents
      (by simp) rfl rfl rfl
    refine hconcat.trans ?_
    rw [h.fits_iff hwriting]
    constructor
    · intro hboth
      exact shutsDownInTime_shutdown (fun _ _ _ => hboth)
    · exact fun hcond => hcond.direct rfl hstate hwriting
  · have hperformed := performed hperform
    refine graceful_iff_of_quiet ?_ ?_
    · intro hmem
      rcases List.mem_cons.mp hmem with heq | hmem
      · cases heq
      · exact hperformed.no_shutdownWrite (by simp [hwriting]) hmem
    · exact shutsDownInTime_shutdown (fun _ _ hidle => absurd hidle hwriting)

theorem graceful_step (h : Orderly tr v) (hbefore : GracefulShutdown tr)
    (hstep : Step label v es v') :
    GracefulShutdown (tr ++ es) ↔ ShutsDownInTime tr v label := by
  unfold GracefulShutdown at hbefore ⊢
  rw [guarded_append_iff hbefore]
  cases hstep with
  | other | poll _ _ _ | retrieve _ | queueSend _ | wakeupSend _ | returnSend _
  | setDisconnecting _ | queueShutdown _ | wakeupShutdown _ =>
    exact graceful_iff_of_quiet (by simp) shutsDownInTime_other
  | noSend _ | beginSend _ _ _ => exact graceful_iff_of_quiet (by simp) shutsDownInTime_send
  | remove hremovals hremove =>
    exact graceful_iff_of_quiet ((performed_remove hremove).no_shutdownWrite (by simp))
      shutsDownInTime_other
  | callBack htodo hrun hperform => exact graceful_callBack h htodo hrun hperform
  | @task v v' task rest io conn effects es htodo hqueue hrun hperform =>
    have hquiet : task ≠ .shutdownInloop → ShutsDownInTime tr v (.task io) := by
      intro hother
      refine shutsDownInTime_task (fun rest' hqueue' => ?_)
      rw [hqueue, List.cons.injEq] at hqueue'
      exact absurd hqueue'.1 hother
    cases task with
    | connectEestablished =>
      obtain ⟨_, _, _, rfl⟩ := TcpConnection.connectEestablished_eq_ok hrun
      have hnone := (performed hperform).no_shutdownWrite (by simp)
      exact graceful_iff_of_quiet (by simpa [Task.events] using hnone) (hquiet (by simp))
    | connectDestory =>
      obtain ⟨_, _, _, rfl⟩ := TcpConnection.connectDestory_eq_ok hrun
      have hnone := (performed hperform).no_shutdownWrite (by simp)
      exact graceful_iff_of_quiet (by simpa [Task.events] using hnone) (hquiet (by simp))
    | removeConnectionInLoop => cases hrun
    | sendInloop caller message =>
      have hnone := (performed hperform).no_shutdownWrite (sendInloop_no_shutdownWrite hrun)
      exact graceful_iff_of_quiet (by simpa [Task.events] using hnone) (hquiet (by simp))
    | shutdownInloop => exact graceful_shutdownInloop h hqueue hrun hperform
  | send hstate hrun hperform =>
    have hnone := (performed hperform).no_shutdownWrite (sendInloop_no_shutdownWrite hrun)
    exact graceful_iff_of_quiet (by simpa using hnone) shutsDownInTime_send
  | shutdown hstate hrun hperform => exact graceful_shutdown h hstate hrun hperform
  | beginShutdown hstate hforeign hidle =>
    exact graceful_iff_of_quiet (by simp)
      (shutsDownInTime_shutdown (fun hloop => absurd hloop hforeign))
  | noShutdown hstate =>
    exact graceful_iff_of_quiet (by simp)
      (shutsDownInTime_shutdown (fun _ hconnected => absurd hconnected hstate))

theorem graceful_born (h : Born es v) : GracefulShutdown es := by
  refine guarded_of_forall_not ?_
  rintro e he rfl
  cases h with
  | queued => simp at he
  | inline loop name sockfd hrun hperform =>
    obtain ⟨_, _, _, rfl⟩ := TcpConnection.connectEestablished_eq_ok hrun
    simp only [List.mem_cons, reduceCtorEq, false_or] at he
    exact (performed hperform).no_shutdownWrite (by simp) he

end Steps

end Lifeline

namespace System

open Lifeline

/-- `shutdownWrite` comes behind everything that was sent in time exactly in the
    runs all whose shutdowns come in time. -/
theorem graceful_shutdown_iff {tr : List Event} {s : System} (h : machine.Reach anyStep tr s) :
    (∀ c, GracefulShutdown (eventsOf c tr)) ↔ machine.Reach (everywhere ShutsDownInTime) tr s := by
  refine reach_iff (I := Orderly) guarded_nil (fun _ _ hall => hall.of_append) ?_ ?_ ?_ h
  · exact fun _ _ hborn => ⟨orderly_born hborn, graceful_born hborn⟩
  · exact fun _ _ _ _ _ horderly _ hstep => orderly_step horderly hstep
  · exact fun _ _ _ _ _ horderly hbefore hstep => graceful_step horderly hbefore hstep

/-- Thread 7 sends and shuts down: its shutdown queues behind its message. -/
def sendThenShutdown : List Action :=
  opening ++ [.send 7 1 [1, 2] (.accepted 0)] ++ queueAndReturn 7 ++
    [.shutdown 7 1, .setDisconnecting 7, .queueShutdown 7, .wakeupShutdown 7] ++
    nextBatch 1 [] [] ++
    [.callFunctor 1 (.accepted 1), .callFunctor 1 (.accepted 0)] ++
    [.leavePending 1, .pollReturns 1 [(1, POLLOUT)], .handleEvent 1 ⟨.delivered [], .accepted 1⟩]

theorem graceful_shutdown_sent : ∃ tr s, machine.Reach anyStep tr s ∧
    .effect .shutdownWrite ∈ eventsOf 1 tr ∧ inTimeOf (eventsOf 1 tr) = [(7, [1, 2])] ∧
    ((∀ c, GracefulShutdown (eventsOf c tr)) ↔
      machine.Reach (everywhere ShutsDownInTime) tr s) := by
  have hruns : machine.runs (start [] 1) sendThenShutdown (fun tr _ =>
      .effect .shutdownWrite ∈ eventsOf 1 tr ∧ inTimeOf (eventsOf 1 tr) = [(7, [1, 2])]) = true := by
    decide +kernel
  obtain ⟨tr, s, hreach, htest⟩ := Machine.exists_reach (started_start [] 1) hruns
  obtain ⟨hwrite, hintime⟩ := of_decide_eq_true htest
  exact ⟨tr, s, hreach, hwrite, hintime, graceful_shutdown_iff hreach⟩

/-- A message that is queued by a `send` that has not returned is not sent in time. -/
example : machine.runs (start [] 1)
    (opening ++ [.send 7 1 [1, 2] (.accepted 0), .queueSend 7, .shutdown 1 1]) (fun tr _ =>
      (eventsOf 1 tr).getLast? = some (.effect .shutdownWrite) ∧
        inTimeOf (eventsOf 1 tr) = []) = true := by
  decide +kernel

/-- Thread 7 has sent a message, which waits in the queue, when user code in the
    loop shuts the connection down. -/
def overtaken : List Action :=
  opening ++ [.send 7 1 [1, 2] (.accepted 0)] ++ queueAndReturn 7 ++ [.shutdown 1 1]

/-- `shutdownWrite` comes before the message. -/
theorem shutdown_overtakes_send :
    ¬ ∀ tr s, machine.Reach anyStep tr s → ∀ c, GracefulShutdown (eventsOf c tr) := by
  intro hall
  have hruns : machine.runs (start [] 1) overtaken (fun tr _ =>
      (eventsOf 1 tr).getLast? = some (.effect .shutdownWrite) ∧
        inTimeOf (eventsOf 1 tr).dropLast = [(7, [1, 2])] ∧
        executedOf (eventsOf 1 tr).dropLast = []) = true := by
    decide +kernel
  obtain ⟨tr, s, hreach, htest⟩ := Machine.exists_reach (started_start [] 1) hruns
  obtain ⟨hlast, hintime, hexecuted⟩ := of_decide_eq_true htest
  have hsplit := (List.dropLast_append_getLast? _ hlast).symm
  obtain ⟨n, hexecutes, _⟩ := hall tr s hreach 1 (eventsOf 1 tr).dropLast _ [] hsplit rfl
  rw [hintime, hexecuted, List.take_nil] at hexecutes
  simpa [loaded] using hexecutes.length_le

end System

end TcpNet
