import TcpNet.TcpServer.Runs

open Transition

namespace TcpNet

section Events

variable (tr es : List ConnEvent)

@[simp] theorem writtenOf_append : writtenOf (tr ++ es) = writtenOf tr ++ writtenOf es :=
  List.flatMap_append

@[simp] theorem executedOf_append : executedOf (tr ++ es) = executedOf tr ++ executedOf es :=
  List.filterMap_append

@[simp] theorem sendingOf_append : sendingOf (tr ++ es) = sendingOf tr ++ sendingOf es :=
  List.filterMap_append

@[simp] theorem sentOf_append : sentOf (tr ++ es) = sentOf tr ++ sentOf es :=
  List.filterMap_append

@[simp] theorem sendsOf_append (queue queue' : List Task) :
    sendsOf (queue ++ queue') = sendsOf queue ++ sendsOf queue' :=
  List.filterMap_append

end Events

namespace Lifeline

/-- What carrying out effects leaves alone, and what it shows in the trace. -/
structure Performed (v : Lifeline) (effects : List Effect) (v' : Lifeline)
    (es : List ConnEvent) : Prop where
  conn : v'.conn = v.conn
  threads : v'.threads = v.threads
  todo : v'.todo = v.todo
  queue : ∃ more, v'.queue = v.queue ++ more ∧ ∀ task ∈ more, task = .connectDestory
  written : writtenOf es = writtenBytes effects
  shape : ∀ e ∈ es, (∃ effect ∈ effects, e = .effect effect) ∨ e = .erased ∨ e = .destroyQueued

theorem performed_removal (v : Lifeline) :
    Performed v [] v.removeConnectionInLoop.1 v.removeConnectionInLoop.2 := by
  unfold removeConnectionInLoop
  by_cases hmapped : v.mapped = true
  · rw [if_pos hmapped]
    exact ⟨rfl, rfl, rfl, ⟨_, rfl, by simp⟩, rfl, by simp⟩
  · rw [if_neg hmapped]
    exact ⟨rfl, rfl, rfl, ⟨[], by simp⟩, rfl, by simp⟩

theorem performed_remove {v v' : Lifeline} {es : List ConnEvent}
    (h : v.removeConnectionInLoop = (v', es)) : Performed v [] v' es := by
  have hspec := performed_removal v
  rw [h] at hspec
  exact hspec

theorem performed_one (v : Lifeline) (here : ThreadId) (effect : Effect) :
    Performed v [] (v.performOne here effect).1 (v.performOne here effect).2 := by
  cases effect with
  | closeCallBack =>
    simp only [performOne]
    by_cases hbase : here = baseLoop
    · rw [if_pos hbase]
      exact performed_removal v
    · rw [if_neg hbase]
      exact ⟨rfl, rfl, rfl, ⟨[], by simp⟩, rfl, by simp⟩
  | updateChannel | removeChannel | written _ | shutdownWrite | connectionCallBack _
  | messageCallBack => exact ⟨rfl, rfl, rfl, ⟨[], by simp [performOne]⟩, rfl, by simp [performOne]⟩

theorem performed_perform (v : Lifeline) (here : ThreadId) (effects : List Effect) :
    Performed v effects (v.perform here effects).1 (v.perform here effects).2 := by
  induction effects generalizing v with
  | nil => exact ⟨rfl, rfl, rfl, ⟨[], by simp [perform]⟩, rfl, by simp [perform]⟩
  | cons effect rest ih =>
    have hone := performed_one v here effect
    have hrest := ih (v.performOne here effect).1
    refine ⟨hrest.conn.trans hone.conn, hrest.threads.trans hone.threads,
      hrest.todo.trans hone.todo, ?_, ?_, ?_⟩
    · obtain ⟨more, hqueue, hmore⟩ := hone.queue
      obtain ⟨more', hqueue', hmore'⟩ := hrest.queue
      refine ⟨more ++ more', ?_, ?_⟩
      · rw [← List.append_assoc, ← hqueue]
        exact hqueue'
      · intro task htask
        exact (List.mem_append.mp htask).elim (hmore task) (hmore' task)
    · have hfirst : writtenOf [.effect effect] = writtenBytes [effect] := by
        cases effect <;> rfl
      have hevents : (v.perform here (effect :: rest)).2 = [.effect effect] ++
          ((v.performOne here effect).2 ++ ((v.performOne here effect).1.perform here rest).2) := rfl
      rw [hevents, writtenOf_append, writtenOf_append, hone.written, hrest.written, hfirst,
        writtenBytes_nil, List.nil_append, ← writtenBytes_cons]
    · intro e he
      simp only [perform, List.cons_append, List.mem_cons, List.mem_append] at he
      rcases he with rfl | he | he
      · exact .inl ⟨effect, List.mem_cons_self, rfl⟩
      · rcases hone.shape e he with ⟨_, hmem, _⟩ | hother
        · cases hmem
        · exact .inr hother
      · rcases hrest.shape e he with ⟨other, hmem, rfl⟩ | hother
        · exact .inl ⟨other, List.mem_cons_of_mem _ hmem, rfl⟩
        · exact .inr hother

theorem performed {v v' : Lifeline} {here : ThreadId} {effects : List Effect}
    {es : List ConnEvent} (h : v.perform here effects = (v', es)) : Performed v effects v' es := by
  have hspec := performed_perform v here effects
  rw [h] at hspec
  exact hspec

namespace Performed

variable {v v' : Lifeline} {effects : List Effect} {es : List ConnEvent}

theorem sends (h : Performed v effects v' es) : sendsOf v'.queue = sendsOf v.queue := by
  obtain ⟨more, hqueue, hmore⟩ := h.queue
  have hnone : sendsOf more = [] := by
    refine List.filterMap_eq_nil_iff.mpr (fun task htask => ?_)
    rw [hmore task htask]
  rw [hqueue, sendsOf_append, hnone, List.append_nil]

theorem executed (h : Performed v effects v' es) : executedOf es = [] := by
  refine List.filterMap_eq_nil_iff.mpr (fun e he => ?_)
  rcases h.shape e he with ⟨_, _, rfl⟩ | rfl | rfl <;> rfl

theorem sending (h : Performed v effects v' es) : sendingOf es = [] := by
  refine List.filterMap_eq_nil_iff.mpr (fun e he => ?_)
  rcases h.shape e he with ⟨_, _, rfl⟩ | rfl | rfl <;> rfl

theorem sent (h : Performed v effects v' es) : sentOf es = [] := by
  refine List.filterMap_eq_nil_iff.mpr (fun e he => ?_)
  rcases h.shape e he with ⟨_, _, rfl⟩ | rfl | rfl <;> rfl

end Performed

/-- The message that a `send` of thread `t` has found `kConnected` for and not yet
    queued. -/
def inFlight (v : Lifeline) (t : ThreadId) : List (ThreadId × Bytes) :=
  match v.threads t with
  | some (.sending message) => [(t, message)]
  | _ => []

/-- The message that a `send` of thread `t` has queued, with the `send` not yet
    returned. -/
def unreturned (v : Lifeline) (t : ThreadId) : List (ThreadId × Bytes) :=
  match v.threads t with
  | some (.queued message) | some (.woken message) => [(t, message)]
  | _ => []

/-- Where every byte and every message of the connection is. -/
structure Accounts (tr : List ConnEvent) (v : Lifeline) : Prop where
  bytes : writtenOf tr ++ v.conn.outputBuffer_.contents = (executedOf tr).flatMap (·.2)
  foreign : ∀ t call, v.threads t = some call → t ≠ v.conn.loop_
  callers : ∀ entry ∈ sendsOf v.queue, entry.1 ≠ v.conn.loop_
  begun : ∀ t, (executedOf tr ++ sendsOf v.queue).filter (·.1 = t) ++ v.inFlight t =
    (sendingOf tr).filter (·.1 = t)
  returned : ∀ t, (sentOf tr).filter (·.1 = t) ++ v.unreturned t =
    (executedOf tr ++ sendsOf v.queue).filter (·.1 = t)

/-- The message of a functor that sends one. -/
def messageOf : Task → Bytes
  | .sendInloop _ message => message
  | _ => []

theorem run_stream {task : Task} {conn conn' : TcpConnection} {here : ThreadId} {io : WriteResult}
    {effects : List Effect} (h : task.run conn here io = .ok (conn', effects)) :
    writtenBytes effects ++ conn'.outputBuffer_.contents =
      conn.outputBuffer_.contents ++ messageOf task := by
  cases task with
  | connectEestablished =>
    obtain ⟨_, _, rfl, rfl⟩ := TcpConnection.connectEestablished_eq_ok h
    simp [writtenBytes, messageOf]
  | connectDestory =>
    obtain ⟨_, _, rfl, rfl⟩ := TcpConnection.connectDestory_eq_ok h
    simp [writtenBytes, messageOf]
  | removeConnectionInLoop => cases h
  | sendInloop caller message => exact TcpConnection.sendInloop_stream h
  | shutdownInloop =>
    obtain ⟨_, hsame, rfl⟩ := TcpConnection.shutdownInloop_eq_ok h
    rw [hsame]
    by_cases hwriting : conn.channel_.isWriting = false <;>
      simp [writtenBytes, messageOf, hwriting]

theorem executedOf_events (task : Task) : executedOf task.events = sendsOf [task] := by
  cases task <;> rfl

theorem flatMap_sendsOf (task : Task) : (sendsOf [task]).flatMap (·.2) = messageOf task := by
  cases task <;> simp [sendsOf, messageOf]

theorem accounts_new (loop : LoopId) (name : Name) (sockfd : Int) :
    Accounts [] (new loop name sockfd) where
  bytes := by simp [new, TcpConnection.new, writtenOf, executedOf]
  foreign := by simp [new]
  callers := by simp [new, sendsOf]
  begun := by simp [new, executedOf, sendsOf, sendingOf, inFlight]
  returned := by simp [new, executedOf, sendsOf, sentOf, unreturned]

section Steps

variable {tr es : List ConnEvent} {v v' : Lifeline}

/-- The books still balance if the step's own entries do. What is handed to the loop
    in the step, at once or through the queue, is `handed`. -/
theorem Accounts.step (h : Accounts tr v) (hloop : v'.conn.loop_ = v.conn.loop_)
    (hbytes : writtenOf es ++ v'.conn.outputBuffer_.contents =
      v.conn.outputBuffer_.contents ++ (executedOf es).flatMap (·.2))
    (hforeign : ∀ t call, v'.threads t = some call → t ≠ v.conn.loop_)
    (hcallers : ∀ entry ∈ sendsOf v'.queue, entry.1 ≠ v.conn.loop_)
    (handed : ThreadId → List (ThreadId × Bytes))
    (hhanded : ∀ t, (executedOf es ++ sendsOf v'.queue).filter (·.1 = t) =
      (sendsOf v.queue).filter (·.1 = t) ++ handed t)
    (hbegun : ∀ t, handed t ++ v'.inFlight t = v.inFlight t ++ (sendingOf es).filter (·.1 = t))
    (hreturned : ∀ t, (sentOf es).filter (·.1 = t) ++ v'.unreturned t =
      v.unreturned t ++ handed t) : Accounts (tr ++ es) v' where
  bytes := by
    rw [writtenOf_append, List.append_assoc, hbytes, ← List.append_assoc, h.bytes,
      executedOf_append, List.flatMap_append]
  foreign := by
    rw [hloop]
    exact hforeign
  callers := by
    rw [hloop]
    exact hcallers
  begun := by
    intro t
    rw [executedOf_append, List.append_assoc, List.filter_append, hhanded, sendingOf_append,
      List.filter_append, ← h.begun, List.filter_append]
    simp only [List.append_assoc, hbegun]
  returned := by
    intro t
    rw [executedOf_append, List.append_assoc, List.filter_append, hhanded, sentOf_append,
      List.filter_append, List.append_assoc, hreturned, ← List.append_assoc, h.returned,
      List.filter_append, List.append_assoc]

/-- The same for a call into the connection: `first` is in front of what carrying
    out its effects shows, and `v₀` is the connection right behind the call. -/
theorem Accounts.call (h : Accounts tr v) (first : List ConnEvent) {v₀ : Lifeline}
    {effects : List Effect} (hperformed : Performed v₀ effects v' es)
    (hloop : v₀.conn.loop_ = v.conn.loop_) (hthreads : v₀.threads = v.threads)
    (hfirst : writtenOf first = [] ∧ sendingOf first = [] ∧ sentOf first = [])
    (hstream : writtenBytes effects ++ v₀.conn.outputBuffer_.contents =
      v.conn.outputBuffer_.contents ++ (executedOf first).flatMap (·.2))
    (hqueued : executedOf first ++ sendsOf v₀.queue = sendsOf v.queue) :
    Accounts (tr ++ (first ++ es)) v' := by
  obtain ⟨hwritten, hsending, hsent⟩ := hfirst
  have hsame : v'.threads = v.threads := hperformed.threads.trans hthreads
  have hexecuted : executedOf (first ++ es) = executedOf first := by
    rw [executedOf_append, hperformed.executed, List.append_nil]
  refine h.step ?_ ?_ ?_ ?_ (fun _ => []) ?_ ?_ ?_
  · rw [hperformed.conn, hloop]
  · rw [writtenOf_append, hwritten, List.nil_append, hperformed.written, hperformed.conn, hexecuted]
    exact hstream
  · rw [hsame]
    exact h.foreign
  · intro entry hentry
    rw [hperformed.sends] at hentry
    refine h.callers entry ?_
    rw [← hqueued]
    exact List.mem_append_right _ hentry
  · intro t
    rw [hexecuted, hperformed.sends, hqueued, List.append_nil]
  · intro t
    simp [hsending, hperformed.sending, inFlight, hsame]
  · intro t
    simp [hsent, hperformed.sent, unreturned, hsame]

theorem filter_own {entries : List (ThreadId × Bytes)} {t : ThreadId}
    (h : ∀ entry ∈ entries, entry.1 = t) (t' : ThreadId) :
    entries.filter (·.1 = t') = if t' = t then entries else [] := by
  by_cases ht : t' = t
  · rw [if_pos ht, List.filter_eq_self.mpr]
    exact fun entry hentry => decide_eq_true ((h entry hentry).trans ht.symm)
  · rw [if_neg ht, List.filter_eq_nil_iff]
    intro entry hentry
    simp [h entry hentry, Ne.symm ht]

/-- A call of `send` or `shutdown` in thread `t` moves on, and may put functors into the
    queue. -/
theorem Accounts.setThread (h : Accounts tr v) {t : ThreadId} {call : Option Call}
    {more : List Task} (hforeign : t ≠ v.conn.loop_) (hwritten : writtenOf es = [])
    (hexecuted : executedOf es = []) (hthreads : v'.threads = Function.update v.threads t call)
    (hconn : v'.conn.loop_ = v.conn.loop_ ∧ v'.conn.outputBuffer_ = v.conn.outputBuffer_)
    (hqueue : v'.queue = v.queue ++ more)
    (hown : ∀ entry ∈ sendsOf more ++ sendingOf es ++ sentOf es, entry.1 = t)
    (hbegun : sendsOf more ++ v'.inFlight t = v.inFlight t ++ sendingOf es)
    (hreturned : sentOf es ++ v'.unreturned t = v.unreturned t ++ sendsOf more) :
    Accounts (tr ++ es) v' := by
  have hothers : ∀ t' ≠ t, v'.inFlight t' = v.inFlight t' ∧ v'.unreturned t' = v.unreturned t' := by
    intro t' ht
    simp [inFlight, unreturned, hthreads, ht]
  simp only [List.mem_append, or_imp, forall_and] at hown
  obtain ⟨⟨hmore, hsending⟩, hsent⟩ := hown
  refine h.step hconn.1 ?_ ?_ ?_ (fun t' => (sendsOf more).filter (·.1 = t')) ?_ ?_ ?_
  · rw [hwritten, hexecuted, hconn.2]
    simp
  · intro t' call' hcall
    rw [hthreads] at hcall
    by_cases ht : t' = t
    · rw [ht]
      exact hforeign
    · rw [Function.update_of_ne ht] at hcall
      exact h.foreign t' call' hcall
  · intro entry hentry
    rw [hqueue, sendsOf_append] at hentry
    rcases List.mem_append.mp hentry with hold | hnew
    · exact h.callers entry hold
    · rw [hmore entry hnew]
      exact hforeign
  · intro t'
    rw [hexecuted, hqueue, sendsOf_append, List.nil_append, List.filter_append]
  · intro t'
    rw [filter_own hmore, filter_own hsending]
    by_cases ht : t' = t
    · simpa [ht] using hbegun
    · simp [ht, (hothers t' ht).1]
  · intro t'
    rw [filter_own hmore, filter_own hsent]
    by_cases ht : t' = t
    · simpa [ht] using hreturned
    · simp [ht, (hothers t' ht).2]

end Steps

theorem accounts_born {es : List ConnEvent} {v : Lifeline} (h : Born es v) : Accounts es v := by
  cases h with
  | queued loop name sockfd =>
    have hnew := accounts_new loop name sockfd
    exact ⟨hnew.bytes, hnew.foreign, hnew.callers, hnew.begun, hnew.returned⟩
  | inline loop name sockfd hrun hperform =>
    obtain ⟨_, _, rfl, rfl⟩ := TcpConnection.connectEestablished_eq_ok hrun
    exact (accounts_new loop name sockfd).call [.accepted, .established] (performed hperform) rfl
      rfl ⟨rfl, rfl, rfl⟩ rfl rfl

theorem accounts_step {tr es : List ConnEvent} {v v' : Lifeline} {label : Label}
    (h : Accounts tr v) (hstep : Step label v es v') : Accounts (tr ++ es) v' := by
  cases hstep with
  | other | noSend _ | noShutdown _ =>
    rw [List.append_nil]
    exact h
  | poll _ _ _ | retrieve _ =>
    rw [List.append_nil]
    exact ⟨h.bytes, h.foreign, h.callers, h.begun, h.returned⟩
  | callBack htodo hrun hperform =>
    obtain ⟨hsame, _⟩ := TcpConnection.callBack_same hrun
    refine h.call [.handler _] (performed hperform) hsame.loop rfl ⟨rfl, rfl, rfl⟩ ?_ rfl
    rw [TcpConnection.callBack_stream hrun]
    simp [executedOf]
  | @task v v' task rest io conn effects es htodo hqueue hrun hperform =>
    have hhead : sendsOf v.queue = sendsOf [task] ++ sendsOf rest := by
      rw [hqueue, ← sendsOf_append]
      rfl
    refine h.call task.events (performed hperform) (System.run_same hrun).loop rfl ?_ ?_ ?_
    · cases task <;> exact ⟨rfl, rfl, rfl⟩
    · rw [executedOf_events, flatMap_sendsOf]
      exact run_stream hrun
    · rw [executedOf_events, hhead]
  | @remove v v' removals es hremovals hremove =>
    refine h.call [] (performed_remove hremove) rfl rfl ⟨rfl, rfl, rfl⟩ ?_ rfl
    simp [executedOf]
  | @send v v' message io conn effects es hstate hrun hperform =>
    have hperformed := performed hperform
    have hidle : v.inFlight v.conn.loop_ = [] ∧ v.unreturned v.conn.loop_ = [] := by
      cases hcall : v.threads v.conn.loop_ with
      | none => simp [inFlight, unreturned, hcall]
      | some call => exact absurd rfl (h.foreign _ _ hcall)
    have hexecuted : executedOf ([.sending v.conn.loop_ message, .executed v.conn.loop_ message] ++
        es ++ [.sent v.conn.loop_ message]) = [(v.conn.loop_, message)] := by
      rw [executedOf_append, executedOf_append, hperformed.executed]
      rfl
    have hsent : sentOf ([.sending v.conn.loop_ message, .executed v.conn.loop_ message] ++
        es ++ [.sent v.conn.loop_ message]) = [(v.conn.loop_, message)] := by
      rw [sentOf_append, sentOf_append, hperformed.sent]
      rfl
    have hsending : sendingOf ([.sending v.conn.loop_ message, .executed v.conn.loop_ message] ++
        es ++ [.sent v.conn.loop_ message]) = [(v.conn.loop_, message)] := by
      rw [sendingOf_append, sendingOf_append, hperformed.sending]
      rfl
    have hsame : ∀ t, v'.inFlight t = v.inFlight t ∧ v'.unreturned t = v.unreturned t := by
      intro t
      simp [inFlight, unreturned, hperformed.threads]
    have hnone : (sendsOf v.queue).filter (·.1 = v.conn.loop_) = [] := by
      rw [List.filter_eq_nil_iff]
      intro entry hentry
      simpa using h.callers entry hentry
    refine h.step ?_ ?_ ?_ ?_ (fun t => [(v.conn.loop_, message)].filter (·.1 = t)) ?_ ?_ ?_
    · rw [hperformed.conn]
      exact (TcpConnection.sendInloop_same hrun).1.loop
    · have hstream := TcpConnection.sendInloop_stream hrun
      rw [hexecuted, writtenOf_append, writtenOf_append, hperformed.written, hperformed.conn]
      simpa [writtenOf] using hstream
    · rw [hperformed.threads]
      exact h.foreign
    · rw [hperformed.sends]
      exact h.callers
    · intro t
      rw [hexecuted, hperformed.sends, List.filter_append]
      by_cases ht : t = v.conn.loop_
      · rw [ht, hnone, List.append_nil, List.nil_append]
      · simp [Ne.symm ht]
    · intro t
      rw [hsending, (hsame t).1]
      by_cases ht : t = v.conn.loop_
      · rw [ht, hidle.1, List.append_nil, List.nil_append]
      · simp [Ne.symm ht]
    · intro t
      rw [hsent, (hsame t).2]
      by_cases ht : t = v.conn.loop_
      · rw [ht, hidle.2, List.append_nil, List.nil_append]
      · simp [Ne.symm ht]
  | @beginSend v t message io hstate hforeign hidle =>
    refine h.setThread hforeign rfl rfl rfl ⟨rfl, rfl⟩ (List.append_nil _).symm ?_ ?_ ?_
    · simp [sendsOf, sendingOf, sentOf]
    · simp [sendsOf, sendingOf, inFlight, setThread, hidle]
    · simp [sendsOf, sentOf, unreturned, setThread, hidle]
  | @queueSend v t message hcall =>
    refine h.setThread (h.foreign t _ hcall) rfl rfl rfl ⟨rfl, rfl⟩ rfl ?_ ?_ ?_
    · simp [sendsOf, sendingOf, sentOf]
    · simp [sendsOf, sendingOf, inFlight, setThread, hcall]
    · simp [sendsOf, sentOf, unreturned, setThread, hcall]
  | @shutdown v v' conn effects es hstate hrun hperform =>
    obtain ⟨_, hsame, rfl⟩ := TcpConnection.shutdownInloop_eq_ok hrun
    refine h.call [.disconnecting] (performed hperform) (by rw [hsame]) rfl ⟨rfl, rfl, rfl⟩ ?_ rfl
    rw [hsame]
    split <;> simp [writtenBytes, executedOf]
  | @beginShutdown v t hstate hforeign hidle =>
    refine h.setThread hforeign rfl rfl rfl ⟨rfl, rfl⟩ (List.append_nil _).symm ?_ ?_ ?_
    · simp [sendsOf, sendingOf, sentOf]
    · simp [sendsOf, sendingOf, inFlight, setThread, hidle]
    · simp [sendsOf, sentOf, unreturned, setThread, hidle]
  | @queueShutdown v t hcall =>
    refine h.setThread (h.foreign t _ hcall) rfl rfl rfl ⟨rfl, rfl⟩ rfl ?_ ?_ ?_
    · simp [sendsOf, sendingOf, sentOf]
    · simp [sendsOf, sendingOf, inFlight, setThread, hcall]
    · simp [sendsOf, sentOf, unreturned, setThread, hcall]
  | wakeupSend hcall | returnSend hcall | setDisconnecting hcall | wakeupShutdown hcall =>
    refine h.setThread (h.foreign _ _ hcall) rfl rfl rfl ⟨rfl, rfl⟩ (List.append_nil _).symm
      ?_ ?_ ?_
    · simp [sendsOf, sendingOf, sentOf]
    · simp [sendsOf, sendingOf, inFlight, setThread, hcall]
    · simp [sendsOf, sentOf, unreturned, setThread, hcall]

end Lifeline

namespace System

open Lifeline

theorem reach_accounts {tr : List Event} {s : System} (h : machine.Reach anyStep tr s)
    {c : ConnId} {v : Lifeline} (hview : s.view c = some v) : Accounts (eventsOf c tr) v := by
  have hinv := reach_view (fun _ _ hborn => accounts_born hborn)
    (fun _ _ _ _ _ hacc _ hstep => accounts_step hacc hstep) (reach_everywhere_true h) c
  rw [hview] at hinv
  exact hinv

/-- What the kernel took, followed by what waits in the output buffer, is at every
    point the concatenation of the messages in the order of their `sendInloop`; and
    the messages of a thread outside the loop are, in the order of its `send`s,
    those executed, those queued, and the one it is about to queue. -/
theorem output_stream {tr : List Event} {s : System} (h : machine.Reach anyStep tr s) {c : ConnId}
    {conn : TcpConnection} (hconn : s.conns c = some conn) :
    writtenOf (eventsOf c tr) ++ conn.outputBuffer_.contents =
        (executedOf (eventsOf c tr)).flatMap (·.2) ∧
      ∀ t ≠ conn.loop_, ∃ inFlight : List (ThreadId × Bytes), inFlight.length ≤ 1 ∧
        (executedOf (eventsOf c tr)).filter (·.1 = t) ++
            (sendsOf (tasksOf c (s.loops conn.loop_).queued)).filter (·.1 = t) ++ inFlight =
          (sendingOf (eventsOf c tr)).filter (·.1 = t) := by
  obtain ⟨v, hview, hown⟩ := exists_view_of_conn (conn_eq_ok_iff.mpr hconn)
  have hacc := reach_accounts h hview
  refine ⟨hown ▸ hacc.bytes, ?_⟩
  intro t ht
  have hqueue : v.queue = tasksOf c (s.loops conn.loop_).queued := by
    obtain ⟨_, _, rfl⟩ := Option.map_eq_some_iff.mp hview
    rw [← hown]
  refine ⟨v.inFlight t, ?_, ?_⟩
  · unfold inFlight
    split <;> simp
  · rw [← hacc.begun t, List.filter_append, hqueue]

/-- A message of thread 7 of which the kernel takes the first byte only. -/
theorem output_stream_short_write : ∃ tr s conn, machine.Reach anyStep tr s ∧
    s.conns 1 = some conn ∧ conn.outputBuffer_.contents = [2] ∧
    writtenOf (eventsOf 1 tr) ++ conn.outputBuffer_.contents =
      (executedOf (eventsOf 1 tr)).flatMap (·.2) ∧
    ∃ inFlight : List (ThreadId × Bytes), inFlight.length ≤ 1 ∧
      (executedOf (eventsOf 1 tr)).filter (·.1 = 7) ++
          (sendsOf (tasksOf 1 (s.loops conn.loop_).queued)).filter (·.1 = 7) ++ inFlight =
        (sendingOf (eventsOf 1 tr)).filter (·.1 = 7) := by
  have hruns : machine.runs (start [] 1)
      (opening ++ [.send 7 1 [1, 2] (.accepted 0)] ++ queueAndReturn 7 ++ nextBatch 1 [] [] ++
        [.callFunctor 1 (.accepted 1)])
      (fun _ s => (s.conns 1).any fun conn =>
        conn.loop_ = 1 ∧ conn.outputBuffer_.contents = [2]) = true := by
    decide +kernel
  obtain ⟨tr, s, hreach, htest⟩ := Machine.exists_reach (started_start [] 1) hruns
  obtain ⟨conn, hconn, hfacts⟩ := (Option.any_eq_true _ _).mp htest
  obtain ⟨hloop, hout⟩ := of_decide_eq_true hfacts
  obtain ⟨hbytes, horder⟩ := output_stream hreach hconn
  exact ⟨tr, s, conn, hreach, hconn, hout, hbytes, horder 7 (by rw [hloop]; decide)⟩

end System

end TcpNet
