import TcpNet.Http.Response.Connection
import TcpNet.Http.Server.Closing
import TcpNet.Http.Server.Wire

open LineReader Transition Trace

namespace TcpNet

namespace RequestText

/-- More bytes complete no fewer requests. -/
theorem complete_mono (texts : List RequestText) {n m : Nat} (h : n ≤ m) :
    complete texts n ≤ complete texts m := by
  induction texts generalizing n m with
  | nil => exact Nat.le_refl 0
  | cons text texts ih =>
    rw [complete, complete]
    split
    · rw [if_pos (by omega)]
      exact Nat.succ_le_succ (ih (by omega))
    · exact Nat.zero_le _

end RequestText

namespace HttpEvent

theorem length_expected_le (outcomes : List (Option HttpResponse)) :
    (expected outcomes).length ≤ outcomes.length := by
  induction outcomes with
  | nil => exact Nat.le_refl 0
  | cons outcome outcomes ih =>
    cases outcome with
    | none =>
      rw [expected, List.length_singleton, List.length_cons]
      omega
    | some response =>
      rw [expected, List.length_cons, List.length_cons]
      split
      · exact Nat.succ_le_succ (Nat.zero_le _)
      · exact Nat.succ_le_succ ih

/-- Without a failure, every outcome is a response. -/
theorem outcomes_of_notMem {tr : List HttpEvent} (h : none ∉ outcomes tr) :
    outcomes tr = (responses tr).map some := by
  unfold responses
  generalize outcomes tr = l at h
  induction l with
  | nil => rfl
  | cons outcome l ih =>
    rw [List.mem_cons, not_or] at h
    cases outcome with
    | none => exact absurd rfl h.1
    | some response => exact congrArg (some response :: ·) (ih h.2)

end HttpEvent

namespace HttpConnection

open HttpEvent RequestText

/-- There are as many responses as requests. -/
theorem length_responses (tr : List HttpEvent) :
    (responses tr).length = (requests tr).length := by
  unfold responses
  induction tr with
  | nil => rfl
  | cons e tr ih =>
    cases e with
    | httpCallback req response => exact congrArg Nat.succ ih
    | parseRequest state ok => cases ok <;> exact ih
    | sendInloop message | shutdownInloop => exact ih

variable {texts read rest : List RequestText} {tr es : List HttpEvent}
  {conn conn' : HttpConnection} {message : HttpMessage} {messages : List HttpMessage}
  {received : Bytes} {httpCallback : HttpCallback}

/-- The response that a callback makes of a request. -/
def answer (httpCallback : HttpCallback) (req : HttpRequest) : HttpResponse :=
  httpCallback req (.new (wantsClose req))

/-- The callback does not look at the time at which a request came. -/
def Timeless (httpCallback : HttpCallback) : Prop :=
  ∀ req receiveTime, httpCallback (req.setReceiveTime receiveTime) = httpCallback req

theorem Timeless.answer_eq (h : Timeless httpCallback) (req : HttpRequest) :
    answer httpCallback (req.setReceiveTime 0) = answer httpCallback req := by
  rw [answer, h]
  rfl

/-- The response to a request is the callback's. -/
theorem answered_of_step (hstep : Step conn message es conn') {req : HttpRequest}
    {response : HttpResponse} (hmem : .httpCallback req response ∈ es) :
    response = answer message.httpCallback req := by
  have hgated : ∀ {sent : List HttpEvent}, (∀ e ∈ sent, ¬ IsCallback e) →
      .httpCallback req response ∉ gated conn.state_ sent :=
    fun hsent hmem => not_isCallback_gated conn.state_ hsent _ hmem trivial
  cases hstep with
  | waits hread => simp at hmem
  | refuses hread =>
    rw [List.mem_cons, or_iff_right (by simp)] at hmem
    exact absurd hmem (hgated (by simp [IsCallback]))
  | answers hread hclose =>
    rw [List.mem_cons, or_iff_right (by simp), List.mem_cons,
      or_iff_left (hgated (by simp [IsCallback])), HttpEvent.httpCallback.injEq] at hmem
    obtain ⟨rfl, rfl⟩ := hmem
    rfl
  | closes hread hclose =>
    rw [List.mem_cons, or_iff_right (by simp), List.mem_cons,
      or_iff_left (hgated (by simp [IsCallback])), HttpEvent.httpCallback.injEq] at hmem
    obtain ⟨rfl, rfl⟩ := hmem
    rfl

/-- By induction over the messages. -/
theorem answered_of_exec (hreading : conn.context_.Reading)
    (hexec : machine.exec conn messages = .ok (conn', tr)) {req : HttpRequest}
    {response : HttpResponse} (hmem : .httpCallback req response ∈ tr) :
    ∃ message ∈ messages, response = answer message.httpCallback req := by
  induction messages generalizing conn tr with
  | nil =>
    simp only [Machine.exec, Except.ok.injEq, Prod.mk.injEq] at hexec
    obtain ⟨_, rfl⟩ := hexec
    cases hmem
  | cons message messages ih =>
    obtain ⟨es, conn₁, hgo, hstep⟩ := step_spec hreading message
    have hgo' : machine.step conn message = .ok (conn₁, es) := hgo
    simp only [Machine.exec, hgo'] at hexec
    cases hrest : machine.exec conn₁ messages with
    | error e => rw [hrest] at hexec; cases hexec
    | ok last =>
      obtain ⟨conn₂, es₂⟩ := last
      simp only [hrest, Except.ok.injEq, Prod.mk.injEq] at hexec
      obtain ⟨rfl, rfl⟩ := hexec
      rcases List.mem_append.mp hmem with hmem | hmem
      · exact ⟨message, List.mem_cons_self, answered_of_step hstep hmem⟩
      · obtain ⟨m, hm, hanswer⟩ := ih (reading_of_step hreading hstep) hrest hmem
        exact ⟨m, List.mem_cons_of_mem message hm, hanswer⟩

/-- The responses of a run in which every callback is the same. -/
theorem responses_of_exec (htime : Timeless httpCallback)
    (hcallback : ∀ message ∈ messages, message.httpCallback = httpCallback)
    (hreading : conn.context_.Reading) (hexec : machine.exec conn messages = .ok (conn', tr)) :
    responses tr = (requests tr).map (answer httpCallback) := by
  have hanswered : ∀ req response, .httpCallback req response ∈ tr →
      response = answer httpCallback req := by
    intro req response hmem
    obtain ⟨message, hmessage, rfl⟩ := answered_of_exec hreading hexec hmem
    rw [hcallback message hmessage]
  clear hexec
  unfold responses
  induction tr with
  | nil => rfl
  | cons e tr ih =>
    have hrest := ih fun req response hmem => hanswered req response (List.mem_cons_of_mem e hmem)
    cases e with
    | httpCallback req response =>
      have hfirst := hanswered req response List.mem_cons_self
      show response :: (outcomes tr).filterMap id =
        answer httpCallback (req.setReceiveTime 0) :: (requests tr).map (answer httpCallback)
      rw [hrest, htime.answer_eq, ← hfirst]
    | parseRequest state ok => cases ok <;> exact hrest
    | sendInloop message | shutdownInloop => exact hrest

/-- A stream of well-formed requests meets no failure. -/
theorem Progress.notMem_none (h : Progress read rest received tr conn)
    (hsequenced : Sequenced tr conn) (hrest : ∀ text ∈ rest, text.WellFormed)
    (hbegins : received <+: stream rest) : none ∉ outcomes tr := by
  intro hmem
  -- the refused line would still stand in the buffer
  have hrefused := (hsequenced.stuck hmem).reading_eq ⟨[], 0, fun _ resp => resp⟩
  have hreading := h.reading_eq ⟨[], 0, fun _ resp => resp⟩
  rw [List.append_nil] at hreading
  have houtcome : (HttpContext.readLines 0 .new received).1 = .refused := by
    rw [hreading]
    exact hrefused
  rcases HttpContext.readLines_stream hrest hbegins with
    ⟨_, hwaiting⟩ | ⟨text, rest', received', rfl, _, _, hfinished⟩
  · rw [hwaiting] at houtcome
    cases houtcome
  · rw [hfinished] at houtcome
    cases houtcome

/-- What a part of a stream has led to: nothing was refused, and there are no more outcomes
    than requests in the part. -/
theorem outcomes_of_part (htexts : ∀ text ∈ texts, text.WellFormed)
    (hbegins : bytes messages <+: stream texts)
    (hexec : machine.exec fresh messages = .ok (conn, tr)) (hsequenced : Sequenced tr conn) :
    none ∉ outcomes tr ∧ (outcomes tr).length ≤ complete texts (bytes messages).length := by
  obtain ⟨read, rest, received, tr', conn', hsplit, hbytes, hreceived, hexec', hprogress, _⟩ :=
    progress_run htexts messages hbegins
  obtain ⟨rfl, rfl⟩ := Machine.exec_unique hexec hexec'
  have hrest : ∀ text ∈ rest, text.WellFormed :=
    fun text htext => htexts text (hsplit ▸ List.mem_append_right read htext)
  have hnone := hprogress.notMem_none hsequenced hrest hreceived
  refine ⟨hnone, ?_⟩
  rw [outcomes_of_notMem hnone, List.length_map, length_responses, hprogress.requests,
    List.length_map, hbytes, hsplit, List.length_append, complete_append]
  omega

end HttpConnection

namespace Session

open TcpConnection SessionEvent HttpServer HttpEvent RequestText

variable {s s' : Session HttpContext} {tr es : List (SessionEvent HttpInput HttpCall)}
  {texts : List RequestText} {httpCallback : HttpCallback}

/-- A client that reads up to the FIN recovers the responses, the last of which the FIN
    delimits. -/
theorem client_reads (h : (machine application).Reach anyStep tr s)
    (hreadable : ∀ resp, some resp ∈ outcomes (conversation tr) → Message.Readable resp)
    {before after : List (SessionEvent HttpInput HttpCall)}
    (hsplit : tr = before ++ farewell :: after) :
    Message.readConnection (wire before) = some (Message.due (outcomes (conversation tr))) := by
  obtain ⟨http, hserves⟩ := reach_serves h
  rw [(hserves.split hsplit).1]
  exact Message.readConnection_expected hreadable

/-- The run of the old request up to its FIN: the answer says that nothing was found. -/
theorem client_reads_old : ∃ before after s,
    (machine application).Reach anyStep (before ++ farewell :: after) s ∧
    Message.readConnection (wire before) =
      some (Message.due (outcomes (conversation (before ++ farewell :: after)))) := by
  obtain ⟨tr, s, hreach, hmem, houtcomes⟩ := exists_old_farewell
  obtain ⟨before, after, rfl⟩ := List.append_of_mem hmem
  refine ⟨before, after, s, hreach, client_reads hreach ?_ rfl⟩
  intro resp hresp
  rw [houtcomes, List.mem_singleton, Option.some.injEq] at hresp
  subst hresp
  exact .inr ⟨rfl, by decide, fun name value hentry => by
    simp [defaultHttpCallback, HttpResponse.new, HttpResponse.setStatusCode,
      HttpResponse.setStatusMessage, HttpResponse.setCloseConnection] at hentry⟩

/-- The peer sends bytes that complete more than one request beyond those that were answered. -/
def Hasty (texts : List RequestText) (before : List (SessionEvent HttpInput HttpCall)) :
    SessionEvent HttpInput HttpCall → Prop
  | .received data =>
    (sentMessages before).length + 1 < complete texts (arrived before ++ data).length
  | _ => False

instance (texts : List RequestText) (before : List (SessionEvent HttpInput HttpCall))
    (e : SessionEvent HttpInput HttpCall) : Decidable (Hasty texts before e) := by
  cases e <;> unfold Hasty <;> infer_instance

/-- The peer waits for the answer to a request before it completes the next one. -/
def Patient (texts : List RequestText) (tr : List (SessionEvent HttpInput HttpCall)) : Prop :=
  ¬ Passed (Hasty texts) tr

instance (texts : List RequestText) (tr : List (SessionEvent HttpInput HttpCall)) :
    Decidable (Patient texts tr) :=
  inferInstanceAs (Decidable (¬ _))

/-- Every message callback finds the same callback of the user. -/
def callsBack (httpCallback : HttpCallback) :
    StepCondition (Session HttpContext) (SessionAction HttpInput)
      (SessionEvent HttpInput HttpCall) :=
  fun _ _ a =>
    match a with
    | .handle _ input _ => input.2 = httpCallback
    | _ => True

/-- What holds while a patient peer sends its requests. -/
structure Lockstep (texts : List RequestText) (tr : List (SessionEvent HttpInput HttpCall)) :
    Prop where
  one : ¬ HttpConnection.CompletesMany texts (messages tr)
  ahead : complete texts (arrived tr).length ≤ (sentMessages tr).length + 1

theorem Lockstep.quiet (h : Lockstep texts tr) (hmessages : messages es = [])
    (harrived : arrived es = []) : Lockstep texts (tr ++ es) where
  one := by
    rw [messages_append, hmessages, List.append_nil]
    exact h.one
  ahead := by
    rw [arrived_append, harrived, List.append_nil, sentMessages_append, List.length_append]
    exact h.ahead.trans (by omega)

/-- A message callback completes one request at most: there are no more outcomes than requests
    that came in before, and all but one of those that have come are answered. -/
theorem Lockstep.offers (h : Lockstep texts tr) {http : HttpConnection} (hserves : Serves tr s http)
    (hserves' : ∃ http', Serves (tr ++ es) s' http')
    (htexts : ∀ text ∈ texts, text.WellFormed) (hbegins : arrived (tr ++ es) <+: stream texts)
    {message : HttpMessage} (hmessages : messages es = [message]) (harrived : arrived es = []) :
    Lockstep texts (tr ++ es) where
  one := by
    obtain ⟨http', hserves'⟩ := hserves'
    have hinbound := hserves.conserved.inbound
    have hinbound' := hserves'.conserved.inbound
    rw [← bytes_messages] at hinbound hinbound'
    rw [messages_append, hmessages] at hinbound' ⊢
    rw [arrived_append, harrived, List.append_nil] at hinbound' hbegins
    have hbefore : HttpConnection.bytes (messages tr) <+: stream texts :=
      (hinbound ▸ List.prefix_append _ _ : _ <+: arrived tr).trans hbegins
    obtain ⟨_, hanswered⟩ :=
      HttpConnection.outcomes_of_part htexts hbefore hserves.run hserves.sequenced
    have hall : complete texts
        (HttpConnection.bytes (messages tr ++ [message])).length ≤
          complete texts (arrived tr).length := by
      refine complete_mono texts ?_
      rw [← hinbound', List.length_append]
      omega
    have hsent : (sentMessages tr).length ≤ (outcomes (conversation tr)).length := by
      rw [← sent_conversation, hserves.sequenced.sent]
      exact length_expected_le _
    have hahead := h.ahead
    rw [HttpConnection.completesMany_concat, not_or]
    exact ⟨h.one, by omega⟩
  ahead := by
    rw [arrived_append, harrived, List.append_nil, sentMessages_append, List.length_append]
    exact h.ahead.trans (by omega)

theorem reach_lockstep (htexts : ∀ text ∈ texts, text.WellFormed)
    (h : (machine application).Reach anyStep tr s) :
    Patient texts tr → arrived tr <+: stream texts → Lockstep texts tr := by
  refine h.invariant
    (I := fun tr _ => Patient texts tr → arrived tr <+: stream texts → Lockstep texts tr) ?_ ?_
  · rintro s _ _ _
    refine ⟨passed_nil, ?_⟩
    rw [show arrived ([] : List (SessionEvent HttpInput HttpCall)) = [] from rfl, List.length_nil,
      complete_zero]
    exact Nat.zero_le _
  · intro tr s a s' es hreach ih _ hgo hpatient hbegins
    rw [Patient, passed_append_iff, not_or] at hpatient
    obtain ⟨hpatient', hnew'⟩ := hpatient
    have hlockstep := ih hpatient'
      ((arrived_append tr es ▸ List.prefix_append _ _ : _ <+: arrived (tr ++ es)).trans hbegins)
    obtain ⟨http, hserves⟩ := reach_serves hreach
    have hserves' := reach_serves (hreach.step trivial hgo)
    cases step_cases hgo with
    | @receive data hopen =>
      refine ⟨?_, ?_⟩
      · rw [messages_append]
        exact (List.append_nil (messages tr)).symm ▸ hlockstep.one
      · have hnew : arrived [(.received data : SessionEvent HttpInput HttpCall)] = data :=
          List.append_nil data
        have hnone : sentMessages [(.received data : SessionEvent HttpInput HttpCall)] = [] := rfl
        rw [arrived_append, hnew, sentMessages_append, hnone, List.append_nil]
        rw [passed_cons_iff, not_or, List.append_nil] at hnew'
        exact Nat.le_of_not_lt hnew'.1
    | receiveFin => exact hlockstep.quiet rfl rfl
    | established hstate => exact hlockstep.quiet rfl rfl
    | poll hsome =>
      rw [List.append_nil]
      exact hlockstep
    | @offers rest data input buf buf' kept script writes conn es hhandlers hprefix hdata hinput
        happ hfollow =>
      obtain ⟨_, _, hmessages, _⟩ := hserves.offers hhandlers hinput happ hfollow
      have hone : messages (.offered data input :: es) = [⟨data, input.1, input.2⟩] := by
        rw [← List.singleton_append, messages_append, hmessages]
        rfl
      have harrived : arrived (.offered data input :: es) = [] :=
        (follow_followed hfollow).arrived
      exact hlockstep.offers hserves hserves' htexts hbegins hone harrived
    | @handler handler rest io conn effects hhandlers hrun hinput =>
      exact hlockstep.quiet (messages_effects _) (quiet_effects _).2.1
    | destroyed hclosing hhandlers hstate => exact hlockstep.quiet rfl rfl

/-- A message that a step leads to has the callback of that step. -/
theorem callback_of_step {a : SessionAction HttpInput} (hcallback : callsBack httpCallback tr s a)
    (hgo : s.step application a = .ok (s', es)) :
    ∀ message ∈ messages es, message.httpCallback = httpCallback := by
  cases a with
  | receive data | receiveFin | poll revent =>
    simp only [Session.step, bind_eq_ok_iff, pure_eq_ok_iff, Prod.mk.injEq] at hgo
    obtain ⟨_, _, _, rfl⟩ := hgo
    simp [messages, message?]
  | connectEestablished | connectDestory =>
    simp only [Session.step, bind_eq_ok_iff, pure_eq_ok_iff, Prod.mk.injEq] at hgo
    obtain ⟨_, _, ⟨_, effects⟩, _, _, rfl⟩ := hgo
    simp
  | handle io input writes =>
    have hinput : input.2 = httpCallback := hcallback
    simp only [Session.step] at hgo
    split at hgo
    · cases hgo
    · simp only [bind_eq_ok_iff] at hgo
      obtain ⟨_, _, ⟨conn, effects⟩, _, hgo⟩ := hgo
      split at hgo
      · simp only [onMessage] at hgo
        split at hgo
        · cases hgo
        · simp only [bind_eq_ok_iff, pure_eq_ok_iff, Prod.mk.injEq] at hgo
          obtain ⟨⟨conn', es'⟩, hfollow, _, rfl⟩ := hgo
          have hnone : messages es' = [] := by
            rw [messages, ← filterMap_voice (fun _ => rfl), (follow_spoken hfollow).1]
            exact messages_spoken _ _
          have hone : messages (.offered io.read.taken input :: es') =
              [⟨io.read.taken, input.1, input.2⟩] := by
            rw [← List.singleton_append, messages_append, hnone]
            rfl
          intro message hmem
          rw [hone, List.mem_singleton] at hmem
          rw [hmem]
          exact hinput
      · rw [pure_eq_ok_iff, Prod.mk.injEq] at hgo
        rw [← hgo.2, messages_effects]
        simp

theorem reach_callback (h : (machine application).Reach (callsBack httpCallback) tr s) :
    ∀ message ∈ messages tr, message.httpCallback = httpCallback := by
  refine h.invariant
    (I := fun tr _ => ∀ message ∈ messages tr, message.httpCallback = httpCallback) ?_ ?_
  · intro s _ message hmem
    cases hmem
  · intro tr s a s' es _ ih hcallback hgo message hmem
    rw [messages_append, List.mem_append] at hmem
    exact hmem.elim (ih message) (callback_of_step hcallback hgo message)

/-- A patient client that leaves the connection open reads the callback's answers to its
    requests, in order and complete, when all bytes have been read and written. -/
theorem exchange (htexts : ∀ text ∈ texts, text.KeepAlive)
    (htime : HttpConnection.Timeless httpCallback)
    (hdelimits : ∀ text ∈ texts, Message.SelfDelimiting
      (HttpConnection.answer httpCallback (text.request 0)))
    (h : (machine application).Reach (callsBack httpCallback) tr s) (hpatient : Patient texts tr)
    (harrived : arrived tr = stream texts) (hread : s.unread = [])
    (hwritten : s.conn.outputBuffer_.contents = []) :
    Message.readStream (wire tr) = some (texts.map fun text =>
      Message.ofResponse (HttpConnection.answer httpCallback (text.request 0))) := by
  obtain ⟨http, hserves⟩ := reach_serves h.any
  have hcallback := reach_callback h
  have hwellFormed : ∀ text ∈ texts, text.WellFormed :=
    fun text htext => (htexts text htext).wellFormed
  have hlockstep := reach_lockstep hwellFormed h.any hpatient (harrived ▸ List.prefix_rfl)
  have hbytes : HttpConnection.bytes (messages tr) = stream texts := by
    have hinbound := hserves.conserved.inbound
    rw [hread, List.append_nil] at hinbound
    rw [bytes_messages, hinbound, harrived]
  -- every request was handed to the callback
  obtain ⟨conn, tr', hexec, hiff, hall⟩ := HttpConnection.requests_of_run htexts hbytes
  obtain ⟨rfl, rfl⟩ := Machine.exec_unique hserves.run hexec
  have hrequests := hall (mt hiff.mp hlockstep.one)
  -- every response is sent
  have hnone := (HttpConnection.outcomes_of_part hwellFormed (hbytes ▸ List.prefix_rfl)
    hserves.run hserves.sequenced).1
  have hresponses : responses (conversation tr) = texts.map fun text =>
      HttpConnection.answer httpCallback (text.request 0) := by
    rw [HttpConnection.responses_of_exec htime hcallback HttpContext.reading_new hserves.run,
      hrequests, List.map_map]
    rfl
  have houtcomes := outcomes_of_notMem hnone
  have hopen : (outcomes (conversation tr)).any ends = false := by
    rw [houtcomes, hresponses, List.any_eq_false]
    intro outcome hmem
    obtain ⟨response, hresponse, rfl⟩ := List.mem_map.mp hmem
    obtain ⟨text, htext, rfl⟩ := List.mem_map.mp hresponse
    rw [ends, (hdelimits text htext).keepAlive]
    exact Bool.false_ne_true
  have hwire := hserves.wire_eq
  rw [hwritten, List.append_nil, expected_of_not_ends hopen, ← responses, hresponses,
    ← List.flatMap_def] at hwire
  rw [hwire, Message.readStream_responses, List.map_map]
  · rfl
  · intro response hresponse
    obtain ⟨text, htext, rfl⟩ := List.mem_map.mp hresponse
    exact hdelimits text htext

/-- The user's callback of the run below. -/
def found : HttpCallback := fun _ resp => resp.setStatusCode .k200OK

/-- Two requests, the second behind the answer to the first, with a short write in between. -/
theorem exchange_two : ∃ tr s, (machine application).Reach (callsBack found) tr s ∧
    Message.readStream (wire tr) = some ([HttpConnection.rootRequest,
      HttpConnection.rootRequest].map fun text =>
        Message.ofResponse (HttpConnection.answer found (text.request 0))) := by
  have htexts : ∀ text ∈ [HttpConnection.rootRequest, HttpConnection.rootRequest],
      text = HttpConnection.rootRequest := by
    simp
  have hruns : (machine application).runs (new application 0 [] 5)
      [.connectEestablished, .receive HttpConnection.rootRequest.render, .poll POLLIN,
        .handle ⟨.delivered HttpConnection.rootRequest.render, .failed 0⟩ (7, found)
          (fun _ => .accepted 10),
        .poll POLLOUT, .handle ⟨.failed 0, .accepted 99⟩ (7, found) (fun _ => .failed 0),
        .receive HttpConnection.rootRequest.render, .poll POLLIN,
        .handle ⟨.delivered HttpConnection.rootRequest.render, .failed 0⟩ (8, found)
          (fun _ => .accepted 99)]
      (fun tr s => Patient [HttpConnection.rootRequest, HttpConnection.rootRequest] tr ∧
        arrived tr = stream [HttpConnection.rootRequest, HttpConnection.rootRequest] ∧
        s.unread = [] ∧ s.conn.outputBuffer_.contents = []) = true := by
    decide +kernel
  obtain ⟨tr, s, hreach, htest⟩ := Machine.exists_reach_of (M := machine application)
    (C := callsBack found) ⟨0, [], 5, rfl⟩ (by simp [callsBack]) hruns
  obtain ⟨hpatient, harrived, hread, hwritten⟩ := of_decide_eq_true htest
  refine ⟨tr, s, hreach, exchange ?_ (fun _ _ => rfl) ?_ hreach hpatient harrived hread hwritten⟩
  · intro text htext
    rw [htexts text htext]
    exact HttpConnection.keepAlive_root
  · intro text htext
    rw [htexts text htext]
    exact ⟨by decide +kernel, by decide, fun name value hentry => by
      simp [HttpConnection.answer, found, HttpResponse.new, HttpResponse.setStatusCode] at hentry,
      by decide⟩

end Session

end TcpNet
