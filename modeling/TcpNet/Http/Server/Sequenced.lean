import TcpNet.Http.Server.Spec
import TcpNet.Library.Trace

open LineReader Trace Transition

namespace TcpNet

namespace HttpContext

theorem processVersion_ok (request request' : HttpRequest) (version : Bytes) :
    (processVersion request version).1 = (processVersion request' version).1 := by
  unfold processVersion
  split
  · split
    · rfl
    · split <;> rfl
  · rfl

/-- Whether a request line is refused depends on the line alone, not on what the
    parser has seen before. -/
theorem processRequestLine_ok (request request' : HttpRequest) (line : Bytes) :
    (processRequestLine request line).1 = (processRequestLine request' line).1 := by
  have hknown : (request.setMethod (line.take (line.idxOf 32))).1 =
      (request'.setMethod (line.take (line.idxOf 32))).1 := rfl
  by_cases hspace : line.idxOf 32 ≠ line.length
  · simp only [processRequestLine, if_pos hspace]
    cases hmethod : (request'.setMethod (line.take (line.idxOf 32))).1
    · rw [hmethod] at hknown
      simp only [hknown, Bool.false_eq_true, if_false]
    · rw [hmethod] at hknown
      simp only [hknown, if_true]
      exact processVersion_ok _ _ _
  · simp only [processRequestLine, if_neg hspace]

theorem refused_line {context context' : HttpContext} {receiveTime : Int} {line : Bytes}
    (h : handleLine receiveTime context line = .refuse context') :
    context'.state_ = .kExpectRequestLine ∧
      ∀ request, (processRequestLine request line).1 = false := by
  cases hstate : context.state_ with
  | kExpectRequestLine =>
    cases hok : (processRequestLine context.request_ line).1 with
    | true => simp [handleLine, hstate, hok] at h
    | false =>
      simp only [handleLine, hstate, hok, Bool.false_eq_true, if_false, Verdict.refuse.injEq] at h
      refine ⟨h ▸ rfl, fun request => ?_⟩
      rw [processRequestLine_ok request context.request_, hok]
  | kExpectRequestHead =>
    simp only [handleLine, hstate] at h
    split at h <;> cases h
  | kExpectRequestBody => simp [handleLine, hstate] at h
  | kGotAll => simp [handleLine, hstate] at h

end HttpContext

namespace HttpEvent

/-- How an attempt to parse ended: with a response, or with a failure. -/
def outcome : HttpEvent → Option (Option HttpResponse)
  | .parseRequest _ false => some none
  | .httpCallback _ response => some (some response)
  | _ => none

/-- A request that is handed to the callback, with the response. -/
def call? : HttpEvent → Option (HttpRequest × HttpResponse)
  | .httpCallback req response => some (req, response)
  | _ => none

def sent? : HttpEvent → Option Bytes
  | .sendInloop message => some message
  | _ => none

/-- The responses and failures of a run, in order. -/
def outcomes (tr : List HttpEvent) : List (Option HttpResponse) := tr.filterMap outcome

/-- The calls of the callback, in order. -/
def calls (tr : List HttpEvent) : List (HttpRequest × HttpResponse) := tr.filterMap call?

/-- The messages handed to `sendInloop`, in order. -/
def sent (tr : List HttpEvent) : List Bytes := tr.filterMap sent?

def IsCallback : HttpEvent → Prop
  | .httpCallback _ _ => True
  | _ => False

instance : DecidablePred IsCallback := fun e =>
  match e with
  | .httpCallback _ _ => .isTrue trivial
  | .parseRequest _ _ | .sendInloop _ | .shutdownInloop => .isFalse id

/-- What a client should be sent: a response for each request up to the first
    that closes the connection, or up to a failure, which is answered once. -/
def expected : List (Option HttpResponse) → List Bytes
  | [] => []
  | none :: _ => [HttpConnection.kBadRequest]
  | some response :: rest =>
    response.serialise :: if response.closeConnection then [] else expected rest

/-- Whether something ends the conversation. -/
def ends : Option HttpResponse → Bool
  | none => true
  | some response => response.closeConnection

theorem expected_append (outcomes outcomes' : List (Option HttpResponse)) :
    expected (outcomes ++ outcomes') =
      expected outcomes ++ if outcomes.any ends then [] else expected outcomes' := by
  induction outcomes with
  | nil => rfl
  | cons outcome outcomes ih =>
    cases outcome with
    | none => rfl
    | some response =>
      rw [List.cons_append, expected, expected, List.any_cons, ends]
      cases hclose : response.closeConnection
      · simp only [Bool.false_eq_true, if_false, Bool.false_or, List.cons_append, ih]
      · simp only [if_true, Bool.true_or, List.append_nil]

theorem outcomes_append (tr es : List HttpEvent) :
    outcomes (tr ++ es) = outcomes tr ++ outcomes es := List.filterMap_append

theorem calls_append (tr es : List HttpEvent) : calls (tr ++ es) = calls tr ++ calls es :=
  List.filterMap_append

theorem sent_append (tr es : List HttpEvent) : sent (tr ++ es) = sent tr ++ sent es :=
  List.filterMap_append

/-- No request is handed to the callback behind a failure. -/
def QuietAfterFailure (tr : List HttpEvent) : Prop :=
  Guarded IsCallback (fun before => none ∉ outcomes before) tr

theorem quiet_of_notMem {tr : List HttpEvent} (h : none ∉ outcomes tr) : QuietAfterFailure tr := by
  intro before e after hsplit _ hmem
  rw [hsplit, outcomes_append, List.mem_append, not_or] at h
  exact h.1 hmem

end HttpEvent

namespace HttpConnection

open HttpEvent

/-- A line that can only be refused stands at the front of the buffer. -/
def Stuck (conn : HttpConnection) : Prop :=
  conn.context_.state_ = .kExpectRequestLine ∧
    ∃ line rest, Search.cut Buffer.kCRLF conn.inputBuffer_.contents = some (line, rest) ∧
      ∀ request, (HttpContext.processRequestLine request line).1 = false

/-- A refused line stays where it is, whatever comes in behind it. -/
theorem Stuck.reading_eq {conn : HttpConnection} (h : Stuck conn) (message : HttpMessage) :
    (conn.reading message).1 = .refused := by
  obtain ⟨hstate, line, rest, hcut, hrefused⟩ := h
  rw [reading, HttpContext.readLines, read_of_some (Search.cut_append hcut message.data)]
  simp only [HttpContext.handleLine, hstate, hrefused, Bool.false_eq_true, if_false]

theorem stuck_of_refused {conn : HttpConnection} {message : HttpMessage} {context : HttpContext}
    {buf : WfBuffer} (h : conn.reading message = (.refused, context, buf.contents))
    (state : StateE) : Stuck ⟨state, buf, context⟩ := by
  obtain ⟨_, line, rest, hcut, hrefuse⟩ := read_of_refused h
  obtain ⟨hstate, hrefused⟩ := HttpContext.refused_line hrefuse
  exact ⟨hstate, line, rest, hcut, hrefused⟩

/-- What holds behind every run: the parser can go on, what was sent is what was
    due, the connection is connected as long as more is due, and a failure repeats. -/
structure Sequenced (tr : List HttpEvent) (conn : HttpConnection) : Prop where
  reading : conn.context_.Reading
  sent : sent tr = expected (outcomes tr)
  state : conn.state_ = if (outcomes tr).any ends then .kDisconnecting else .kConnected
  stuck : none ∈ outcomes tr → Stuck conn
  quiet : QuietAfterFailure tr
  parsed : ∀ ok, .parseRequest .kGotAll ok ∉ tr

theorem sequenced_fresh : Sequenced [] fresh where
  reading := HttpContext.reading_new
  sent := rfl
  state := rfl
  stuck := nofun
  quiet := guarded_nil
  parsed := nofun

variable {tr es : List HttpEvent} {conn conn' : HttpConnection} {message : HttpMessage}

theorem Sequenced.gated_eq (h : Sequenced tr conn) (es : List HttpEvent) :
    gated conn.state_ es = if (outcomes tr).any ends then [] else es := by
  rw [h.state]
  cases (outcomes tr).any ends <;> rfl

theorem Sequenced.shut_eq (h : Sequenced tr conn) : shut conn.state_ = .kDisconnecting := by
  rw [h.state]
  cases (outcomes tr).any ends <;> rfl

theorem Sequenced.notMem_of_finished (h : Sequenced tr conn)
    (hfinished : (conn.reading message).1 = .finished) : none ∉ outcomes tr := by
  intro hmem
  rw [(h.stuck hmem).reading_eq] at hfinished
  cases hfinished

theorem not_gotAll_of_reading (h : conn.context_.Reading) : conn.context_.state_ ≠ .kGotAll := by
  intro hstate
  rcases h with hreading | hreading
  · rw [hstate] at hreading
    cases hreading
  · rw [hstate] at hreading
    cases hreading

/-- Events that bring what is due keep the conversation in sequence. -/
theorem Sequenced.extend (h : Sequenced tr conn) (hreading : conn'.context_.Reading)
    (hsent : HttpEvent.sent es =
      if (outcomes tr).any ends then [] else expected (outcomes es))
    (hstate : conn'.state_ =
      if (outcomes es).any ends then .kDisconnecting else conn.state_)
    (hstuck : none ∈ outcomes (tr ++ es) → Stuck conn') (hquiet : QuietAfterFailure (tr ++ es))
    (hparsed : ∀ state ok, .parseRequest state ok ∈ es → state = conn.context_.state_) :
    Sequenced (tr ++ es) conn' where
  reading := hreading
  sent := by rw [sent_append, outcomes_append, expected_append, hsent, h.sent]
  state := by
    rw [outcomes_append, List.any_append, hstate, h.state]
    cases (outcomes tr).any ends <;> cases (outcomes es).any ends <;> rfl
  stuck := hstuck
  quiet := hquiet
  parsed := by
    intro ok hmem
    rcases List.mem_append.mp hmem with hmem | hmem
    · exact h.parsed ok hmem
    · exact not_gotAll_of_reading h.reading (hparsed _ _ hmem).symm

/-- Behind an answer there has been no failure. -/
theorem Sequenced.extend_answered (h : Sequenced tr conn) (response : HttpResponse)
    (hreading : conn'.context_.Reading) (hfinished : (conn.reading message).1 = .finished)
    (hes : outcomes es = [some response])
    (hsent : HttpEvent.sent es =
      if (outcomes tr).any ends then [] else [response.serialise])
    (hstate : conn'.state_ = if response.closeConnection then .kDisconnecting else conn.state_)
    (hparsed : ∀ state ok, .parseRequest state ok ∈ es → state = conn.context_.state_) :
    Sequenced (tr ++ es) conn' := by
  have hnone : none ∉ outcomes (tr ++ es) := by
    rw [outcomes_append, hes, List.mem_append, not_or]
    exact ⟨h.notMem_of_finished hfinished, by simp⟩
  refine h.extend hreading ?_ ?_ (fun hmem => absurd hmem hnone) (quiet_of_notMem hnone) hparsed
  · rw [hsent, hes, expected, expected, ite_self]
  · rw [hstate, hes, List.any_cons, List.any_nil, Bool.or_false, ends]

/-- A message keeps the conversation in sequence. -/
theorem Sequenced.step (h : Sequenced tr conn) (hstep : Step conn message es conn') :
    Sequenced (tr ++ es) conn' := by
  have hreading := reading_of_step h.reading hstep
  cases hstep with
  | waits hread =>
    refine h.extend hreading ?_ rfl ?_ ?_ (by simp)
    · cases (outcomes tr).any ends <;> rfl
    · intro hmem
      rw [outcomes_append, List.mem_append] at hmem
      rcases hmem with hmem | hmem
      · have hrefused := (h.stuck hmem).reading_eq message
        rw [hread] at hrefused
        cases hrefused
      · cases hmem
    · exact (guarded_append_iff h.quiet).mpr (guarded_of_forall_not (by simp [IsCallback]))
  | refuses hread =>
    rw [h.gated_eq]
    refine h.extend hreading ?_ ?_ (fun _ => stuck_of_refused hread _) ?_ ?_
    · cases (outcomes tr).any ends <;> rfl
    · rw [h.shut_eq]
      cases (outcomes tr).any ends <;> rfl
    · refine (guarded_append_iff h.quiet).mpr (guarded_of_forall_not ?_)
      cases (outcomes tr).any ends <;> simp [IsCallback]
    · cases (outcomes tr).any ends <;> simp
  | @answers context _ hread hclose =>
    rw [h.gated_eq]
    refine h.extend_answered (response message context.request_) hreading
      (congrArg Prod.fst hread) ?_ ?_ ?_ ?_
    · cases (outcomes tr).any ends <;> rfl
    · cases (outcomes tr).any ends <;> rfl
    · rw [hclose]
      rfl
    · cases (outcomes tr).any ends <;> simp
  | @closes context _ hread hclose =>
    rw [h.gated_eq]
    refine h.extend_answered (response message context.request_) hreading
      (congrArg Prod.fst hread) ?_ ?_ ?_ ?_
    · cases (outcomes tr).any ends <;> rfl
    · cases (outcomes tr).any ends <;> rfl
    · rw [h.shut_eq, hclose]
      rfl
    · cases (outcomes tr).any ends <;> simp

/-- Every run keeps the conversation in sequence. -/
theorem reach_sequenced {C : StepCondition HttpConnection HttpMessage HttpEvent}
    (h : machine.Reach C tr conn) : Sequenced tr conn := by
  refine Machine.Reach.invariant ?_ ?_ h
  · rintro conn rfl
    exact sequenced_fresh
  · intro tr conn message conn' es _ hsequenced _ hstep
    exact hsequenced.step (step_of_ok hsequenced.reading hstep)

/-- What the parser makes of the messages alone, each read on from where the one before has left
    it: nothing yet, a line that is refused, or a request. The request stands with its message,
    and a new head is read behind it. -/
def parsed : HttpContext → Bytes → List HttpMessage → List (Option (HttpMessage × HttpRequest))
  | _, _, [] => []
  | context, unread, message :: rest =>
    match HttpContext.readLines message.receiveTime context (unread ++ message.data) with
    | (.waiting, context, unread) => parsed context unread rest
    | (.refused, context, unread) => none :: parsed context unread rest
    | (.finished, context, unread) =>
      some (message, context.request_) :: parsed .new unread rest

/-- The requests and failures that the messages to a new connection hold. -/
def parsedRequests (messages : List HttpMessage) : List (Option (HttpMessage × HttpRequest)) :=
  parsed .new [] messages

/-- What the callback makes of them. -/
def answers (parsed : List (Option (HttpMessage × HttpRequest))) : List (Option HttpResponse) :=
  parsed.map (Option.map fun (message, req) => response message req)

/-- The calls that hand them to the callback. -/
def callsFor (parsed : List (Option (HttpMessage × HttpRequest))) :
    List (HttpRequest × HttpResponse) :=
  parsed.filterMap (Option.map fun (message, req) => (req, response message req))

theorem calls_gated (state : StateE) {es : List HttpEvent} (h : calls es = []) :
    calls (gated state es) = [] := by
  unfold gated
  split
  · exact h
  · rfl

theorem outcomes_gated (state : StateE) {es : List HttpEvent} (h : outcomes es = []) :
    outcomes (gated state es) = [] := by
  unfold gated
  split
  · exact h
  · rfl

/-- A connection answers what the parser reads, by induction over the messages. -/
theorem exec_parsed (hreading : conn.context_.Reading) (messages : List HttpMessage) :
    ∃ conn' tr, machine.exec conn messages = .ok (conn', tr) ∧
      outcomes tr = answers (parsed conn.context_ conn.inputBuffer_.contents messages) ∧
      calls tr = callsFor (parsed conn.context_ conn.inputBuffer_.contents messages) := by
  induction messages generalizing conn with
  | nil => exact ⟨conn, [], rfl, rfl, rfl⟩
  | cons message rest ih =>
    obtain ⟨es, conn₁, hgo, hstep⟩ := step_spec hreading message
    obtain ⟨conn₂, tr, hexec, houtcomes, hcalls⟩ := ih (reading_of_step hreading hstep)
    refine ⟨conn₂, es ++ tr, Machine.exec_append (Machine.exec_singleton hgo) hexec, ?_⟩
    rw [outcomes_append, calls_append, houtcomes, hcalls, parsed, ← reading]
    cases hstep with
    | waits hread =>
      rw [hread]
      exact ⟨rfl, rfl⟩
    | @refuses context buf hread =>
      have hnone : outcomes (.parseRequest conn.context_.state_ false ::
          gated conn.state_ [.sendInloop kBadRequest, .shutdownInloop]) = [none] :=
        congrArg (none :: ·) (outcomes_gated conn.state_ rfl)
      have hsilent : calls (.parseRequest conn.context_.state_ false ::
          gated conn.state_ [.sendInloop kBadRequest, .shutdownInloop]) = [] :=
        calls_gated conn.state_ rfl
      rw [hread, hnone, hsilent]
      exact ⟨rfl, rfl⟩
    | @answers context buf hread hclose =>
      have hone : outcomes (.parseRequest conn.context_.state_ true ::
          .httpCallback context.request_ (response message context.request_) ::
          gated conn.state_ [.sendInloop (response message context.request_).serialise]) =
          [some (response message context.request_)] :=
        congrArg (_ :: ·) (outcomes_gated conn.state_ rfl)
      have hcall : calls (.parseRequest conn.context_.state_ true ::
          .httpCallback context.request_ (response message context.request_) ::
          gated conn.state_ [.sendInloop (response message context.request_).serialise]) =
          [(context.request_, response message context.request_)] :=
        congrArg (_ :: ·) (calls_gated conn.state_ rfl)
      rw [hread, hone, hcall]
      exact ⟨rfl, rfl⟩
    | @closes context buf hread hclose =>
      have hone : outcomes (.parseRequest conn.context_.state_ true ::
          .httpCallback context.request_ (response message context.request_) ::
          gated conn.state_ [.sendInloop (response message context.request_).serialise,
            .shutdownInloop]) = [some (response message context.request_)] :=
        congrArg (_ :: ·) (outcomes_gated conn.state_ rfl)
      have hcall : calls (.parseRequest conn.context_.state_ true ::
          .httpCallback context.request_ (response message context.request_) ::
          gated conn.state_ [.sendInloop (response message context.request_).serialise,
            .shutdownInloop]) = [(context.request_, response message context.request_)] :=
        congrArg (_ :: ·) (calls_gated conn.state_ rfl)
      rw [hread, hone, hcall]
      exact ⟨rfl, rfl⟩

/-- The responses on a connection are well sequenced. For any messages, every call of `onMessage`
    returns, as none comes to `parseRequest` with everything parsed; each request that the parser
    reads is handed to the callback, and none behind a failure; and `sendInloop` gets the
    responses of these requests up to the first that closes the connection, or up to a failure
    and its answer. -/
theorem responses_sequenced (messages : List HttpMessage) :
    ∃ conn tr, machine.exec fresh messages = .ok (conn, tr) ∧
      HttpEvent.sent tr = expected (answers (parsedRequests messages)) ∧
      calls tr = callsFor (parsedRequests messages) ∧
      QuietAfterFailure tr ∧
      ∀ ok, .parseRequest .kGotAll ok ∉ tr := by
  have hreading : fresh.context_.Reading := HttpContext.reading_new
  have hparsed : parsed fresh.context_ fresh.inputBuffer_.contents messages =
      parsedRequests messages := congrArg (parsed .new · messages) WfBuffer.contents_new
  obtain ⟨conn, tr, hexec, houtcomes, hcalls⟩ := exec_parsed hreading messages
  rw [hparsed] at houtcomes hcalls
  have hreach : machine.Reach anyStep ([] ++ tr) conn :=
    Machine.Reach.exec (fun _ _ _ _ => trivial) (.init rfl) hexec
  have hsequenced := reach_sequenced hreach
  exact ⟨conn, tr, hexec, hsequenced.sent.trans (congrArg expected houtcomes), hcalls,
    hsequenced.quiet, hsequenced.parsed⟩

/-- A request whose response leaves the connection open. -/
def newRequest : Bytes :=
  ascii ['G', 'E', 'T', ' ', '/', ' ', 'H', 'T', 'T', 'P', '/', '1', '.', '1'] ++ Buffer.kCRLF ++
    Buffer.kCRLF

/-- A request by HTTP/1.0, whose response closes the connection. -/
def oldRequest : Bytes :=
  ascii ['G', 'E', 'T', ' ', '/', ' ', 'H', 'T', 'T', 'P', '/', '1', '.', '0'] ++ Buffer.kCRLF ++
    Buffer.kCRLF

def newMessage : HttpMessage := ⟨newRequest, 6, fun _ resp => resp.setStatusCode .k200OK⟩

def oldMessage : HttpMessage := ⟨oldRequest, 7, defaultHttpCallback⟩

/-- A request line without a version. -/
def badLine : Bytes := ascii ['G', 'E', 'T', ' ', '/'] ++ Buffer.kCRLF

/-- A request that is answered, one in two pieces whose response closes the connection, and a
    bad line: two responses are sent. -/
theorem responses_sequenced_closing : ∃ messages conn tr,
    (answers (parsedRequests messages)).map (Option.map (·.closeConnection)) =
      [some false, some true, none] ∧
    (HttpEvent.sent tr).length = 2 ∧
    machine.exec fresh messages = .ok (conn, tr) ∧
    HttpEvent.sent tr = expected (answers (parsedRequests messages)) ∧
    calls tr = callsFor (parsedRequests messages) ∧
    QuietAfterFailure tr ∧
    ∀ ok, .parseRequest .kGotAll ok ∉ tr := by
  have hparsed : (answers (parsedRequests [newMessage,
      { oldMessage with data := oldRequest.take 9 }, { oldMessage with data := oldRequest.drop 9 },
      { oldMessage with data := badLine }])).map (Option.map (·.closeConnection)) =
        [some false, some true, none] ∧
      (expected (answers (parsedRequests [newMessage,
        { oldMessage with data := oldRequest.take 9 },
        { oldMessage with data := oldRequest.drop 9 },
        { oldMessage with data := badLine }]))).length = 2 := by
    decide +kernel
  obtain ⟨conn, tr, hexec, hsent, hrest⟩ := responses_sequenced [newMessage,
    { oldMessage with data := oldRequest.take 9 }, { oldMessage with data := oldRequest.drop 9 },
    { oldMessage with data := badLine }]
  exact ⟨_, conn, tr, hparsed.1, (congrArg List.length hsent).trans hparsed.2, hexec, hsent, hrest⟩

end HttpConnection

end TcpNet
