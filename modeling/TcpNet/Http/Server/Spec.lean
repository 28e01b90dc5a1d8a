import TcpNet.Http.Server
import TcpNet.Http.Context.Lines

open LineReader Transition

namespace TcpNet

namespace HttpConnection

/-- The state behind a call of `shutdown`. -/
def shut (state : StateE) : StateE := if state = .kConnected then .kDisconnecting else state

/-- What goes out only while the connection is connected. -/
def gated (state : StateE) (es : List HttpEvent) : List HttpEvent :=
  if state = .kConnected then es else []

@[simp] theorem gated_connected (es : List HttpEvent) : gated .kConnected es = es := rfl

@[simp] theorem gated_disconnecting (es : List HttpEvent) : gated .kDisconnecting es = [] := rfl

theorem gated_append (state : StateE) (es es' : List HttpEvent) :
    gated state (es ++ es') = gated state es ++ gated state es' := by
  unfold gated
  split
  · rfl
  · rfl

theorem send_eq (conn : HttpConnection) (message : Bytes) :
    conn.send message = gated conn.state_ [.sendInloop message] := rfl

theorem shutdown_eq (conn : HttpConnection) :
    conn.shutdown = ({ conn with state_ := shut conn.state_ },
      gated conn.state_ [.shutdownInloop]) := by
  unfold shutdown shut gated
  split <;> rfl

/-- The response to a request, as the callback leaves it. -/
def response (message : HttpMessage) (req : HttpRequest) : HttpResponse :=
  message.httpCallback req (.new (wantsClose req))

/-- What a message makes the parser read. -/
def reading (conn : HttpConnection) (message : HttpMessage) : Outcome × HttpContext × Bytes :=
  HttpContext.readLines message.receiveTime conn.context_
    (conn.inputBuffer_.contents ++ message.data)

/-- All that a message can lead to: more is needed, the request line is refused, or
    the request is answered, with a response that closes the connection or not. -/
inductive Step (conn : HttpConnection) (message : HttpMessage) :
    List HttpEvent → HttpConnection → Prop
  | waits {context : HttpContext} {buf : WfBuffer}
      (hread : conn.reading message = (.waiting, context, buf.contents)) :
      Step conn message [.parseRequest conn.context_.state_ true] ⟨conn.state_, buf, context⟩
  | refuses {context : HttpContext} {buf : WfBuffer}
      (hread : conn.reading message = (.refused, context, buf.contents)) :
      Step conn message
        (.parseRequest conn.context_.state_ false ::
          gated conn.state_ [.sendInloop kBadRequest, .shutdownInloop])
        ⟨shut conn.state_, buf, context⟩
  | answers {context : HttpContext} {buf : WfBuffer}
      (hread : conn.reading message = (.finished, context, buf.contents))
      (hclose : (response message context.request_).closeConnection = false) :
      Step conn message
        (.parseRequest conn.context_.state_ true ::
          .httpCallback context.request_ (response message context.request_) ::
          gated conn.state_ [.sendInloop (response message context.request_).serialise])
        ⟨conn.state_, buf, .new⟩
  | closes {context : HttpContext} {buf : WfBuffer}
      (hread : conn.reading message = (.finished, context, buf.contents))
      (hclose : (response message context.request_).closeConnection = true) :
      Step conn message
        (.parseRequest conn.context_.state_ true ::
          .httpCallback context.request_ (response message context.request_) ::
          gated conn.state_ [.sendInloop (response message context.request_).serialise,
            .shutdownInloop])
        ⟨shut conn.state_, buf, .new⟩

/-- While the parser reads lines, `onMessage` returns. -/
theorem step_spec {conn : HttpConnection} (hreading : conn.context_.Reading)
    (message : HttpMessage) :
    ∃ es conn', conn.step message = .ok (conn', es) ∧ Step conn message es conn' := by
  obtain ⟨outcome, context, buf, hread, hparse⟩ := HttpContext.parseRequest_spec hreading
    (conn.receive message.data).inputBuffer_ message.receiveTime
  rw [receive, WfBuffer.contents_append] at hread
  have hstate := HttpContext.readLines_state hreading message.receiveTime
    (conn.inputBuffer_.contents ++ message.data)
  rw [hread] at hstate
  have hparse' : (conn.receive message.data).context_.parseRequest
      (conn.receive message.data).inputBuffer_ message.receiveTime =
      some (outcome.ok, context, buf) := hparse
  cases outcome with
  | waiting =>
    have hmore := HttpContext.not_gotAll_of_reading (hstate.2 nofun)
    refine ⟨_, _, ?_, .waits hread⟩
    rw [step, onMessage, hparse']
    simp only [Option.bind_eq_bind, Option.bind_some, Outcome.ok, ne_eq, reduceCtorEq,
      not_false_iff, decide_true, if_true, hmore, Bool.false_eq_true, if_false, Option.pure_def,
      receive]
  | refused =>
    have hmore := HttpContext.not_gotAll_of_reading (hstate.2 nofun)
    refine ⟨_, _, ?_, .refuses hread⟩
    rw [step, onMessage, hparse']
    simp only [Option.bind_eq_bind, Option.bind_some, Outcome.ok, ne_eq, not_true, decide_false,
      Bool.false_eq_true, if_false, hmore, Option.pure_def, receive, shutdown_eq, send_eq,
      ← gated_append, List.singleton_append]
  | finished =>
    have hall := hstate.1.mp rfl
    have hgo : conn.step message = .ok
        ({ (onRequest ⟨conn.state_, buf, context⟩ context.request_ message.httpCallback).1 with
            context_ := .new },
          .parseRequest conn.context_.state_ true ::
            (onRequest ⟨conn.state_, buf, context⟩ context.request_ message.httpCallback).2) := by
      rw [step, onMessage, hparse']
      simp only [Option.bind_eq_bind, Option.bind_some, Outcome.ok, ne_eq, reduceCtorEq,
        not_false_iff, decide_true, if_true, hall, Option.pure_def, receive, List.nil_append]
      rfl
    by_cases hclose : (response message context.request_).closeConnection = true
    · refine ⟨_, _, hgo.trans ?_, .closes hread hclose⟩
      rw [response] at hclose
      simp only [onRequest, hclose, if_true, shutdown_eq, send_eq, response,
        HttpResponse.serialise, ← gated_append, List.singleton_append]
    · rw [Bool.not_eq_true] at hclose
      refine ⟨_, _, hgo.trans ?_, .answers hread hclose⟩
      rw [response] at hclose
      simp only [onRequest, hclose, Bool.false_eq_true, if_false, send_eq, response,
        HttpResponse.serialise]

theorem step_of_ok {conn conn' : HttpConnection} {message : HttpMessage} {es : List HttpEvent}
    (hreading : conn.context_.Reading)
    (h : machine.step conn message = .ok (conn', es)) : Step conn message es conn' := by
  obtain ⟨es', conn'', hgo, hcases⟩ := step_spec hreading message
  rw [show machine.step conn message = _ from hgo, Except.ok.injEq, Prod.mk.injEq] at h
  obtain ⟨rfl, rfl⟩ := h
  exact hcases

/-- The parser goes on reading lines. -/
theorem reading_of_step {conn conn' : HttpConnection} {message : HttpMessage}
    {es : List HttpEvent} (hreading : conn.context_.Reading) (h : Step conn message es conn') :
    conn'.context_.Reading := by
  have hstate := HttpContext.readLines_state hreading message.receiveTime
    (conn.inputBuffer_.contents ++ message.data)
  rw [← reading] at hstate
  cases h with
  | waits hread =>
    rw [hread] at hstate
    exact hstate.2 nofun
  | refuses hread =>
    rw [hread] at hstate
    exact hstate.2 nofun
  | answers => exact HttpContext.reading_new
  | closes => exact HttpContext.reading_new

end HttpConnection

end TcpNet
