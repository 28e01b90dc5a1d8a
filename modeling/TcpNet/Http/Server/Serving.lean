import TcpNet.Application.Farewell
import TcpNet.Http.Server.Segmentation
import TcpNet.Http.Server.Sequenced

open Transition Trace

namespace TcpNet

/-- What the server does in its message callback besides calling the connection. -/
inductive HttpCall where
  | parseRequest (state : HttpRequestParseState) (ok : Bool)
  | httpCallback (req : HttpRequest) (response : HttpResponse)
  deriving DecidableEq

/-- The time at which bytes came, and what the user's callback would do this time. -/
abbrev HttpInput := Int × HttpCallback

namespace HttpServer

/-- What `onRequest` does with a request. -/
def onRequest (req : HttpRequest) (httpCallback : HttpCallback) : List (UserStep HttpCall) :=
  let response := httpCallback req (HttpResponse.new (HttpConnection.wantsClose req))
  let buf := response.appendTobuffer WfBuffer.new
  [.event (.httpCallback req response), .send buf.contents] ++
    if response.closeConnection then [.shutdown] else []

/-- The message callback of the server. Nothing where `parseRequest` never returns. -/
def onMessage (context : HttpContext) (buf : WfBuffer) (input : HttpInput) :
    Option (HttpContext × WfBuffer × List (UserStep HttpCall)) := do
  let (ok, context', buf) ← context.parseRequest buf input.1
  let parsed := [.event (.parseRequest context.state_ ok)]
  let refused := if ok then [] else [.send HttpConnection.kBadRequest, .shutdown]
  if context'.gotAll then
    return (context'.reset, buf, parsed ++ refused ++ onRequest context'.request_ input.2)
  else return (context', buf, parsed ++ refused)

def application : Application HttpContext HttpInput HttpCall where
  init := HttpContext.new
  onMessage := onMessage

/-- An event of a connection, as the server sees it. -/
def heard : SessionEvent HttpInput HttpCall → Option HttpEvent
  | .user (.parseRequest state ok) => some (.parseRequest state ok)
  | .user (.httpCallback req response) => some (.httpCallback req response)
  | .sent message => some (.sendInloop message)
  | .disconnecting => some .shutdownInloop
  | _ => none

def message? : SessionEvent HttpInput HttpCall → Option HttpMessage
  | .offered data input => some ⟨data, input.1, input.2⟩
  | _ => none

section Events

variable (tr es : List (SessionEvent HttpInput HttpCall))

/-- What the server does on a connection. -/
def conversation (tr : List (SessionEvent HttpInput HttpCall)) : List HttpEvent :=
  tr.filterMap heard

/-- The messages that the server was called for. -/
def messages (tr : List (SessionEvent HttpInput HttpCall)) : List HttpMessage :=
  tr.filterMap message?

@[simp] theorem conversation_append : conversation (tr ++ es) = conversation tr ++ conversation es :=
  List.filterMap_append

@[simp] theorem messages_append : messages (tr ++ es) = messages tr ++ messages es :=
  List.filterMap_append

@[simp] theorem conversation_effects (effects : List Effect) :
    conversation (effects.map .effect) = [] := by
  simp [conversation, heard]

@[simp] theorem messages_effects (effects : List Effect) : messages (effects.map .effect) = [] := by
  simp [messages, message?]

/-- What the server sent is what the connection accepted. -/
theorem sent_conversation : HttpEvent.sent (conversation tr) = Session.sentMessages tr := by
  rw [HttpEvent.sent, conversation, List.filterMap_filterMap, Session.sentMessages]
  congr 1
  funext e
  cases e with
  | user call => cases call <;> rfl
  | received _ | fin | offered _ _ | sent _ | disconnecting | effect _ => rfl

theorem bytes_messages : HttpConnection.bytes (messages tr) = Session.offeredBytes tr := by
  induction tr with
  | nil => rfl
  | cons e tr ih =>
    cases e with
    | offered data input =>
      show data ++ HttpConnection.bytes (messages tr) = data ++ Session.offeredBytes tr
      rw [ih]
    | received _ | fin | user _ | sent _ | disconnecting | effect _ => exact ih

end Events

/-- No response is empty. -/
theorem serialise_ne_nil (resp : HttpResponse) : resp.serialise ≠ [] := by
  simp only [HttpResponse.serialise, HttpResponse.appendTobuffer, WfBuffer.contents_append,
    HttpResponse.contents_appendHeaders]
  simp [Buffer.kCRLF_ne_nil]

/-- What the message callback makes of what it parsed. -/
theorem onMessage_eq (context : HttpContext) (buf : WfBuffer) (input : HttpInput) :
    onMessage context buf input =
      (context.parseRequest buf input.1).map fun (ok, context', buf') =>
        (if context'.gotAll then context'.reset else context', buf',
          .event (.parseRequest context.state_ ok) ::
            ((if ok then [] else [.send HttpConnection.kBadRequest, .shutdown]) ++
              if context'.gotAll then onRequest context'.request_ input.2 else [])) := by
  rw [onMessage]
  cases context.parseRequest buf input.1 with
  | none => rfl
  | some parsed =>
    obtain ⟨ok, context', buf'⟩ := parsed
    simp only [Option.bind_eq_bind, Option.bind_some, Option.map_some]
    cases context'.gotAll <;> simp

theorem courteous : application.Courteous := by
  intro context buf input context' buf' script happ
  have hmessage : onMessage context buf input = some (context', buf', script) := happ
  rw [onMessage_eq, Option.map_eq_some_iff] at hmessage
  obtain ⟨⟨ok, parsed, rest⟩, _, hscript⟩ := hmessage
  simp only [Prod.mk.injEq] at hscript
  obtain ⟨_, _, rfl⟩ := hscript
  apply courteous_event
  cases ok with
  | false => exact courteous_send (by decide)
  | true =>
    rw [if_pos rfl, List.nil_append]
    split
    · exact courteous_event _ (courteous_send (serialise_ne_nil _))
    · exact courteous_nil

/-- The answer to a request, on a connection. -/
theorem onRequest_spoken (conn : HttpConnection) (req : HttpRequest) (httpCallback : HttpCallback) :
    conn.onRequest req httpCallback =
      ({ conn with state_ := TcpConnection.leftIn conn.state_ (onRequest req httpCallback) },
        conversation (TcpConnection.spoken conn.state_ (onRequest req httpCallback))) := by
  obtain ⟨state, buf, context⟩ := conn
  by_cases hstate : state = .kConnected <;>
    by_cases hclose : (httpCallback req
      (HttpResponse.new (HttpConnection.wantsClose req))).closeConnection = true <;>
    simp [HttpConnection.onRequest, onRequest, HttpConnection.send, HttpConnection.shutdown,
      TcpConnection.leftIn, TcpConnection.spoken, conversation, heard, hstate, hclose]

/-- What a script of the server comes to on a connection is what `onMessage` does. -/
theorem onMessage_spoken (conn : HttpConnection) (receiveTime : Int) (httpCallback : HttpCallback) :
    conn.onMessage receiveTime httpCallback =
      (onMessage conn.context_ conn.inputBuffer_ (receiveTime, httpCallback)).map
        fun (context, buf, script) =>
          (⟨TcpConnection.leftIn conn.state_ script, buf, context⟩,
            conversation (TcpConnection.spoken conn.state_ script)) := by
  rw [HttpConnection.onMessage, onMessage_eq]
  cases conn.context_.parseRequest conn.inputBuffer_ receiveTime with
  | none => rfl
  | some parsed =>
    obtain ⟨ok, context, buf⟩ := parsed
    simp only [Option.bind_eq_bind, Option.bind_some, Option.map_some]
    by_cases hstate : conn.state_ = .kConnected <;> cases ok <;> cases hall : context.gotAll <;>
      simp [onRequest_spoken, HttpConnection.send, HttpConnection.shutdown,
          TcpConnection.leftIn, TcpConnection.spoken, conversation, heard, hstate, hall]

/-- What the parser does depends on the bytes of the buffer only. -/
theorem onMessage_congr {context context' : HttpContext} {buf buf' bufₕ : WfBuffer}
    {input : HttpInput} {script : List (UserStep HttpCall)} (hreading : context.Reading)
    (hsame : bufₕ.contents = buf.contents)
    (h : onMessage context buf input = some (context', buf', script)) :
    ∃ buf'ₕ, onMessage context bufₕ input = some (context', buf'ₕ, script) ∧
      buf'ₕ.contents = buf'.contents := by
  obtain ⟨outcome, parsed, rest, hread, hparse⟩ :=
    HttpContext.parseRequest_spec hreading buf input.1
  obtain ⟨outcomeₕ, parsedₕ, restₕ, hreadₕ, hparseₕ⟩ :=
    HttpContext.parseRequest_spec hreading bufₕ input.1
  rw [hsame, hread, Prod.mk.injEq, Prod.mk.injEq] at hreadₕ
  obtain ⟨rfl, rfl, hrest⟩ := hreadₕ
  rw [onMessage_eq, hparse, Option.map_some, Option.some.injEq, Prod.mk.injEq, Prod.mk.injEq] at h
  obtain ⟨rfl, rfl, rfl⟩ := h
  exact ⟨restₕ, by rw [onMessage_eq, hparseₕ, Option.map_some], hrest.symm⟩

/-- A script shows nothing that comes in. -/
theorem messages_spoken (state : StateE) (script : List (UserStep HttpCall)) :
    messages (TcpConnection.spoken state script) = [] := by
  induction script generalizing state with
  | nil => rfl
  | cons step rest ih =>
    cases step with
    | event e => exact ih state
    | send message =>
      rw [TcpConnection.spoken]
      split
      · exact ih state
      · exact ih state
    | shutdown =>
      rw [TcpConnection.spoken]
      split
      · exact ih .kDisconnecting
      · exact ih state

/-- While the parser reads lines, the message callback returns. -/
theorem onMessage_returns {context : HttpContext} (hreading : context.Reading) (buf : WfBuffer)
    (input : HttpInput) : ∃ out, onMessage context buf input = some out := by
  obtain ⟨outcome, parsed, rest, _, hparse⟩ := HttpContext.parseRequest_spec hreading buf input.1
  exact ⟨_, by rw [onMessage_eq, hparse, Option.map_some]⟩

end HttpServer

end TcpNet
