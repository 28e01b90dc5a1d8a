import TcpNet.Http.Server.Spec
import TcpNet.Http.Context.Incremental
import TcpNet.Http.Context.RoundTrip
import TcpNet.Library.Trace

open LineReader Trace Transition

namespace TcpNet

namespace RequestText

/-- A well-formed request without a body that leaves its connection open. -/
structure KeepAlive (text : RequestText) : Prop where
  wellFormed : text.WellFormed
  keepsOpen : HttpConnection.wantsClose (text.request 0) = false

/-- The bytes of the requests, one behind the other. -/
def stream (texts : List RequestText) : Bytes := texts.flatMap render

/-- The number of requests that are complete in the first `n` bytes of the stream. -/
def complete : List RequestText → Nat → Nat
  | [], _ => 0
  | text :: texts, n =>
    if text.render.length ≤ n then complete texts (n - text.render.length) + 1 else 0

theorem length_render_pos (text : RequestText) : 0 < text.render.length := by
  simp only [render, renderFields, List.length_append, Buffer.kCRLF, List.length_cons]
  omega

theorem complete_zero (texts : List RequestText) : complete texts 0 = 0 := by
  cases texts with
  | nil => rfl
  | cons text texts =>
    have hpos := text.length_render_pos
    rw [complete, if_neg (by omega)]

theorem complete_append (read rest : List RequestText) (n : Nat) :
    complete (read ++ rest) ((stream read).length + n) = read.length + complete rest n := by
  induction read with
  | nil => simp [stream]
  | cons text read ih =>
    have hlength : (stream (text :: read)).length = text.render.length + (stream read).length := by
      rw [stream, List.flatMap_cons, List.length_append]
      rfl
    rw [List.cons_append, complete, if_pos (by omega), hlength, Nat.add_assoc,
      Nat.add_sub_cancel_left, ih, List.length_cons]
    omega

end RequestText

namespace HttpContext

open RequestText

/-- A part of a request is not enough: the parser waits for more. -/
theorem readLines_part {text : RequestText} (h : text.WellFormed) {part rest : Bytes}
    (hrest : rest ≠ []) (hsplit : text.render = part ++ rest) :
    (readLines 0 new part).1 = .waiting := by
  have hall : readLines 0 new (part ++ rest) = (.finished, ⟨.kGotAll, text.request 0⟩, []) := by
    rw [← hsplit, ← List.append_nil text.render]
    exact readLines_render h 0 []
  rw [readLines, read_append, ← readLines] at hall
  generalize readLines 0 new part = parsed at hall
  obtain ⟨outcome, context, left⟩ := parsed
  cases outcome with
  | waiting => rfl
  | finished =>
    simp only [feed, Prod.mk.injEq] at hall
    exact absurd (List.append_eq_nil_iff.mp hall.2.2).2 hrest
  | refused => cases hall

/-- What the front of a stream of requests is read as: either no request is
    complete, and the parser waits, or the first one is read. -/
theorem readLines_stream {texts : List RequestText} (htexts : ∀ text ∈ texts, text.WellFormed)
    {bytes : Bytes} (hbytes : bytes <+: stream texts) :
    (complete texts bytes.length = 0 ∧ (readLines 0 new bytes).1 = .waiting) ∨
      ∃ text rest bytes', texts = text :: rest ∧ bytes = text.render ++ bytes' ∧
        bytes' <+: stream rest ∧
        readLines 0 new bytes = (.finished, ⟨.kGotAll, text.request 0⟩, bytes') := by
  cases texts with
  | nil =>
    rw [stream, List.flatMap_nil, List.prefix_nil] at hbytes
    subst hbytes
    exact .inl ⟨rfl, congrArg Prod.fst read_nil⟩
  | cons text texts =>
    have htext := htexts text List.mem_cons_self
    rw [stream, List.flatMap_cons, ← stream] at hbytes
    by_cases hlength : text.render.length ≤ bytes.length
    · obtain ⟨bytes', rfl⟩ := List.prefix_of_prefix_length_le (List.prefix_append _ _) hbytes hlength
      rw [List.prefix_append_right_inj] at hbytes
      exact .inr ⟨text, texts, bytes', rfl, rfl, hbytes, readLines_render htext 0 bytes'⟩
    · obtain ⟨rest, hrest⟩ := List.prefix_of_prefix_length_le hbytes (List.prefix_append _ _)
        (by omega)
      refine .inl ⟨by rw [complete, if_neg hlength], readLines_part htext ?_ hrest.symm⟩
      rintro rfl
      rw [List.append_nil] at hrest
      exact hlength (by rw [hrest])

end HttpContext

namespace HttpConnection

open RequestText HttpEvent

/-- The request of a callback, without the time at which it came. -/
def request? : HttpEvent → Option HttpRequest
  | .httpCallback req _ => some (req.setReceiveTime 0)
  | _ => none

/-- The requests that were handed to the callback, in order. -/
def requests (tr : List HttpEvent) : List HttpRequest := tr.filterMap request?

/-- All bytes of the messages. -/
def bytes (messages : List HttpMessage) : Bytes := messages.flatMap (·.data)

/-- A call of `parseRequest` would find a complete request in the buffer. -/
def HasRequest (conn : HttpConnection) : Prop :=
  ∃ ok context buf, conn.context_.parseRequest conn.inputBuffer_ 0 = some (ok, context, buf) ∧
    context.gotAll = true

/-- Behind some message a complete request is left in the buffer. -/
def LeavesRequest (messages : List HttpMessage) : Prop :=
  Passed (fun before message => ∃ conn tr,
    machine.exec fresh (before ++ [message]) = .ok (conn, tr) ∧ HasRequest conn) messages

/-- Some message completes more than one request of the stream. -/
def CompletesMany (texts : List RequestText) (messages : List HttpMessage) : Prop :=
  Passed (fun before message =>
    complete texts (bytes before).length + 1 < complete texts (bytes (before ++ [message])).length)
    messages

/-- Two ways of cutting a stream lead to the same requests. -/
def SameRequests (messages messages' : List HttpMessage) : Prop :=
  ∃ conn tr conn' tr', machine.exec fresh messages = .ok (conn, tr) ∧
    machine.exec fresh messages' = .ok (conn', tr') ∧ requests tr = requests tr'

variable {texts read rest : List RequestText} {tr es : List HttpEvent}
  {conn conn' : HttpConnection} {message : HttpMessage} {received : Bytes}

/-- How far a connection has come: the requests of `read` are behind it, and its
    parser knows as much as a fresh one would that had the bytes `received` of the
    requests of `rest` in its buffer. -/
structure Progress (read rest : List RequestText) (received : Bytes) (tr : List HttpEvent)
    (conn : HttpConnection) : Prop where
  requests : requests tr = read.map (·.request 0)
  reading : conn.context_.Reading
  knows : ∀ more, HttpContext.readLines 0 conn.context_.untimed
    (conn.inputBuffer_.contents ++ more) = HttpContext.readLines 0 .new (received ++ more)

theorem progress_fresh : Progress [] texts [] [] fresh where
  requests := rfl
  reading := HttpContext.reading_new
  knows _ := rfl

theorem Progress.reading_eq (h : Progress read rest received tr conn) (message : HttpMessage) :
    HttpContext.readLines 0 .new (received ++ message.data) =
      ((conn.reading message).1, (conn.reading message).2.1.untimed,
        (conn.reading message).2.2) := by
  rw [← h.knows, HttpContext.readLines_untimed message.receiveTime]
  rfl

/-- A request is left in the buffer when one is left among the bytes received. -/
theorem Progress.hasRequest_iff (h : Progress read rest received tr conn) :
    HasRequest conn ↔ (HttpContext.readLines 0 .new received).1 = .finished := by
  obtain ⟨outcome, context, buf, hread, hparse⟩ :=
    HttpContext.parseRequest_spec h.reading conn.inputBuffer_ 0
  have hstate := HttpContext.readLines_state h.reading 0 conn.inputBuffer_.contents
  have hknows := h.knows []
  rw [List.append_nil, List.append_nil, HttpContext.readLines_untimed 0] at hknows
  rw [← hknows, hstate.1, hread]
  constructor
  · rintro ⟨_, _, _, hparse', hall⟩
    rw [hparse, Option.some.injEq, Prod.mk.injEq, Prod.mk.injEq] at hparse'
    obtain ⟨_, rfl, _⟩ := hparse'
    exact hall
  · exact fun hall => ⟨_, _, _, hparse, hall⟩

theorem requests_gated (state : StateE) {es : List HttpEvent} (h : requests es = []) :
    requests (gated state es) = [] := by
  unfold gated
  split
  · exact h
  · rfl

theorem requests_append (tr es : List HttpEvent) :
    requests (tr ++ es) = requests tr ++ requests es := List.filterMap_append

theorem step_of_waiting (hstep : Step conn message es conn')
    (hwaiting : (conn.reading message).1 = .waiting) :
    requests es = [] ∧ conn'.context_ = (conn.reading message).2.1 ∧
      conn'.inputBuffer_.contents = (conn.reading message).2.2 := by
  cases hstep with
  | waits hread =>
    rw [hread]
    exact ⟨rfl, rfl, rfl⟩
  | refuses hread =>
    rw [hread] at hwaiting
    cases hwaiting
  | answers hread =>
    rw [hread] at hwaiting
    cases hwaiting
  | closes hread =>
    rw [hread] at hwaiting
    cases hwaiting

theorem step_of_finished (hstep : Step conn message es conn')
    (hfinished : (conn.reading message).1 = .finished) :
    requests es = [(conn.reading message).2.1.untimed.request_] ∧ conn'.context_ = .new ∧
      conn'.inputBuffer_.contents = (conn.reading message).2.2 := by
  cases hstep with
  | waits hread =>
    rw [hread] at hfinished
    cases hfinished
  | refuses hread =>
    rw [hread] at hfinished
    cases hfinished
  | answers hread =>
    rw [hread]
    exact ⟨congrArg (_ :: ·) (requests_gated conn.state_ rfl), rfl, rfl⟩
  | closes hread =>
    rw [hread]
    exact ⟨congrArg (_ :: ·) (requests_gated conn.state_ rfl), rfl, rfl⟩

/-- Where no request is complete, the bytes of a message are kept. -/
theorem Progress.step_waiting (h : Progress read rest received tr conn)
    (hstep : Step conn message es conn')
    (hwaiting : (HttpContext.readLines 0 .new (received ++ message.data)).1 = .waiting) :
    Progress read rest (received ++ message.data) (tr ++ es) conn' := by
  have hreading := h.reading_eq message
  rw [hreading] at hwaiting
  obtain ⟨hrequests, hcontext, hcontents⟩ := step_of_waiting hstep hwaiting
  refine ⟨?_, reading_of_step h.reading hstep, fun more => ?_⟩
  · rw [requests_append, h.requests, hrequests, List.append_nil]
  · have hmore : HttpContext.readLines 0 .new (received ++ message.data ++ more) =
        feed Buffer.kCRLF Buffer.kCRLF_ne_nil (HttpContext.handleLine 0)
          (HttpContext.readLines 0 .new (received ++ message.data)) more := read_append _ _ _ _ _ _
    have hwaits : (conn.reading message).1 = .waiting := hwaiting
    rw [hcontext, hcontents, hmore, hreading, hwaits]
    rfl

/-- Where a request is complete, it is handed to the callback, and what stands
    behind it is left for the next message. -/
theorem Progress.step_finished {text : RequestText} {received' : Bytes}
    (h : Progress read (text :: rest) received tr conn) (hstep : Step conn message es conn')
    (hfinished : HttpContext.readLines 0 .new (received ++ message.data) =
      (.finished, ⟨.kGotAll, text.request 0⟩, received')) :
    Progress (read ++ [text]) rest received' (tr ++ es) conn' := by
  rw [h.reading_eq message, Prod.mk.injEq, Prod.mk.injEq] at hfinished
  obtain ⟨houtcome, huntimed, hleft⟩ := hfinished
  obtain ⟨hrequests, hcontext, hcontents⟩ := step_of_finished hstep houtcome
  refine ⟨?_, reading_of_step h.reading hstep, fun more => ?_⟩
  · rw [requests_append, h.requests, hrequests, huntimed, List.map_append, List.map_singleton]
  · rw [hcontext, hcontents, hleft]
    rfl

/-- A message hands over one more request if one is complete, and none otherwise. -/
theorem Progress.step (htexts : ∀ text ∈ rest, text.WellFormed)
    (h : Progress read rest received tr conn) (hstep : Step conn message es conn')
    (hbegins : received ++ message.data <+: stream rest) :
    (complete rest (received ++ message.data).length = 0 ∧
        Progress read rest (received ++ message.data) (tr ++ es) conn' ∧ ¬ HasRequest conn') ∨
      ∃ text rest' received', rest = text :: rest' ∧
        received ++ message.data = text.render ++ received' ∧ received' <+: stream rest' ∧
        Progress (read ++ [text]) rest' received' (tr ++ es) conn' := by
  rcases HttpContext.readLines_stream htexts hbegins with
    ⟨hnone, hwaiting⟩ | ⟨text, rest', received', rfl, hsplit, hrest, hfinished⟩
  · have hnext := h.step_waiting hstep hwaiting
    refine .inl ⟨hnone, hnext, fun hleft => ?_⟩
    rw [hnext.hasRequest_iff, hwaiting] at hleft
    cases hleft
  · exact .inr ⟨text, rest', received', rfl, hsplit, hrest, h.step_finished hstep hfinished⟩

theorem Progress.hasRequest_iff_complete (htexts : ∀ text ∈ rest, text.WellFormed)
    (h : Progress read rest received tr conn) (hbegins : received <+: stream rest) :
    HasRequest conn ↔ 0 < complete rest received.length := by
  rw [h.hasRequest_iff]
  rcases HttpContext.readLines_stream htexts hbegins with
    ⟨hnone, hwaiting⟩ | ⟨text, rest', received', rfl, rfl, _, hfinished⟩
  · rw [hwaiting, hnone]
    exact iff_of_false nofun (Nat.lt_irrefl 0)
  · rw [hfinished, complete, if_pos (by rw [List.length_append]; omega)]
    exact iff_of_true rfl (Nat.succ_pos _)

variable {messages : List HttpMessage}

theorem bytes_concat (messages : List HttpMessage) (message : HttpMessage) :
    bytes (messages ++ [message]) = bytes messages ++ message.data := by
  rw [bytes, List.flatMap_append, List.flatMap_singleton]
  rfl

theorem leavesRequest_concat (hexec : machine.exec fresh (messages ++ [message]) = .ok (conn, tr)) :
    LeavesRequest (messages ++ [message]) ↔ LeavesRequest messages ∨ HasRequest conn := by
  rw [LeavesRequest, passed_append_iff, passed_cons_iff, or_iff_left passed_nil, List.append_nil,
    ← LeavesRequest]
  refine or_congr Iff.rfl ⟨?_, fun hleft => ⟨conn, tr, hexec, hleft⟩⟩
  rintro ⟨conn', tr', hexec', hleft⟩
  rwa [(Machine.exec_unique hexec hexec').1]

theorem completesMany_concat :
    CompletesMany texts (messages ++ [message]) ↔ CompletesMany texts messages ∨
      complete texts (bytes messages).length + 1 <
        complete texts (bytes (messages ++ [message])).length := by
  rw [CompletesMany, passed_append_iff, passed_cons_iff, or_iff_left passed_nil, List.append_nil,
    ← CompletesMany]

/-- What a part of a stream leads to, by induction over its messages. As long as no
    request was left in the buffer, the connection is behind all that are complete. -/
theorem progress_run (htexts : ∀ text ∈ texts, text.WellFormed) (messages : List HttpMessage)
    (hbegins : bytes messages <+: stream texts) :
    ∃ read rest received tr conn, texts = read ++ rest ∧
      bytes messages = stream read ++ received ∧ received <+: stream rest ∧
      machine.exec fresh messages = .ok (conn, tr) ∧ Progress read rest received tr conn ∧
      (LeavesRequest messages ↔ CompletesMany texts messages) ∧
      (¬ LeavesRequest messages → read.length = complete texts (bytes messages).length) := by
  induction messages using List.reverseRecOn with
  | nil =>
    refine ⟨[], texts, [], [], fresh, rfl, rfl, List.nil_prefix, rfl, progress_fresh,
      iff_of_false passed_nil passed_nil, fun _ => ?_⟩
    exact (complete_zero texts).symm
  | append_singleton messages message ih =>
    rw [bytes_concat] at hbegins
    obtain ⟨read, rest, received, tr, conn, rfl, hbytes, hreceived, hexec, hprogress, hiff, hall⟩ :=
      ih ((List.prefix_append _ _).trans hbegins)
    have hstream : stream (read ++ rest) = stream read ++ stream rest := List.flatMap_append
    rw [hbytes, hstream, List.append_assoc, List.prefix_append_right_inj] at hbegins
    have hrest : ∀ text ∈ rest, text.WellFormed :=
      fun text htext => htexts text (List.mem_append_right read htext)
    obtain ⟨es, conn', hgo, hstep⟩ := step_spec hprogress.reading message
    have hexec' := Machine.exec_concat hexec hgo
    rw [leavesRequest_concat hexec', completesMany_concat]
    rcases hprogress.step hrest hstep hbegins with
      ⟨hnone, hnext, hleft⟩ | ⟨text, rest', received', rfl, hsplit, hreceived', hnext⟩
    · have hcomplete : complete (read ++ rest) (bytes (messages ++ [message])).length =
          read.length := by
        rw [bytes_concat, hbytes, List.append_assoc, List.length_append, complete_append, hnone]
        rfl
      refine ⟨read, rest, received ++ message.data, tr ++ es, conn', rfl, ?_, hbegins, hexec',
        hnext, ?_, ?_⟩
      · rw [bytes_concat, hbytes, List.append_assoc]
      · by_cases hleaves : LeavesRequest messages
        · exact iff_of_true (.inl hleaves) (.inl (hiff.mp hleaves))
        · rw [hcomplete, ← hall hleaves, ← hiff]
          simp only [hleaves, hleft, false_or, false_iff]
          omega
      · exact fun _ => hcomplete.symm
    · have hstream' : stream (read ++ [text]) = stream read ++ text.render := by
        simp [stream, List.flatMap_append]
      have hbytes' : bytes (messages ++ [message]) = stream (read ++ [text]) ++ received' := by
        rw [bytes_concat, hbytes, List.append_assoc, hsplit, hstream', List.append_assoc]
      have hcomplete : complete (read ++ text :: rest') (bytes (messages ++ [message])).length =
          read.length + 1 + complete rest' received'.length := by
        rw [hbytes', List.length_append, List.append_cons, complete_append, List.length_append]
        rfl
      have hleft := hnext.hasRequest_iff_complete
        (fun text' htext' => hrest text' (List.mem_cons_of_mem text htext')) hreceived'
      refine ⟨read ++ [text], rest', received', tr ++ es, conn', List.append_cons _ _ _, hbytes',
        hreceived', hexec', hnext, ?_, ?_⟩
      · by_cases hleaves : LeavesRequest messages
        · exact iff_of_true (.inl hleaves) (.inl (hiff.mp hleaves))
        · rw [hcomplete, ← hall hleaves, hleft, ← hiff]
          simp only [hleaves, false_or]
          omega
      · intro hnot
        rw [not_or, hleft] at hnot
        rw [hcomplete, List.length_append, List.length_singleton]
        omega

theorem complete_stream (texts : List RequestText) :
    complete texts (stream texts).length = texts.length := by
  have hall := complete_append texts [] 0
  rwa [List.append_nil] at hall

/-- A whole stream: where no request is left in the buffer, all were handed over. -/
theorem requests_of_run (htexts : ∀ text ∈ texts, text.KeepAlive)
    (hcut : bytes messages = stream texts) :
    ∃ conn tr, machine.exec fresh messages = .ok (conn, tr) ∧
      (LeavesRequest messages ↔ CompletesMany texts messages) ∧
      (¬ LeavesRequest messages → requests tr = texts.map (·.request 0)) := by
  obtain ⟨read, rest, received, tr, conn, hsplit, _, _, hexec, hprogress, hiff, hall⟩ :=
    progress_run (fun text htext => (htexts text htext).wellFormed) messages
      (hcut ▸ List.prefix_rfl)
  refine ⟨conn, tr, hexec, hiff, fun hnot => ?_⟩
  have hlength := hall hnot
  rw [hcut, complete_stream, hsplit, List.length_append] at hlength
  have hnil : rest = [] := List.length_eq_zero_iff.mp (by omega)
  rw [hprogress.requests, hsplit, hnil, List.append_nil]

/-- The requests that a connection hands to its callback do not depend on how their
    stream is cut, and none is left in the buffer, exactly when every message
    completes at most one request. -/
theorem segmentation_iff (htexts : ∀ text ∈ texts, text.KeepAlive)
    {messages messages' : List HttpMessage} (hcut : bytes messages = stream texts)
    (hcut' : bytes messages' = stream texts) :
    SameRequests messages messages' ∧ ¬ LeavesRequest messages ∧ ¬ LeavesRequest messages' ↔
      ¬ CompletesMany texts messages ∧ ¬ CompletesMany texts messages' := by
  obtain ⟨conn, tr, hexec, hiff, hall⟩ := requests_of_run htexts hcut
  obtain ⟨conn', tr', hexec', hiff', hall'⟩ := requests_of_run htexts hcut'
  rw [← hiff, ← hiff']
  constructor
  · exact fun hsame => hsame.2
  · rintro ⟨hnot, hnot'⟩
    refine ⟨⟨conn, tr, conn', tr', hexec, hexec', ?_⟩, hnot, hnot'⟩
    rw [hall hnot, hall' hnot']

/-- A request that leaves its connection open. -/
def rootRequest : RequestText := ⟨.kGet, [47], [], .kHttp11, []⟩

theorem keepAlive_root : rootRequest.KeepAlive where
  wellFormed := by decide
  keepsOpen := by decide +kernel

/-- The bytes of a chunk, with a callback that leaves the connection open. -/
def chunk (data : Bytes) : HttpMessage := ⟨data, 7, fun _ resp => resp.setStatusCode .k200OK⟩

/-- Two requests, each in its own message, or cut in the middle of an end of line. -/
theorem segmentation_iff_two :
    bytes [chunk rootRequest.render, chunk rootRequest.render] =
        stream [rootRequest, rootRequest] ∧
      SameRequests [chunk rootRequest.render, chunk rootRequest.render]
        [chunk (rootRequest.render.take 15), chunk (rootRequest.render.drop 15),
          chunk rootRequest.render] := by
  have htexts : ∀ text ∈ [rootRequest, rootRequest], text.KeepAlive := by
    intro text htext
    simp only [List.mem_cons, List.not_mem_nil, or_false, or_self] at htext
    exact htext ▸ keepAlive_root
  have hone : ¬ CompletesMany [rootRequest, rootRequest]
      [chunk rootRequest.render, chunk rootRequest.render] := by
    unfold CompletesMany
    decide +kernel
  have htwo : ¬ CompletesMany [rootRequest, rootRequest]
      [chunk (rootRequest.render.take 15), chunk (rootRequest.render.drop 15),
        chunk rootRequest.render] := by
    unfold CompletesMany
    decide +kernel
  have hcut : bytes [chunk rootRequest.render, chunk rootRequest.render] =
      stream [rootRequest, rootRequest] := by
    decide +kernel
  exact ⟨hcut, ((segmentation_iff htexts hcut (by decide +kernel)).mpr ⟨hone, htwo⟩).1⟩

/-- Two requests in one message: the second one is not handed to the callback. -/
theorem segmentation_dependent :
    ¬ ∀ (texts : List RequestText) (messages messages' : List HttpMessage),
      (∀ text ∈ texts, text.KeepAlive) → bytes messages = stream texts →
      bytes messages' = stream texts →
      SameRequests messages messages' ∧ ¬ LeavesRequest messages ∧ ¬ LeavesRequest messages' := by
  intro hall
  have htexts : ∀ text ∈ [rootRequest, rootRequest], text.KeepAlive := by
    intro text htext
    simp only [List.mem_cons, List.not_mem_nil, or_false, or_self] at htext
    exact htext ▸ keepAlive_root
  obtain ⟨⟨conn, tr, conn', tr', hexec, hexec', hsame⟩, _⟩ :=
    hall [rootRequest, rootRequest] [chunk (rootRequest.render ++ rootRequest.render)]
      [chunk rootRequest.render, chunk rootRequest.render] htexts (by decide +kernel)
      (by decide +kernel)
  have hone : machine.runs fresh [chunk (rootRequest.render ++ rootRequest.render)]
      (fun tr _ => (requests tr).length = 1) = true := by
    decide +kernel
  have htwo : machine.runs fresh [chunk rootRequest.render, chunk rootRequest.render]
      (fun tr _ => (requests tr).length = 2) = true := by
    decide +kernel
  rw [Machine.runs, hexec] at hone
  rw [Machine.runs, hexec'] at htwo
  have hlength : (requests tr).length = 1 := of_decide_eq_true hone
  have hlength' : (requests tr').length = 2 := of_decide_eq_true htwo
  rw [hsame, hlength'] at hlength
  cases hlength

end HttpConnection

end TcpNet
