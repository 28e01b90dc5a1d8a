import TcpNet.Http.Context.Lines
import Mathlib.Data.List.Induction

open LineReader

namespace TcpNet

namespace HttpContext

/-- Append a chunk that came at some time, and parse, unless the last call has
    failed or got everything. -/
def parseChunk (parsed : Bool × HttpContext × WfBuffer) (chunk : Bytes × Int) :
    Option (Bool × HttpContext × WfBuffer) :=
  let (ok, context, buf) := parsed
  let buf := buf.append chunk.1
  if ok = false ∨ context.gotAll then some (ok, context, buf)
  else context.parseRequest buf chunk.2

/-- A fresh parser on an empty buffer, fed with one chunk after the other. -/
def parseChunks (chunks : List (Bytes × Int)) : Option (Bool × HttpContext × WfBuffer) :=
  chunks.foldlM parseChunk (true, new, WfBuffer.new)

/-- The context without the time at which the request line came. -/
def untimed (context : HttpContext) : HttpContext :=
  { context with request_ := context.request_.setReceiveTime 0 }

variable {context : HttpContext} {bytes : Bytes}

@[simp] theorem untimed_new : new.untimed = new := rfl

@[simp] theorem untimed_gotAll : context.untimed.gotAll = context.gotAll := rfl

theorem setUrl_setReceiveTime (request : HttpRequest) (url : Bytes) (t : Int) :
    setUrl (request.setReceiveTime t) url = (setUrl request url).setReceiveTime t := by
  simp only [setUrl]
  split <;> rfl

theorem processVersion_setReceiveTime (request : HttpRequest) (version : Bytes) (t : Int) :
    processVersion (request.setReceiveTime t) version =
      ((processVersion request version).1,
        (processVersion request version).2.setReceiveTime t) := by
  simp only [processVersion]
  split
  · split
    · rfl
    · split <;> rfl
  · rfl

theorem setMethod_setReceiveTime (request : HttpRequest) (m : Bytes) (t : Int) :
    (request.setReceiveTime t).setMethod m =
      ((request.setMethod m).1, (request.setMethod m).2.setReceiveTime t) := rfl

/-- The request line is read without a look at the time. -/
theorem processRequestLine_setReceiveTime (request : HttpRequest) (line : Bytes) (t : Int) :
    processRequestLine (request.setReceiveTime t) line =
      ((processRequestLine request line).1,
        (processRequestLine request line).2.setReceiveTime t) := by
  by_cases hspace : line.idxOf 32 ≠ line.length
  · simp only [processRequestLine, setMethod_setReceiveTime, if_pos hspace]
    by_cases hknown : (request.setMethod (line.take (line.idxOf 32))).1 = true
    · simp only [hknown, if_true, setUrl_setReceiveTime, ← processVersion_setReceiveTime]
      split <;> rfl
    · simp only [hknown, Bool.false_eq_true, if_false]
  · simp only [processRequestLine, if_neg hspace]

theorem handleLine_untimed (receiveTime : Int) (context : HttpContext) (line : Bytes) :
    handleLine 0 context.untimed line = (handleLine receiveTime context line).map untimed := by
  have hstate : context.untimed.state_ = context.state_ := rfl
  unfold handleLine
  rw [hstate]
  cases context.state_ with
  | kExpectRequestLine =>
    simp only [untimed, processRequestLine_setReceiveTime]
    split <;> rfl
  | kExpectRequestHead =>
    simp only [untimed]
    split <;> rfl
  | kExpectRequestBody => rfl
  | kGotAll => rfl

/-- How a text is read does not depend on the time at which it came. -/
theorem readLines_untimed (receiveTime : Int) (context : HttpContext) (bytes : Bytes) :
    readLines 0 context.untimed bytes =
      ((readLines receiveTime context bytes).1, (readLines receiveTime context bytes).2.1.untimed,
        (readLines receiveTime context bytes).2.2) :=
  read_map (handleLine_untimed receiveTime) context bytes

theorem parseChunk_of_over {ok : Bool} {buf : WfBuffer} (chunk : Bytes × Int)
    (hover : ok = false ∨ context.gotAll = true) :
    parseChunk (ok, context, buf) chunk = some (ok, context, buf.append chunk.1) := by
  simp only [parseChunk, if_pos hover]

theorem parseChunk_of_reading {buf : WfBuffer} (chunk : Bytes × Int) (h : context.Reading) :
    parseChunk (true, context, buf) chunk =
      context.parseRequest (buf.append chunk.1) chunk.2 := by
  simp only [parseChunk, not_gotAll_of_reading h, Bool.true_eq_false, Bool.false_eq_true, or_false,
    if_false]

theorem parseChunks_concat (chunks : List (Bytes × Int)) (chunk : Bytes × Int) :
    parseChunks (chunks ++ [chunk]) = (parseChunks chunks).bind (parseChunk · chunk) := by
  rw [parseChunks, List.foldlM_append]
  simp only [List.foldlM_cons, List.foldlM_nil, bind_pure]
  rfl

/-- What a parser that was fed in any number of chunks knows is what it reads in
    all their bytes at once. -/
theorem parseChunks_spec (chunks : List (Bytes × Int)) :
    ∃ outcome context' buf',
      parseChunks chunks = some (outcome.ok, context', buf') ∧
      readLines 0 new (chunks.flatMap (·.1)) = (outcome, context'.untimed, buf'.contents) ∧
      (outcome = .finished ↔ context'.gotAll = true) ∧
      (outcome ≠ .finished → context'.Reading) := by
  induction chunks using List.reverseRecOn with
  | nil => exact ⟨.waiting, new, WfBuffer.new, rfl, read_nil, by decide, fun _ => reading_new⟩
  | append_singleton chunks chunk ih =>
    obtain ⟨outcome, context, buf, hparsed, hread, hgotAll, hreading⟩ := ih
    rw [parseChunks_concat, hparsed, Option.bind_some, List.flatMap_append, List.flatMap_singleton,
      readLines, read_append, ← readLines, hread]
    cases outcome with
    | waiting =>
      have hcontext := hreading (by decide)
      obtain ⟨outcome', context', buf', hread', hparse⟩ :=
        parseRequest_spec hcontext (buf.append chunk.1) chunk.2
      have hstate := readLines_state hcontext chunk.2 (buf.append chunk.1).contents
      rw [hread'] at hstate
      refine ⟨outcome', context', buf', ?_, ?_, hstate⟩
      · exact (parseChunk_of_reading chunk hcontext).trans hparse
      · have huntimed := readLines_untimed chunk.2 context (buf.append chunk.1).contents
        rw [hread', WfBuffer.contents_append] at huntimed
        exact huntimed
    | finished =>
      refine ⟨.finished, context, buf.append chunk.1, ?_, ?_, hgotAll, hreading⟩
      · exact parseChunk_of_over chunk (.inr (hgotAll.mp rfl))
      · rw [WfBuffer.contents_append]
        rfl
    | refused =>
      refine ⟨.refused, context, buf.append chunk.1, ?_, ?_, hgotAll, hreading⟩
      · exact parseChunk_of_over chunk (.inl rfl)
      · rw [WfBuffer.contents_append]
        rfl

/-- Incremental parsing is one-shot parsing: wherever the text is cut and whenever
    its pieces come, the state, the success, the request and the unread bytes at
    the end are those of one call on the whole text. -/
theorem incremental_eq_oneshot (chunks : List (Bytes × Int)) (receiveTime : Int) :
    ∃ ok context buf context' buf',
      parseChunks chunks = some (ok, context, buf) ∧
      new.parseRequest (WfBuffer.new.append (chunks.flatMap (·.1))) receiveTime =
        some (ok, context', buf') ∧
      context.state_ = context'.state_ ∧
      context.request_.method_ = context'.request_.method_ ∧
      context.request_.version_ = context'.request_.version_ ∧
      context.request_.path_ = context'.request_.path_ ∧
      context.request_.query_ = context'.request_.query_ ∧
      context.request_.headers_ = context'.request_.headers_ ∧
      buf.contents = buf'.contents := by
  obtain ⟨outcome, context, buf, hparsed, hread, _⟩ := parseChunks_spec chunks
  obtain ⟨outcome', context', buf', hread', hparse⟩ :=
    parseRequest_spec reading_new (WfBuffer.new.append (chunks.flatMap (·.1))) receiveTime
  have huntimed := readLines_untimed receiveTime new (chunks.flatMap (·.1))
  rw [WfBuffer.contents_append, WfBuffer.contents_new, List.nil_append] at hread'
  rw [untimed_new, hread, hread'] at huntimed
  simp only [Prod.mk.injEq, untimed, HttpContext.mk.injEq, HttpRequest.setReceiveTime,
    HttpRequest.mk.injEq] at huntimed
  obtain ⟨rfl, ⟨hstate, hmethod, hversion, hpath, hquery, _, hheaders⟩, hunread⟩ := huntimed
  exact ⟨outcome.ok, context, buf, context', buf', hparsed, hparse, hstate, hmethod, hversion, hpath,
    hquery, hheaders, hunread⟩

end HttpContext

end TcpNet
