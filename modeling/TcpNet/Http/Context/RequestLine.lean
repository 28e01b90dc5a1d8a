import TcpNet.Http.Context.RoundTrip

open LineReader

namespace TcpNet

namespace HttpContext

open RequestText

/-- The grammar of a request line: `M SP T SP HTTP/1.D`. -/
structure IsRequestLine (line : Bytes) (method : Method) (target : Bytes) (version : Version) :
    Prop where
  known : method ≠ .kInvaild
  free : 32 ∉ target
  released : version ≠ .kUnknow
  written : line = words method target version

/-- A line that begins with a method and a space. -/
def NamesMethod (line : Bytes) : Prop :=
  32 ∈ line ∧ HttpRequest.methodOf (line.take (line.idxOf 32)) ≠ .kInvaild

instance (line : Bytes) : Decidable (NamesMethod line) := inferInstanceAs (Decidable (_ ∧ _))

variable {context : HttpContext} {line : Bytes} {method : Method} {target : Bytes} {version : Version}

theorem split_idxOf {a : Byte} (h : a ∈ line) :
    line = line.take (line.idxOf a) ++ a :: line.drop (line.idxOf a + 1) ∧
      a ∉ line.take (line.idxOf a) := by
  have hlt := List.idxOf_lt_length_of_mem h
  refine ⟨?_, ?_⟩
  · have hdrop := List.drop_eq_getElem_cons hlt
    rw [List.getElem_idxOf hlt] at hdrop
    rw [← hdrop, List.take_append_drop]
  · rw [List.mem_take_iff_idxOf_lt h]
    exact Nat.lt_irrefl _

theorem methodToString_methodOf {word : Bytes} (h : HttpRequest.methodOf word ≠ .kInvaild)
    (request : HttpRequest) :
    HttpRequest.methodToString { request with method_ := HttpRequest.methodOf word } = word := by
  unfold HttpRequest.methodOf at h ⊢
  by_cases hget : word = ascii ['G', 'E', 'T']
  · simp only [hget, if_true]
    rfl
  by_cases hpost : word = ascii ['P', 'O', 'S', 'T']
  · subst hpost
    rfl
  by_cases hhead : word = ascii ['H', 'E', 'A', 'D']
  · subst hhead
    rfl
  by_cases hput : word = ascii ['P', 'U', 'T']
  · subst hput
    rfl
  by_cases hdelete : word = ascii ['D', 'E', 'L', 'E', 'T', 'E']
  · subst hdelete
    rfl
  · simp only [if_neg hget, if_neg hpost, if_neg hhead, if_neg hput, if_neg hdelete, ne_eq,
      not_true] at h

/-- The last word is accepted only as `HTTP/1.0` or `HTTP/1.1`. -/
theorem versionText_of_processVersion {request : HttpRequest} {word : Bytes}
    (h : (processVersion request word).1 = true) :
    ∃ version, version ≠ .kUnknow ∧ word = versionText version := by
  unfold processVersion at h
  split at h
  · rename_i hword
    obtain ⟨hlength, htake⟩ := hword
    have hsplit : ∀ c, word.getLast? = some c →
        word = ascii ['H', 'T', 'T', 'P', '/', '1', '.'] ++ [c] := by
      intro c hlast
      obtain ⟨front, rfl⟩ := List.getLast?_eq_some_iff.mp hlast
      have hfront : front.length = 7 := by
        rw [List.length_append, List.length_singleton] at hlength
        omega
      rw [← hfront, List.take_left] at htake
      rw [htake]
    by_cases hone : word.getLast? = some 49
    · exact ⟨.kHttp11, by simp, hsplit 49 hone⟩
    by_cases hzero : word.getLast? = some 48
    · exact ⟨.kHttp10, by simp, hsplit 48 hzero⟩
    · simp only [if_neg hone, if_neg hzero, Bool.false_eq_true] at h
  · cases h

theorem processRequestLine_of_unnamed (h : ¬ NamesMethod line) (request : HttpRequest) :
    (processRequestLine request line).1 = true := by
  by_cases hspace : 32 ∈ line
  · have hknown : HttpRequest.methodOf (line.take (line.idxOf 32)) = .kInvaild := by
      by_contra hknown
      exact h ⟨hspace, hknown⟩
    have hset : (request.setMethod (line.take (line.idxOf 32))).1 = false := by
      simp only [HttpRequest.setMethod, hknown, ne_eq, not_true, decide_false]
    simp only [processRequestLine, hset, Bool.false_eq_true, if_false]
    split <;> rfl
  · have hidx : line.idxOf 32 = line.length := List.idxOf_of_notMem hspace
    simp only [processRequestLine, hidx, ne_eq, not_true, if_false]

/-- Behind a method, only a line of the grammar is accepted. -/
theorem isRequestLine_of_processRequestLine (hnamed : NamesMethod line) {request : HttpRequest}
    (h : (processRequestLine request line).1 = true) :
    ∃ method target version, IsRequestLine line method target version := by
  obtain ⟨hspace, hknown⟩ := hnamed
  obtain ⟨hsplit, _⟩ := split_idxOf hspace
  set word := line.take (line.idxOf 32) with hword
  set rest := line.drop (line.idxOf 32 + 1) with hrest
  have hidx : line.idxOf 32 ≠ line.length := Nat.ne_of_lt (List.idxOf_lt_length_of_mem hspace)
  have hset : (request.setMethod word).1 = true := by
    simp only [HttpRequest.setMethod, ne_eq, hknown, not_false_iff, decide_true]
  simp only [processRequestLine, if_pos hidx, ← hword, hset, if_true, ← hrest] at h
  obtain ⟨version, hversion, htext⟩ := versionText_of_processVersion h
  rw [Nat.add_assoc, ← List.drop_drop, ← hrest] at htext
  have hsecond : 32 ∈ rest := by
    by_contra hno
    rw [List.idxOf_of_notMem hno, List.drop_eq_nil_of_le (Nat.le_succ _)] at htext
    cases version with
    | kUnknow => exact hversion rfl
    | kHttp10 => cases htext
    | kHttp11 => cases htext
  obtain ⟨hrestSplit, htarget⟩ := split_idxOf hsecond
  refine ⟨HttpRequest.methodOf word, rest.take (rest.idxOf 32), version, hknown, htarget, hversion, ?_⟩
  rw [words, methodToString_methodOf hknown, ← htext, ← hrestSplit, ← hsplit]

/-- Whether a line is accepted does not depend on the request. -/
theorem processRequestLine_eq_true_iff {request : HttpRequest} :
    (processRequestLine request line).1 = true ↔
      (NamesMethod line → ∃ method target version, IsRequestLine line method target version) := by
  constructor
  · exact fun h hnamed => isRequestLine_of_processRequestLine hnamed h
  · intro h
    by_cases hnamed : NamesMethod line
    · obtain ⟨method, target, version, hgrammar⟩ := h hnamed
      rw [hgrammar.written,
        processRequestLine_words hgrammar.known hgrammar.free hgrammar.released request]
    · exact processRequestLine_of_unnamed hnamed request

/-- The path ends at the first question mark. A query is there only behind it. -/
theorem setUrl_words (request : HttpRequest) (target : Bytes) :
    (setUrl request target).path_ = target.takeWhile (· != 63) ∧
      ((setUrl request target).path_ ++ (setUrl request target).query_ = target ↔
        (63 ∉ target → request.query_ = [])) := by
  have htake : target.takeWhile (· != 63) = target.take (target.idxOf 63) := by
    rw [List.takeWhile_eq_take_findIdx_not, List.idxOf]
    congr 2
    funext c
    rw [bne, Bool.not_not]
  by_cases hquestion : 63 ∈ target
  · have hidx : target.idxOf 63 ≠ target.length :=
      Nat.ne_of_lt (List.idxOf_lt_length_of_mem hquestion)
    simp only [setUrl, if_pos hidx, HttpRequest.setPath, HttpRequest.setQuery,
      List.take_append_drop, hquestion, not_true, false_implies, and_true]
    exact htake.symm
  · have hidx : target.idxOf 63 = target.length := List.idxOf_of_notMem hquestion
    rw [hidx, List.take_length] at htake
    simp only [setUrl, hidx, ne_eq, not_true, if_false, HttpRequest.setPath, hquestion,
      not_false_iff, true_implies]
    exact ⟨htake.symm, List.append_right_eq_self⟩

/-- Lines behind the first one change nothing but the headers. -/
theorem readLines_head (hstate : context.state_ = .kExpectRequestHead) (receiveTime : Int)
    (bytes : Bytes) :
    (readLines receiveTime context bytes).2.1.state_ ≠ .kExpectRequestLine ∧
      (∃ headers, (readLines receiveTime context bytes).2.1.request_ =
        { context.request_ with headers_ := headers }) ∧
      (readLines receiveTime context bytes).2.2 <:+ bytes := by
  unfold readLines
  induction context, bytes using
      read_induction Buffer.kCRLF Buffer.kCRLF_ne_nil (handleLine receiveTime) with
  | hwaiting c v hcut =>
    refine ⟨?_, ⟨c.request_.headers_, rfl⟩, List.suffix_rfl⟩
    simp only [hstate, ne_eq, reduceCtorEq, not_false_iff]
  | hlast c v line rest c' hcut hhandle =>
    simp only [handleLine, hstate] at hhandle
    split at hhandle
    · cases hhandle
    · rw [Verdict.last.injEq] at hhandle
      subst hhandle
      refine ⟨by simp, ⟨c.request_.headers_, rfl⟩, ?_⟩
      exact ⟨_, (Search.cut_eq_some hcut).symm⟩
  | hrefuse c v line rest c' hcut hhandle =>
    simp only [handleLine, hstate] at hhandle
    split at hhandle <;> cases hhandle
  | hmore c v line rest c' hcut hhandle ih =>
    simp only [handleLine, hstate] at hhandle
    split at hhandle
    · rw [Verdict.more.injEq] at hhandle
      subst hhandle
      obtain ⟨hnext, ⟨headers, hheaders⟩, hsuffix⟩ := ih rfl
      refine ⟨hnext, ⟨headers, hheaders⟩, hsuffix.trans ?_⟩
      exact ⟨_, (Search.cut_eq_some hcut).symm⟩
    · cases hhandle

theorem parseRequest_of_accepted {buf : WfBuffer} {rest : Bytes} {request : HttpRequest}
    (hstate : context.state_ = .kExpectRequestLine)
    (hcut : Search.cut Buffer.kCRLF buf.contents = some (line, rest))
    (hline : processRequestLine context.request_ line = (true, request)) (receiveTime : Int) :
    ∃ ok context' buf', context.parseRequest buf receiveTime = some (ok, context', buf') ∧
      context'.state_ ≠ .kExpectRequestLine ∧
      (∃ headers, context'.request_ =
        { request with receiveTime_ := receiveTime, headers_ := headers }) ∧
      buf'.contents <:+ rest := by
  obtain ⟨outcome, context', buf', hread, hparse⟩ :=
    parseRequest_spec (.inl hstate) buf receiveTime
  have hhandle : handleLine receiveTime context line =
      .more ⟨.kExpectRequestHead, request.setReceiveTime receiveTime⟩ := by
    simp only [handleLine, hstate, hline, if_true]
  rw [readLines, read_of_some hcut, hhandle] at hread
  set next : HttpContext := ⟨.kExpectRequestHead, request.setReceiveTime receiveTime⟩ with hnext
  have hrest : readLines receiveTime next rest = (outcome, context', buf'.contents) := hread
  have hhead := readLines_head (congrArg state_ hnext) receiveTime rest
  rw [hrest] at hhead
  exact ⟨outcome.ok, context', buf', hparse, hhead⟩

/-- A refused line stays where it is. -/
theorem parseRequest_of_refused {buf : WfBuffer} {rest : Bytes}
    (hstate : context.state_ = .kExpectRequestLine)
    (hcut : Search.cut Buffer.kCRLF buf.contents = some (line, rest))
    (hline : (processRequestLine context.request_ line).1 = false) (receiveTime : Int) :
    ∃ context', context.parseRequest buf receiveTime = some (false, context', buf) ∧
      context'.state_ = context.state_ := by
  have hcontents := buf.nextLine_contents
  rw [hcut] at hcontents
  obtain ⟨⟨line', rest'⟩, hnext, heq⟩ := Option.map_eq_some_iff.mp hcontents
  rw [Prod.mk.injEq] at heq
  obtain ⟨rfl, rfl⟩ := heq
  set refused : HttpContext :=
    { context with request_ := (processRequestLine context.request_ line').2 } with hrefused
  have hhandle : handleLine receiveTime context line' = .refuse refused := by
    simp only [handleLine, hstate, hline, Bool.false_eq_true, if_false, hrefused]
  refine ⟨refused, ?_, rfl⟩
  rw [parseRequest, While.loop, if_pos rfl, parseStep_of_some (.inl hstate) rfl hnext, hhandle]
  rfl

/-- What the grammar asks of a call of `parseRequest` in front of `line`. -/
def ReadsAsWritten (context : HttpContext) (buf : WfBuffer) (receiveTime : Int)
    (line rest : Bytes) : Prop :=
  ∃ ok context' buf', context.parseRequest buf receiveTime = some (ok, context', buf') ∧
    (context'.state_ ≠ .kExpectRequestLine ↔
      ∃ method target version, IsRequestLine line method target version) ∧
    (∀ method target version, IsRequestLine line method target version →
      buf'.contents <:+ rest ∧
      context'.request_.method_ = method ∧
      context'.request_.version_ = version ∧
      context'.request_.path_ = target.takeWhile (· != 63) ∧
      context'.request_.path_ ++ context'.request_.query_ = target) ∧
    ((¬ ∃ method target version, IsRequestLine line method target version) →
      ok = false ∧ buf' = buf ∧ context'.state_ = context.state_)

theorem IsRequestLine.namesMethod (h : IsRequestLine line method target version) :
    NamesMethod line := by
  have hidx : line.idxOf 32 = (HttpRequest.methodToString
      { HttpRequest.new with method_ := method }).length := by
    rw [h.written]
    exact idxOf_append_cons (space_notMem_methodToString _) _
  refine ⟨?_, ?_⟩
  · rw [h.written, words, List.mem_append]
    exact .inr List.mem_cons_self
  · rw [hidx, h.written, words, List.take_left, methodOf_methodToString h.known]
    exact h.known

/-- A line of the grammar is accepted. Its words are all there, but for a query
    that an earlier line has left. -/
theorem parseRequest_of_isRequestLine {buf : WfBuffer} {rest : Bytes}
    (hstate : context.state_ = .kExpectRequestLine)
    (hcut : Search.cut Buffer.kCRLF buf.contents = some (line, rest))
    (h : IsRequestLine line method target version) (receiveTime : Int) :
    ∃ ok context' buf', context.parseRequest buf receiveTime = some (ok, context', buf') ∧
      context'.state_ ≠ .kExpectRequestLine ∧ buf'.contents <:+ rest ∧
      context'.request_.method_ = method ∧ context'.request_.version_ = version ∧
      context'.request_.path_ = target.takeWhile (· != 63) ∧
      (context'.request_.path_ ++ context'.request_.query_ = target ↔
        (63 ∉ target → context.request_.query_ = [])) := by
  have hline := processRequestLine_words h.known h.free h.released context.request_
  rw [← h.written] at hline
  obtain ⟨ok, context', buf', hparse, hnext, ⟨headers, hrequest⟩, hsuffix⟩ :=
    parseRequest_of_accepted hstate hcut hline receiveTime
  obtain ⟨hpath, hquery⟩ := setUrl_words { context.request_ with method_ := method } target
  have hmethod : (setUrl { context.request_ with method_ := method } target).method_ = method := by
    simp only [setUrl]
    split <;> rfl
  refine ⟨ok, context', buf', hparse, hnext, hsuffix, ?_⟩
  rw [hrequest]
  exact ⟨hmethod, rfl, hpath, hquery⟩

theorem readsAsWritten_of_isRequestLine {buf : WfBuffer} {rest : Bytes}
    (hstate : context.state_ = .kExpectRequestLine)
    (hcut : Search.cut Buffer.kCRLF buf.contents = some (line, rest))
    (h : IsRequestLine line method target version) (receiveTime : Int) :
    ReadsAsWritten context buf receiveTime line rest ↔
      ∀ method target version, IsRequestLine line method target version →
        63 ∉ target → context.request_.query_ = [] := by
  constructor
  · rintro ⟨ok, context', buf', hparse, _, hwords, _⟩ method target version h hquestion
    obtain ⟨_, _, _, hparse', _, _, _, _, _, hquery⟩ :=
      parseRequest_of_isRequestLine hstate hcut h receiveTime
    rw [hparse, Option.some.injEq, Prod.mk.injEq, Prod.mk.injEq] at hparse'
    obtain ⟨rfl, rfl, rfl⟩ := hparse'
    exact hquery.mp (hwords method target version h).2.2.2.2 hquestion
  · intro hempty
    obtain ⟨ok, context', buf', hparse, hnext, _⟩ :=
      parseRequest_of_isRequestLine hstate hcut h receiveTime
    refine ⟨ok, context', buf', hparse, iff_of_true hnext ⟨method, target, version, h⟩, ?_, ?_⟩
    · intro method target version h
      obtain ⟨_, _, _, hparse', _, hsuffix, hmethod, hversion, hpath, hquery⟩ :=
        parseRequest_of_isRequestLine hstate hcut h receiveTime
      rw [hparse, Option.some.injEq, Prod.mk.injEq, Prod.mk.injEq] at hparse'
      obtain ⟨rfl, rfl, rfl⟩ := hparse'
      exact ⟨hsuffix, hmethod, hversion, hpath, hquery.mpr (hempty method target version h)⟩
    · exact fun hno => absurd ⟨method, target, version, h⟩ hno

/-- The request line is read as the grammar says exactly when it begins with a
    method and a space, and no query of an earlier line is left where its own
    target has none. -/
theorem requestLine_iff {buf : WfBuffer} {rest : Bytes}
    (hstate : context.state_ = .kExpectRequestLine)
    (hcut : Search.cut Buffer.kCRLF buf.contents = some (line, rest)) (receiveTime : Int) :
    ReadsAsWritten context buf receiveTime line rest ↔
      NamesMethod line ∧ ∀ method target version, IsRequestLine line method target version →
        63 ∉ target → context.request_.query_ = [] := by
  by_cases hgrammar : ∃ method target version, IsRequestLine line method target version
  · obtain ⟨method, target, version, h⟩ := hgrammar
    rw [readsAsWritten_of_isRequestLine hstate hcut h receiveTime]
    exact (and_iff_right h.namesMethod).symm
  · have hvacuous : ∀ method target version, IsRequestLine line method target version →
        63 ∉ target → context.request_.query_ = [] :=
      fun method target version h => absurd ⟨method, target, version, h⟩ hgrammar
    rw [and_iff_left hvacuous]
    constructor
    · rintro ⟨ok, context', buf', hparse, _, _, hrefused⟩
      by_contra hunnamed
      obtain ⟨_, _, _, hparse', hnext, _⟩ := parseRequest_of_accepted hstate hcut
        (Prod.ext (processRequestLine_of_unnamed hunnamed context.request_) rfl) receiveTime
      rw [hparse, Option.some.injEq, Prod.mk.injEq, Prod.mk.injEq] at hparse'
      obtain ⟨rfl, rfl, rfl⟩ := hparse'
      exact hnext ((hrefused hgrammar).2.2.trans hstate)
    · intro hnamed
      have hline : (processRequestLine context.request_ line).1 = false := by
        by_contra hline
        rw [Bool.not_eq_false] at hline
        exact hgrammar (isRequestLine_of_processRequestLine hnamed hline)
      obtain ⟨context', hparse, hsame⟩ := parseRequest_of_refused hstate hcut hline receiveTime
      refine ⟨false, context', buf, hparse, iff_of_false ?_ hgrammar, ?_, ?_⟩
      · exact fun hnext => hnext (hsame.trans hstate)
      · exact fun method target version h => absurd ⟨method, target, version, h⟩ hgrammar
      · exact fun _ => ⟨rfl, rfl, hsame⟩

/-- A line without a space. -/
def fooLine : Bytes := ascii ['F', 'O', 'O']

/-- A line of the grammar in front of an empty line. -/
def rootLine : Bytes := words .kGet [47, 63] .kHttp11

theorem requestLine_iff_root :
    Search.cut Buffer.kCRLF
        (WfBuffer.new.append (rootLine ++ Buffer.kCRLF ++ Buffer.kCRLF)).contents =
      some (rootLine, Buffer.kCRLF) ∧
    ReadsAsWritten .new (WfBuffer.new.append (rootLine ++ Buffer.kCRLF ++ Buffer.kCRLF)) 7 rootLine
      Buffer.kCRLF := by
  have hcut : Search.cut Buffer.kCRLF
      (WfBuffer.new.append (rootLine ++ Buffer.kCRLF ++ Buffer.kCRLF)).contents =
      some (rootLine, Buffer.kCRLF) := by
    rw [WfBuffer.contents_append, WfBuffer.contents_new, List.nil_append]
    exact cut_line (by decide) _
  have hnamed : NamesMethod rootLine := by decide
  exact ⟨hcut, (requestLine_iff rfl hcut 7).mpr ⟨hnamed, fun _ _ _ _ _ => rfl⟩⟩

/-- A line without a space is no request line, and is accepted. -/
theorem requestLine_foo :
    ¬ ∀ (context : HttpContext) (buf : WfBuffer) (receiveTime : Int) (line rest : Bytes),
      context.state_ = .kExpectRequestLine →
      Search.cut Buffer.kCRLF buf.contents = some (line, rest) →
      ReadsAsWritten context buf receiveTime line rest := by
  intro hall
  have hcut : Search.cut Buffer.kCRLF
      (WfBuffer.new.append (fooLine ++ Buffer.kCRLF)).contents = some (fooLine, []) := by
    decide +kernel
  obtain ⟨ok, context, buf, hparse, haccepts, _⟩ := hall .new _ 7 _ _ rfl hcut
  have hstate : (new.parseRequest (WfBuffer.new.append (fooLine ++ Buffer.kCRLF)) 7).map
      (fun parsed => parsed.2.1.state_) = some .kExpectRequestHead := by
    decide +kernel
  rw [hparse, Option.map_some, Option.some.injEq] at hstate
  have hhead : context.state_ = .kExpectRequestHead := hstate
  obtain ⟨method, target, version, h⟩ := haccepts.mp (by simp [hhead])
  have hspace : 32 ∉ fooLine := by decide
  exact hspace h.namesMethod.1

end HttpContext

end TcpNet
