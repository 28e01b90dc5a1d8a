import TcpNet.Http.Context.RequestLine
import TcpNet.Http.Server.Segmentation

open LineReader Transition

namespace TcpNet

namespace HttpContext

/-- Whether the request line is behind the parser. -/
def inHead (context : HttpContext) : Bool := context.state_ = .kExpectRequestHead

/-- The lines that the parser takes for request lines. -/
def acceptsLine (line : Bytes) : Bool := (processRequestLine .new line).1

/-- How one head is to be read: it ends at the first empty line behind the request
    line. -/
def headLine (inHead : Bool) (line : Bytes) : Verdict Bool :=
  if inHead then
    if line = [] then .last false else .more true
  else if acceptsLine line then .more true
  else .refuse false

/-- How a stream of heads is to be read: one head follows the other, and those that
    have ended are counted. -/
def streamLine (position : Nat × Bool) (line : Bytes) : Verdict (Nat × Bool) :=
  match headLine position.2 line with
  | .more inHead => .more (position.1, inHead)
  | .last inHead => .more (position.1 + 1, inHead)
  | .refuse inHead => .refuse (position.1, inHead)

def readHead (inHead : Bool) (bytes : Bytes) : Outcome × Bool × Bytes :=
  read Buffer.kCRLF Buffer.kCRLF_ne_nil headLine inHead bytes

def readStream (position : Nat × Bool) (bytes : Bytes) : Outcome × (Nat × Bool) × Bytes :=
  read Buffer.kCRLF Buffer.kCRLF_ne_nil streamLine position bytes

/-- In front of the first empty line stands a header line without a colon. -/
def Colonless (inHead : Bool) (bytes : Bytes) : Prop :=
  ∃ line, Meets Buffer.kCRLF headLine inHead bytes true line ∧ line ≠ [] ∧ 58 ∉ line

variable {receiveTime : Int} {context context' : HttpContext} {bytes line rest : Bytes}
  {inHead : Bool}

theorem not_colonless_of_none (hcut : Search.cut Buffer.kCRLF bytes = none) :
    ¬ Colonless inHead bytes :=
  fun ⟨_, hmeets, _⟩ => not_meets_of_none hcut hmeets

theorem colonless_of_some (hcut : Search.cut Buffer.kCRLF bytes = some (line, rest)) :
    Colonless inHead bytes ↔ inHead = true ∧ line ≠ [] ∧ 58 ∉ line ∨
      ∃ inHead', headLine inHead line = .more inHead' ∧ Colonless inHead' rest := by
  unfold Colonless
  simp only [meets_of_some hcut]
  constructor
  · rintro ⟨line', ⟨rfl, rfl⟩ | ⟨inHead', hmore, hmeets⟩, hline⟩
    · exact .inl ⟨rfl, hline⟩
    · exact .inr ⟨inHead', hmore, line', hmeets, hline⟩
  · rintro (⟨rfl, hline⟩ | ⟨inHead', hmore, line', hmeets, hline⟩)
    · exact ⟨line, .inl ⟨rfl, rfl⟩, hline⟩
    · exact ⟨line', .inr ⟨inHead', hmore, hmeets⟩, hline⟩

theorem acceptsLine_eq (request : HttpRequest) (line : Bytes) :
    (processRequestLine request line).1 = acceptsLine line := by
  rw [acceptsLine, Bool.eq_iff_iff, processRequestLine_eq_true_iff, processRequestLine_eq_true_iff]

section Lines

variable (hreading : context.Reading)
include hreading

theorem inHead_or : context.state_ = .kExpectRequestLine ∧ context.inHead = false ∨
    context.state_ = .kExpectRequestHead ∧ context.inHead = true := by
  unfold inHead
  obtain hstate | hstate := hreading
  · exact .inl ⟨hstate, by rw [hstate]; rfl⟩
  · exact .inr ⟨hstate, by rw [hstate]; rfl⟩

/-- Where the parser goes on, so does the reader of heads, and the line has a colon
    if it is a header. -/
theorem headLine_of_more (hmore : handleLine receiveTime context line = .more context') :
    headLine context.inHead line = .more true ∧ context'.inHead = true ∧
      (context.inHead = true → 58 ∈ line) := by
  obtain ⟨hstate, hin⟩ | ⟨hstate, hin⟩ := inHead_or hreading
  · simp only [handleLine, hstate] at hmore
    rw [acceptsLine_eq] at hmore
    split at hmore
    · rename_i haccepts
      rw [Verdict.more.injEq] at hmore
      refine ⟨?_, hmore ▸ rfl, by simp [hin]⟩
      simp only [headLine, hin, haccepts, Bool.false_eq_true, if_false, if_true]
    · cases hmore
  · simp only [handleLine, hstate] at hmore
    split at hmore
    · rename_i hcolon
      rw [Verdict.more.injEq] at hmore
      have hmem : 58 ∈ line :=
        List.idxOf_lt_length_iff.mp (Nat.lt_of_le_of_ne List.idxOf_le_length hcolon)
      refine ⟨?_, hmore ▸ rfl, fun _ => hmem⟩
      simp only [headLine, hin, if_true, if_neg (List.ne_nil_of_mem hmem)]
    · cases hmore

theorem headLine_of_refuse (hrefuse : handleLine receiveTime context line = .refuse context') :
    context.inHead = false ∧ headLine context.inHead line = .refuse false ∧
      context'.inHead = false := by
  obtain ⟨hstate, hin⟩ | ⟨hstate, hin⟩ := inHead_or hreading
  · simp only [handleLine, hstate] at hrefuse
    rw [acceptsLine_eq] at hrefuse
    split at hrefuse
    · cases hrefuse
    · rename_i haccepts
      rw [Verdict.refuse.injEq] at hrefuse
      refine ⟨hin, ?_, hrefuse ▸ rfl⟩
      simp only [headLine, hin, haccepts, Bool.false_eq_true, if_false]
  · simp only [handleLine, hstate] at hrefuse
    split at hrefuse <;> cases hrefuse

/-- The parser ends the head at a line without a colon. -/
theorem headLine_of_last (hlast : handleLine receiveTime context line = .last context') :
    context.inHead = true ∧ 58 ∉ line ∧ context'.inHead = false := by
  obtain ⟨hstate, hin⟩ | ⟨hstate, hin⟩ := inHead_or hreading
  · simp only [handleLine, hstate] at hlast
    split at hlast <;> cases hlast
  · simp only [handleLine, hstate] at hlast
    split at hlast
    · cases hlast
    · rename_i hcolon
      rw [Verdict.last.injEq] at hlast
      exact ⟨hin, List.idxOf_eq_length_iff.mp (not_not.mp hcolon), hlast ▸ rfl⟩

end Lines

/-- Without such a line the parser reads a head as it is to be read. -/
theorem readHead_of_not_colonless (hreading : context.Reading)
    (h : ¬ Colonless context.inHead bytes) (receiveTime : Int) :
    readHead context.inHead bytes =
      ((readLines receiveTime context bytes).1, (readLines receiveTime context bytes).2.1.inHead,
        (readLines receiveTime context bytes).2.2) := by
  unfold readLines readHead
  induction context, bytes using
      read_induction Buffer.kCRLF Buffer.kCRLF_ne_nil (handleLine receiveTime) with
  | hwaiting c v hcut => exact read_of_none hcut
  | hlast c v line rest c' hcut hhandle =>
    obtain ⟨hin, hcolon, hout⟩ := headLine_of_last hreading hhandle
    rw [colonless_of_some hcut, not_or, hin] at h
    have hempty : line = [] := by
      by_contra hline
      exact h.1 ⟨rfl, hline, hcolon⟩
    rw [read_of_some hcut, hin, hempty, hout]
    rfl
  | hrefuse c v line rest c' hcut hhandle =>
    obtain ⟨hin, hline, hout⟩ := headLine_of_refuse hreading hhandle
    rw [read_of_some hcut, hline, hout]
  | hmore c v line rest c' hcut hhandle ih =>
    obtain ⟨hline, hin, _⟩ := headLine_of_more hreading hhandle
    rw [colonless_of_some hcut, not_or, not_exists] at h
    rw [read_of_some hcut, hline]
    have hrest := ih (reading_of_more hreading hhandle)
      (fun hcolonless => h.2 true ⟨hline, hin ▸ hcolonless⟩)
    rw [hin] at hrest
    exact hrest

/-- What is read of a head takes a stream from one of its positions to another. -/
theorem readStream_of_readHead (inHead : Bool) (bytes : Bytes) :
    ∃ used, bytes = used ++ (readHead inHead bytes).2.2 ∧
      ∀ n, readStream (n, inHead) used =
        (.waiting, (n + if (readHead inHead bytes).1 = .finished then 1 else 0,
          (readHead inHead bytes).2.1), []) := by
  unfold readHead
  induction inHead, bytes using
      read_induction Buffer.kCRLF Buffer.kCRLF_ne_nil headLine with
  | hwaiting b v hcut => exact ⟨[], rfl, fun n => read_nil⟩
  | hlast b v line rest b' hcut hhandle =>
    refine ⟨line ++ Buffer.kCRLF ++ [], ?_, fun n => ?_⟩
    · rw [List.append_nil]
      exact Search.cut_eq_some hcut
    · rw [readStream, read_of_some (Search.cut_replace hcut []), streamLine, hhandle]
      exact read_nil
  | hrefuse b v line rest b' hcut hhandle =>
    have hsame : b' = b := by
      unfold headLine at hhandle
      split at hhandle
      · split at hhandle <;> cases hhandle
      · rename_i hin
        rw [Bool.not_eq_true] at hin
        split at hhandle
        · cases hhandle
        · rw [Verdict.refuse.injEq] at hhandle
          rw [← hhandle, hin]
    exact ⟨[], rfl, fun n => hsame ▸ read_nil⟩
  | hmore b v line rest b' hcut hhandle ih =>
    obtain ⟨used, hsplit, hread⟩ := ih
    refine ⟨line ++ Buffer.kCRLF ++ used, ?_, fun n => ?_⟩
    · rw [List.append_assoc, ← hsplit]
      exact Search.cut_eq_some hcut
    · rw [readStream, read_of_some (Search.cut_replace hcut used), streamLine, hhandle]
      exact hread n

/-- At such a line the parser ends the head, and a stream of heads is still inside
    it. -/
theorem readLines_of_colonless (hreading : context.Reading)
    (h : Colonless context.inHead bytes) (receiveTime : Int) :
    (readLines receiveTime context bytes).1 = .finished ∧
      ∃ used, bytes = used ++ (readLines receiveTime context bytes).2.2 ∧
        ∀ n, readStream (n, context.inHead) used = (.waiting, (n, true), []) := by
  unfold readLines
  induction context, bytes using
      read_induction Buffer.kCRLF Buffer.kCRLF_ne_nil (handleLine receiveTime) with
  | hwaiting c v hcut => exact absurd h (not_colonless_of_none hcut)
  | hlast c v line rest c' hcut hhandle =>
    obtain ⟨hin, _, _⟩ := headLine_of_last hreading hhandle
    rw [colonless_of_some hcut, hin] at h
    have hline : line ≠ [] := by
      rintro rfl
      obtain ⟨_, hne, _⟩ | ⟨_, hmore, _⟩ := h
      · exact hne rfl
      · cases hmore
    refine ⟨rfl, line ++ Buffer.kCRLF ++ [], ?_, fun n => ?_⟩
    · rw [List.append_nil]
      exact Search.cut_eq_some hcut
    · rw [readStream, hin, read_of_some (Search.cut_replace hcut [])]
      simp only [streamLine, headLine, if_true, if_neg hline]
      exact read_nil
  | hrefuse c v line rest c' hcut hhandle =>
    obtain ⟨hin, hline, _⟩ := headLine_of_refuse hreading hhandle
    rw [colonless_of_some hcut, hline, hin] at h
    obtain ⟨hfalse, _⟩ | ⟨_, hmore, _⟩ := h
    · cases hfalse
    · cases hmore
  | hmore c v line rest c' hcut hhandle ih =>
    obtain ⟨hline, hin, hcolon⟩ := headLine_of_more hreading hhandle
    rw [colonless_of_some hcut, hline] at h
    have hlater : Colonless c'.inHead rest := by
      obtain ⟨hin', _, hnone⟩ | ⟨b, hmore, hlater⟩ := h
      · exact absurd (hcolon hin') hnone
      · rw [Verdict.more.injEq] at hmore
        rw [hin, hmore]
        exact hlater
    obtain ⟨hfinished, used, hsplit, hread⟩ := ih (reading_of_more hreading hhandle) hlater
    refine ⟨hfinished, line ++ Buffer.kCRLF ++ used, ?_, fun n => ?_⟩
    · rw [List.append_assoc, ← hsplit]
      exact Search.cut_eq_some hcut
    · rw [readStream, read_of_some (Search.cut_replace hcut used)]
      simp only [streamLine, hline]
      rw [hin] at hread
      exact hread n

/-- What is taken for a request line: all that names no method, and what follows the grammar. -/
def Accepted (line : Bytes) : Prop :=
  NamesMethod line → ∃ method target version, IsRequestLine line method target version

theorem acceptsLine_iff : acceptsLine line = true ↔ Accepted line := processRequestLine_eq_true_iff

/-- The bytes begin with the rest of a head as the parser takes it: in front of the request line
    that line, then lines with a colon, and a line without one. -/
inductive HoldsHead : Bool → Bytes → Prop
  | requestLine {bytes line rest : Bytes} (hcut : Search.cut Buffer.kCRLF bytes = some (line, rest))
      (haccepted : Accepted line) (hrest : HoldsHead true rest) : HoldsHead false bytes
  | header {bytes line rest : Bytes} (hcut : Search.cut Buffer.kCRLF bytes = some (line, rest))
      (hcolon : 58 ∈ line) (hrest : HoldsHead true rest) : HoldsHead true bytes
  | last {bytes line rest : Bytes} (hcut : Search.cut Buffer.kCRLF bytes = some (line, rest))
      (hcolon : 58 ∉ line) : HoldsHead true bytes

theorem not_holdsHead_of_none (hcut : Search.cut Buffer.kCRLF bytes = none) :
    ¬ HoldsHead inHead bytes := by
  intro h
  cases h with
  | requestLine hsome | header hsome | last hsome =>
    rw [hcut] at hsome
    cases hsome

theorem holdsHead_line_iff (hcut : Search.cut Buffer.kCRLF bytes = some (line, rest)) :
    HoldsHead false bytes ↔ Accepted line ∧ HoldsHead true rest := by
  constructor
  · intro h
    cases h with
    | requestLine hsome haccepted hrest =>
      rw [hcut, Option.some.injEq, Prod.mk.injEq] at hsome
      obtain ⟨rfl, rfl⟩ := hsome
      exact ⟨haccepted, hrest⟩
  · exact fun ⟨haccepted, hrest⟩ => .requestLine hcut haccepted hrest

theorem holdsHead_header_iff (hcut : Search.cut Buffer.kCRLF bytes = some (line, rest)) :
    HoldsHead true bytes ↔ (58 ∈ line → HoldsHead true rest) := by
  constructor
  · intro h hmem
    cases h with
    | header hsome _ hrest =>
      rw [hcut, Option.some.injEq, Prod.mk.injEq] at hsome
      exact hsome.2 ▸ hrest
    | last hsome hcolon =>
      rw [hcut, Option.some.injEq, Prod.mk.injEq] at hsome
      exact absurd (hsome.1 ▸ hmem) hcolon
  · intro h
    by_cases hcolon : 58 ∈ line
    · exact .header hcut hcolon (h hcolon)
    · exact .last hcut hcolon

/-- The parser gets everything exactly when the bytes hold the rest of its head. -/
theorem holdsHead_iff (hreading : context.Reading) (receiveTime : Int) (bytes : Bytes) :
    HoldsHead context.inHead bytes ↔ (readLines receiveTime context bytes).1 = .finished := by
  unfold readLines
  induction context, bytes using
      read_induction Buffer.kCRLF Buffer.kCRLF_ne_nil (handleLine receiveTime) with
  | hwaiting c v hcut =>
    refine iff_of_false (not_holdsHead_of_none hcut) ?_
    simp
  | hlast c v line rest c' hcut hhandle =>
    obtain ⟨hin, hcolon, _⟩ := headLine_of_last hreading hhandle
    rw [hin]
    exact iff_of_true (.last hcut hcolon) rfl
  | hrefuse c v line rest c' hcut hhandle =>
    obtain ⟨hin, hline, _⟩ := headLine_of_refuse hreading hhandle
    rw [hin] at hline ⊢
    refine iff_of_false ?_ (by simp)
    rw [holdsHead_line_iff hcut, ← acceptsLine_iff]
    rintro ⟨haccepts, _⟩
    simp only [headLine, haccepts, Bool.false_eq_true, if_false, if_true] at hline
    cases hline
  | hmore c v line rest c' hcut hhandle ih =>
    obtain ⟨hline, hin', hcolon⟩ := headLine_of_more hreading hhandle
    rw [← ih (reading_of_more hreading hhandle), hin']
    obtain ⟨_, hin⟩ | ⟨_, hin⟩ := inHead_or hreading
    · rw [hin] at hline ⊢
      have haccepts : acceptsLine line = true := by
        by_contra hrefused
        simp only [headLine, hrefused, Bool.false_eq_true, if_false] at hline
        cases hline
      rw [holdsHead_line_iff hcut]
      exact and_iff_right (acceptsLine_iff.mp haccepts)
    · rw [hin, holdsHead_header_iff hcut]
      exact forall_prop_of_true (hcolon hin)

/-- A parser at the request line or behind it. -/
def parserAt (inHead : Bool) : HttpContext :=
  ⟨if inHead then .kExpectRequestHead else .kExpectRequestLine, .new⟩

instance (inHead : Bool) (bytes : Bytes) : Decidable (HoldsHead inHead bytes) :=
  decidable_of_iff ((readLines 0 (parserAt inHead) bytes).1 = .finished) (by
    cases inHead with
    | false => exact (holdsHead_iff (.inl rfl) 0 bytes).symm
    | true => exact (holdsHead_iff (.inr rfl) 0 bytes).symm)

end HttpContext

namespace HttpConnection

open HttpContext

/-- The call of `parseRequest` for a message gets everything exactly when it has read
    an empty header line, and leaves what stands behind that line. -/
def EndsHead (conn : HttpConnection) (message : HttpMessage) : Prop :=
  ∃ ok context buf, conn.context_.parseRequest (conn.inputBuffer_.append message.data)
      message.receiveTime = some (ok, context, buf) ∧
    (context.gotAll = true ↔ (readHead conn.context_.inHead
      (conn.inputBuffer_.contents ++ message.data)).1 = .finished) ∧
    buf.contents =
      (readHead conn.context_.inHead (conn.inputBuffer_.contents ++ message.data)).2.2

/-- What was taken from the stream are heads up to their empty lines, one for every
    request handed to the callback, and the front of another one if the parser is
    inside it. -/
def Aligned (messages : List HttpMessage) (tr : List HttpEvent) (conn : HttpConnection) : Prop :=
  ∃ taken, bytes messages = taken ++ conn.inputBuffer_.contents ∧
    readStream (0, false) taken =
      (.waiting, ((requests tr).length, conn.context_.inHead), [])

def HeadsEndAtEmptyLines (messages : List HttpMessage) : Prop :=
  ∀ before message, before ++ [message] <+: messages → ∃ conn tr conn' es,
    machine.exec fresh before = .ok (conn, tr) ∧ conn.step message = .ok (conn', es) ∧
      EndsHead conn message ∧ Aligned (before ++ [message]) (tr ++ es) conn'

/-- Some message lets the parser come to a header line without a colon. -/
def MeetsColonless (messages : List HttpMessage) : Prop :=
  ∃ before message conn tr, before ++ [message] <+: messages ∧
    machine.exec fresh before = .ok (conn, tr) ∧
    Colonless conn.context_.inHead (conn.inputBuffer_.contents ++ message.data)

variable {conn conn' : HttpConnection} {message : HttpMessage} {messages before : List HttpMessage}
  {tr es : List HttpEvent}

theorem exec_goes_through (messages : List HttpMessage) :
    ∃ conn tr, machine.exec fresh messages = .ok (conn, tr) ∧ conn.context_.Reading := by
  induction messages using List.reverseRecOn with
  | nil => exact ⟨fresh, [], rfl, reading_new⟩
  | append_singleton messages message ih =>
    obtain ⟨conn, tr, hexec, hreading⟩ := ih
    obtain ⟨es, conn', hgo, hstep⟩ := step_spec hreading message
    exact ⟨conn', tr ++ es, Machine.exec_concat hexec hgo, reading_of_step hreading hstep⟩

/-- Where a step leaves the parser. -/
theorem position_of_step (hreading : conn.context_.Reading) (hstep : Step conn message es conn') :
    (requests es).length = (if (conn.reading message).1 = .finished then 1 else 0) ∧
      conn'.context_.inHead = (conn.reading message).2.1.inHead ∧
      conn'.inputBuffer_.contents = (conn.reading message).2.2 := by
  have hstate := readLines_state hreading message.receiveTime
    (conn.inputBuffer_.contents ++ message.data)
  rw [← reading] at hstate
  cases houtcome : (conn.reading message).1 with
  | waiting =>
    obtain ⟨hrequests, hcontext, hcontents⟩ := step_of_waiting hstep houtcome
    exact ⟨by rw [hrequests]; rfl, by rw [hcontext], hcontents⟩
  | finished =>
    obtain ⟨hrequests, hcontext, hcontents⟩ := step_of_finished hstep houtcome
    have hall : (conn.reading message).2.1.state_ = .kGotAll :=
      of_decide_eq_true (hstate.1.mp houtcome)
    refine ⟨by rw [hrequests]; rfl, ?_, hcontents⟩
    rw [hcontext, inHead, inHead, hall]
    rfl
  | refused =>
    cases hstep with
    | waits hread =>
      rw [hread] at houtcome
      cases houtcome
    | refuses hread =>
      rw [hread]
      exact ⟨congrArg List.length (requests_gated conn.state_ rfl), rfl, rfl⟩
    | answers hread =>
      rw [hread] at houtcome
      cases houtcome
    | closes hread =>
      rw [hread] at houtcome
      cases houtcome

theorem endsHead_of_not_colonless (hreading : conn.context_.Reading)
    (h : ¬ Colonless conn.context_.inHead (conn.inputBuffer_.contents ++ message.data)) :
    EndsHead conn message := by
  obtain ⟨outcome, context, buf, hread, hparse⟩ := parseRequest_spec hreading
    (conn.inputBuffer_.append message.data) message.receiveTime
  have hstate := readLines_state hreading message.receiveTime
    (conn.inputBuffer_.append message.data).contents
  rw [hread] at hstate
  rw [WfBuffer.contents_append] at hread
  have hhead := readHead_of_not_colonless hreading h message.receiveTime
  rw [hread] at hhead
  rw [EndsHead, hhead]
  exact ⟨outcome.ok, context, buf, hparse, hstate.1.symm, rfl⟩

/-- What a step takes from the stream is a part of it that is read from the position
    before. -/
theorem aligned_append_iff {used : Bytes}
    (hsplit : conn.inputBuffer_.contents ++ message.data = used ++ conn'.inputBuffer_.contents)
    (h : Aligned before tr conn) :
    Aligned (before ++ [message]) (tr ++ es) conn' ↔
      readStream ((requests tr).length, conn.context_.inHead) used =
        (.waiting, ((requests tr).length + (requests es).length, conn'.context_.inHead), []) := by
  obtain ⟨taken, hbytes, htaken⟩ := h
  have hall : bytes (before ++ [message]) = (taken ++ used) ++ conn'.inputBuffer_.contents := by
    rw [bytes_concat, hbytes, List.append_assoc, hsplit, List.append_assoc]
  have hread : readStream (0, false) (taken ++ used) =
      readStream ((requests tr).length, conn.context_.inHead) used := by
    have hfeed : readStream (0, false) (taken ++ used) =
        feed Buffer.kCRLF Buffer.kCRLF_ne_nil streamLine (readStream (0, false) taken) used :=
      read_append _ _ _ _ _ _
    rw [hfeed, htaken]
    rfl
  rw [← hread, ← List.length_append, ← requests_append]
  constructor
  · rintro ⟨taken', hbytes', htaken'⟩
    rw [hall, List.append_left_inj] at hbytes'
    rw [hbytes']
    exact htaken'
  · exact fun h => ⟨taken ++ used, hall, h⟩

/-- A step keeps the parser at the head that the stream is in exactly when it comes to
    no header line without a colon. -/
theorem aligned_step_iff (hreading : conn.context_.Reading) (hstep : Step conn message es conn')
    (h : Aligned before tr conn) :
    Aligned (before ++ [message]) (tr ++ es) conn' ↔
      ¬ Colonless conn.context_.inHead (conn.inputBuffer_.contents ++ message.data) := by
  obtain ⟨hrequests, hin, hcontents⟩ := position_of_step hreading hstep
  by_cases hcolonless :
      Colonless conn.context_.inHead (conn.inputBuffer_.contents ++ message.data)
  · obtain ⟨hfinished, used, hsplit, hread⟩ :=
      readLines_of_colonless hreading hcolonless message.receiveTime
    rw [← reading] at hfinished hsplit
    rw [← hcontents] at hsplit
    rw [aligned_append_iff hsplit h, hread, hrequests, if_pos hfinished]
    refine iff_of_false ?_ (not_not.mpr hcolonless)
    simp
  · have hhead := readHead_of_not_colonless hreading hcolonless message.receiveTime
    rw [← reading] at hhead
    obtain ⟨used, hsplit, hread⟩ := readStream_of_readHead conn.context_.inHead
      (conn.inputBuffer_.contents ++ message.data)
    rw [hhead] at hsplit hread
    rw [← hcontents] at hsplit
    rw [aligned_append_iff hsplit h, hread, hrequests, hin]
    exact iff_of_true rfl hcolonless

theorem aligned_fresh : Aligned [] [] fresh := ⟨[], rfl, read_nil⟩

/-- By induction over the messages: up to the first header line without a colon the
    parser is where the stream is. -/
theorem aligned_run (h : ∀ before message conn tr, before ++ [message] <+: messages →
      machine.exec fresh before = .ok (conn, tr) →
      ¬ Colonless conn.context_.inHead (conn.inputBuffer_.contents ++ message.data)) :
    ∃ conn tr, machine.exec fresh messages = .ok (conn, tr) ∧ conn.context_.Reading ∧
      Aligned messages tr conn := by
  induction messages using List.reverseRecOn with
  | nil => exact ⟨fresh, [], rfl, reading_new, aligned_fresh⟩
  | append_singleton messages message ih =>
    obtain ⟨conn, tr, hexec, hreading, haligned⟩ := ih fun before message' conn tr hfront =>
      h before message' conn tr (hfront.trans (List.prefix_append _ _))
    obtain ⟨es, conn', hgo, hstep⟩ := step_spec hreading message
    refine ⟨conn', tr ++ es, Machine.exec_concat hexec hgo, reading_of_step hreading hstep, ?_⟩
    rw [aligned_step_iff hreading hstep haligned]
    exact h messages message conn tr List.prefix_rfl hexec

theorem aligned_of_headsEnd (h : HeadsEndAtEmptyLines messages) (hfront : before <+: messages) :
    ∃ conn tr, machine.exec fresh before = .ok (conn, tr) ∧ Aligned before tr conn := by
  cases hcases : before using List.reverseRecOn with
  | nil => exact ⟨fresh, [], rfl, aligned_fresh⟩
  | append_singleton init message =>
    obtain ⟨conn, tr, conn', es, hexec, hgo, _, haligned⟩ := h init message (hcases ▸ hfront)
    exact ⟨conn', tr ++ es, Machine.exec_concat hexec hgo, haligned⟩

/-- Every head ends at its empty line, and every header line is read as a part of its
    own head, exactly when no message lets the parser come to a header line without a
    colon. -/
theorem heads_end_iff (messages : List HttpMessage) :
    HeadsEndAtEmptyLines messages ↔ ¬ MeetsColonless messages := by
  constructor
  · rintro h ⟨before, message, conn, tr, hfront, hexec, hcolonless⟩
    obtain ⟨conn', tr', hexec', haligned⟩ :=
      aligned_of_headsEnd h ((List.prefix_append _ _).trans hfront)
    obtain ⟨rfl, rfl⟩ := Machine.exec_unique hexec hexec'
    obtain ⟨conn', tr', conn'', es, hexec', hgo, _, haligned'⟩ := h before message hfront
    obtain ⟨rfl, rfl⟩ := Machine.exec_unique hexec hexec'
    obtain ⟨conn', tr', hexec', hreading⟩ := exec_goes_through before
    obtain ⟨rfl, rfl⟩ := Machine.exec_unique hexec hexec'
    have hstep := step_of_ok hreading hgo
    exact (aligned_step_iff hreading hstep haligned).mp haligned' hcolonless
  · intro h before message hfront
    have hnone : ∀ before message conn tr, before ++ [message] <+: messages →
        machine.exec fresh before = .ok (conn, tr) →
        ¬ Colonless conn.context_.inHead (conn.inputBuffer_.contents ++ message.data) :=
      fun before message conn tr hfront hexec hcolonless =>
        h ⟨before, message, conn, tr, hfront, hexec, hcolonless⟩
    have hinit : ∀ before' message' conn tr, before' ++ [message'] <+: before →
        machine.exec fresh before' = .ok (conn, tr) →
        ¬ Colonless conn.context_.inHead (conn.inputBuffer_.contents ++ message'.data) :=
      fun before' message' conn tr hfront' => hnone before' message' conn tr
        (hfront'.trans ((List.prefix_append _ _).trans hfront))
    obtain ⟨conn, tr, hexec, hreading, haligned⟩ := aligned_run hinit
    obtain ⟨es, conn', hgo, hstep⟩ := step_spec hreading message
    have hmessage := hnone before message conn tr hfront hexec
    exact ⟨conn, tr, conn', es, hexec, hgo, endsHead_of_not_colonless hreading hmessage,
      (aligned_step_iff hreading hstep haligned).mpr hmessage⟩

/-- A header line `foo` in front of the empty line. -/
def fooHead : Bytes :=
  rootLine ++ Buffer.kCRLF ++ (ascii ['f', 'o', 'o'] ++ Buffer.kCRLF ++ (Buffer.kCRLF ++ []))

/-- The head ends behind `foo`, and its empty line is left for the next request. -/
theorem heads_end_early : ¬ ∀ messages, HeadsEndAtEmptyLines messages := by
  intro hall
  obtain ⟨conn, tr, _, _, hexec, _, ⟨ok, context, buf, hparse, _, hleft⟩, _⟩ :=
    hall [chunk fooHead] [] (chunk fooHead) List.prefix_rfl
  obtain ⟨rfl, _⟩ := Machine.exec_unique (M := machine) rfl hexec
  have hlength : ((fresh.context_.parseRequest (fresh.inputBuffer_.append fooHead) 7).map
      (fun parsed => parsed.2.2.readableBytes)) = some 2 := by
    decide +kernel
  have hhead : (readHead fresh.context_.inHead
      (fresh.inputBuffer_.contents ++ (chunk fooHead).data)).2.2 = [] := by
    decide +kernel
  rw [hhead] at hleft
  have hzero : buf.readableBytes = 0 := by
    rw [← WfBuffer.length_contents, hleft]
    rfl
  have htwo : buf.readableBytes = 2 := by
    have hsome := hparse ▸ hlength
    exact Option.some.inj hsome
  omega

end HttpConnection

end TcpNet
