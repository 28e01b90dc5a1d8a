import TcpNet.Http.Context
import TcpNet.Library.LineReader

open LineReader

namespace TcpNet

namespace HttpContext

/-- The states in which `parseRequest` looks for a line. -/
def Reading (context : HttpContext) : Prop :=
  context.state_ = .kExpectRequestLine ∨ context.state_ = .kExpectRequestHead

instance (context : HttpContext) : Decidable context.Reading :=
  inferInstanceAs (Decidable (_ ∨ _))

/-- What `parseRequest` makes of one line. -/
def handleLine (receiveTime : Int) (context : HttpContext) (line : Bytes) :
    Verdict HttpContext :=
  match context.state_ with
  | .kExpectRequestLine =>
    let (ok, request) := processRequestLine context.request_ line
    if ok then .more ⟨.kExpectRequestHead, request.setReceiveTime receiveTime⟩
    else .refuse { context with request_ := request }
  | .kExpectRequestHead =>
    let colon := line.idxOf 58
    if colon ≠ line.length then
      .more { context with request_ := context.request_.addHeader line colon }
    else .last { context with state_ := .kGotAll }
  | .kExpectRequestBody | .kGotAll => .more context

/-- `parseRequest` on the bytes that a buffer holds. -/
def readLines (receiveTime : Int) (context : HttpContext) (bytes : Bytes) :
    Outcome × HttpContext × Bytes :=
  read Buffer.kCRLF Buffer.kCRLF_ne_nil (handleLine receiveTime) context bytes

variable {receiveTime : Int} {context context' : HttpContext} {bytes line : Bytes}

theorem reading_new : new.Reading := .inl rfl

theorem not_gotAll_of_reading (h : context.Reading) : context.gotAll = false := by
  rcases h with hline | hhead
  · rw [gotAll, hline]
    rfl
  · rw [gotAll, hhead]
    rfl

theorem reading_of_more (h : context.Reading)
    (hmore : handleLine receiveTime context line = .more context') : context'.Reading := by
  rcases h with hstate | hstate
  · simp only [handleLine, hstate] at hmore
    split at hmore
    · rw [Verdict.more.injEq] at hmore
      exact .inr (hmore ▸ rfl)
    · cases hmore
  · simp only [handleLine, hstate] at hmore
    split at hmore
    · rw [Verdict.more.injEq] at hmore
      exact .inr (hmore ▸ rfl)
    · cases hmore

theorem gotAll_of_last (h : context.Reading)
    (hlast : handleLine receiveTime context line = .last context') : context'.gotAll = true := by
  rcases h with hstate | hstate
  · simp only [handleLine, hstate] at hlast
    split at hlast <;> cases hlast
  · simp only [handleLine, hstate] at hlast
    split at hlast
    · cases hlast
    · rw [Verdict.last.injEq] at hlast
      rw [← hlast]
      rfl

theorem reading_of_refuse (h : context.Reading)
    (hrefuse : handleLine receiveTime context line = .refuse context') :
    context'.state_ = .kExpectRequestLine := by
  rcases h with hstate | hstate
  · simp only [handleLine, hstate] at hrefuse
    split at hrefuse
    · cases hrefuse
    · rw [Verdict.refuse.injEq] at hrefuse
      rw [← hrefuse]
  · simp only [handleLine, hstate] at hrefuse
    split at hrefuse <;> cases hrefuse

/-- A parser that did not get everything goes on reading, and gets everything
    only with the last line of a head. -/
theorem readLines_state (h : context.Reading) (receiveTime : Int) (bytes : Bytes) :
    ((readLines receiveTime context bytes).1 = .finished ↔
      (readLines receiveTime context bytes).2.1.gotAll = true) ∧
    ((readLines receiveTime context bytes).1 ≠ .finished →
      (readLines receiveTime context bytes).2.1.Reading) := by
  unfold readLines
  induction context, bytes using
      read_induction Buffer.kCRLF Buffer.kCRLF_ne_nil (handleLine receiveTime) with
  | hwaiting c v hcut =>
    simp only [not_gotAll_of_reading h, reduceCtorEq, Bool.false_eq_true, ne_eq, not_false_iff,
      forall_const, true_and]
    exact h
  | hlast c v line rest c' hcut hhandle =>
    simp only [gotAll_of_last h hhandle, ne_eq, not_true, false_implies, and_true]
  | hrefuse c v line rest c' hcut hhandle =>
    have hreading : c'.Reading := .inl (reading_of_refuse h hhandle)
    simp only [not_gotAll_of_reading hreading, reduceCtorEq, Bool.false_eq_true, ne_eq,
      not_false_iff, forall_const, true_and]
    exact hreading
  | hmore c v line rest c' hcut hhandle ih => exact ih (reading_of_more h hhandle)

section Loop

variable {p : Parsing} {rest : WfBuffer}

theorem parseStep_of_none (h : p.context.Reading) (hnone : p.buf.nextLine = none) :
    parseStep receiveTime p = { p with hasMore := false } := by
  rcases h with hstate | hstate
  · simp only [parseStep, hstate, hnone]
  · simp only [parseStep, hstate, hnone]

theorem parseStep_of_some (h : p.context.Reading) (hok : p.ok = true)
    (hline : p.buf.nextLine = some (line, rest)) :
    parseStep receiveTime p =
      match handleLine receiveTime p.context line with
      | .more context => ⟨true, p.hasMore, context, rest⟩
      | .last context => ⟨true, false, context, rest⟩
      | .refuse context => ⟨false, false, context, p.buf⟩ := by
  rcases h with hstate | hstate
  · simp only [parseStep, handleLine, hstate, hline]
    cases hresult : (processRequestLine p.context.request_ line).1
    · simp only [Bool.false_eq_true, if_false]
    · simp only [if_true]
  · simp only [parseStep, handleLine, hstate, hline]
    by_cases hcolon : line.idxOf 58 ≠ line.length
    · simp only [if_pos hcolon, hok]
    · simp only [if_neg hcolon, hok]

theorem loop_spec (hreading : context.Reading) (buf : WfBuffer) (fuel : Nat)
    (hfuel : buf.readableBytes + 2 ≤ fuel) :
    ∃ outcome context' buf',
      readLines receiveTime context buf.contents = (outcome, context', buf'.contents) ∧
      While.loop Parsing.hasMore (parseStep receiveTime) fuel ⟨true, true, context, buf⟩ =
        some ⟨outcome.ok, false, context', buf'⟩ := by
  induction hlength : buf.readableBytes using Nat.strongRecOn generalizing context buf fuel with
  | ind n ih =>
    obtain ⟨fuel, rfl⟩ := Nat.exists_eq_add_of_le' (Nat.le_trans (Nat.le_add_left 2 _) hfuel)
    have hcontents := buf.nextLine_contents
    rw [While.loop, if_pos rfl]
    cases hline : buf.nextLine with
    | none =>
      rw [hline] at hcontents
      refine ⟨.waiting, context, buf, read_of_none hcontents.symm, ?_⟩
      rw [parseStep_of_none hreading hline]
      rfl
    | some next =>
      obtain ⟨line, rest⟩ := next
      rw [hline] at hcontents
      have hcut : Search.cut Buffer.kCRLF buf.contents = some (line, rest.contents) :=
        hcontents.symm
      have hshort := length_lt_of_cut Buffer.kCRLF_ne_nil hcut
      rw [WfBuffer.length_contents, WfBuffer.length_contents] at hshort
      rw [parseStep_of_some hreading rfl hline, readLines, read_of_some hcut]
      cases hhandle : handleLine receiveTime context line with
      | more context' =>
        exact ih rest.readableBytes (by omega) (reading_of_more hreading hhandle) rest (fuel + 1)
          (by omega) rfl
      | last context' => exact ⟨.finished, context', rest, rfl, rfl⟩
      | refuse context' => exact ⟨.refused, context', buf, rfl, rfl⟩

end Loop

/-- `parseRequest` returns, and what it returns is the reading of the bytes that
    the buffer holds. -/
theorem parseRequest_spec (hreading : context.Reading) (buf : WfBuffer) (receiveTime : Int) :
    ∃ outcome context' buf',
      readLines receiveTime context buf.contents = (outcome, context', buf'.contents) ∧
      context.parseRequest buf receiveTime = some (outcome.ok, context', buf') := by
  obtain ⟨outcome, context', buf', hread, hloop⟩ :=
    loop_spec hreading buf _ (Nat.le_refl _)
  refine ⟨outcome, context', buf', hread, ?_⟩
  rw [parseRequest, hloop]
  rfl

/-- In the states behind the head the loop never ends. -/
theorem loop_of_not_reading (h : ¬ context.Reading) (buf : WfBuffer) (receiveTime : Int)
    (fuel : Nat) :
    While.loop Parsing.hasMore (parseStep receiveTime) fuel ⟨true, true, context, buf⟩ = none := by
  have hstay : ∀ p : Parsing, p.context = context → parseStep receiveTime p = p := by
    rintro p rfl
    cases hstate : p.context.state_ with
    | kExpectRequestLine => exact absurd (.inl hstate) h
    | kExpectRequestHead => exact absurd (.inr hstate) h
    | kExpectRequestBody => simp only [parseStep, hstate]
    | kGotAll => simp only [parseStep, hstate]
  exact While.loop_eq_none (fun p => p.context = context ∧ p.hasMore = true) ⟨rfl, rfl⟩
    (fun p hp => by rwa [hstay p hp.1]) (fun p hp => hp.2)

theorem parseRequest_of_not_reading (h : ¬ context.Reading) (buf : WfBuffer) (receiveTime : Int) :
    context.parseRequest buf receiveTime = none := by
  rw [parseRequest, loop_of_not_reading h]
  rfl

theorem parseRequest_eq_none_iff (buf : WfBuffer) (receiveTime : Int) :
    context.parseRequest buf receiveTime = none ↔ ¬ context.Reading := by
  constructor
  · intro hnone hreading
    obtain ⟨_, _, _, _, hsome⟩ := parseRequest_spec hreading buf receiveTime
    rw [hnone] at hsome
    cases hsome
  · exact fun h => parseRequest_of_not_reading h buf receiveTime

end HttpContext

end TcpNet
