import TcpNet.Http.Response
import TcpNet.Library.LineReader
import Mathlib.Algebra.Group.Nat.Defs

open LineReader

namespace TcpNet

/-- A response as the reader of a stream recovers it. -/
structure Message where
  statusCode : Nat
  statusMessage : Bytes
  headers : Headers
  body : Bytes

namespace Message

/-- The number that a text of decimal digits stands for. -/
def readDecimal (text : Bytes) : Option Nat :=
  if text ≠ [] ∧ text.all (fun c => 48 ≤ c ∧ c ≤ 57) then
    some (text.foldl (fun n c => 10 * n + (c.toNat - 48)) 0)
  else none

/-- The code and the message behind the first and the second space of a line. -/
def readStatusLine (line : Bytes) : Option (Nat × Bytes) := do
  let (_version, rest) ← Search.cut [32] line
  let (code, message) ← Search.cut [32] rest
  let code ← readDecimal code
  return (code, message)

/-- Enter a header line into the map. The first empty line is the last. -/
def readHeader (headers : Headers) (line : Bytes) : Verdict Headers :=
  if line = [] then .last headers
  else
    match Search.cut HttpResponse.kColon line with
    | some (name, value) => .more (headers.insert name value)
    | none => .refuse headers

/-- The headers of a message, less the two that frame it, and as many bytes of a
    body as the headers say. -/
def readRest (statusCode : Nat) (statusMessage : Bytes) (bytes : Bytes) :
    Option (Message × Bytes) :=
  match read Buffer.kCRLF Buffer.kCRLF_ne_nil readHeader ∅ bytes with
  | (.finished, headers, rest) => do
    let text ← headers[HttpResponse.kContentLength]?
    let length ← readDecimal text
    if rest.length < length then none
    else
      let headers := (headers.erase HttpResponse.kContentLength).erase HttpResponse.kConnection
      return (⟨statusCode, statusMessage, headers, rest.take length⟩, rest.drop length)
  | _ => none

/-- One message from the front of a stream, and what stands behind it. -/
def readMessage (bytes : Bytes) : Option (Message × Bytes) := do
  let (line, rest) ← Search.cut Buffer.kCRLF bytes
  let (statusCode, statusMessage) ← readStatusLine line
  readRest statusCode statusMessage rest

/-- Message after message, up to the end of the stream. Every message takes a byte
    at least, so that the length of the stream is fuel enough. -/
def readMessages : Nat → Bytes → Option (List Message)
  | _, [] => some []
  | 0, _ :: _ => none
  | fuel + 1, bytes => do
    let (message, rest) ← readMessage bytes
    let messages ← readMessages fuel rest
    return message :: messages

def readStream (bytes : Bytes) : Option (List Message) := readMessages bytes.length bytes

/-- What the reader should recover of a response. -/
def ofResponse (resp : HttpResponse) : Message :=
  ⟨resp.statusCode_.value, resp.statusMessage_, resp.headers_, resp.body_⟩

/-- A number is read as it was written. -/
theorem readDecimal_decimal (n : Nat) : readDecimal (decimal n) = some n := by
  have hdigits : (decimal n).all (fun c => 48 ≤ c ∧ c ≤ 57) = true :=
    List.all_eq_true.mpr fun c hc => decide_eq_true (digit_of_mem_decimal hc)
  rw [readDecimal, if_pos ⟨decimal_ne_nil n, hdigits⟩, foldl_decimal]

section Encoding

variable {resp : HttpResponse}

/-- A response that keeps the connection, with no end of line outside its body,
    and no header that frames it by another length. -/
structure SelfDelimiting (resp : HttpResponse) : Prop where
  keepAlive : resp.closeConnection = false
  statusMessage : OneLine resp.statusMessage_
  headers : ∀ name value, resp.headers_[name]? = some value →
    OneLine name ∧ 58 ∉ name ∧ name ≠ HttpResponse.kContentLength ∧
      name ≠ HttpResponse.kConnection ∧ OneLine value
  body : resp.body_.length < 10 ^ 13

theorem snprintf_of_length {text : Bytes} (h : text.length ≤ 31) : snprintf text = text :=
  List.take_of_length_le h

/-- The buffer of 32 characters is large enough for a status line and for a length
    of 13 digits, so that nothing is cut off. -/
theorem serialise_eq (h : SelfDelimiting resp) :
    resp.serialise =
      (HttpResponse.kHttp11 ++ 32 :: decimal resp.statusCode_.value ++ 32 :: resp.statusMessage_) ++
        Buffer.kCRLF ++
      (((HttpResponse.kContentLength, decimal resp.body_.length) ::
          (HttpResponse.kConnection, HttpResponse.kKeepAlive) :: resp.headers_.toList).flatMap
        (fun header => HttpResponse.headerLine header ++ Buffer.kCRLF) ++
        Buffer.kCRLF ++ resp.body_) := by
  have hcode : (decimal resp.statusCode_.value).length ≤ 3 :=
    length_decimal_le (by decide) (by cases resp.statusCode_ <;> decide)
  have hlength : (decimal resp.body_.length).length ≤ 13 := length_decimal_le (by decide) h.body
  have hstatus : snprintf (HttpResponse.kHttp11 ++ 32 :: decimal resp.statusCode_.value ++ [32]) =
      HttpResponse.kHttp11 ++ 32 :: decimal resp.statusCode_.value ++ [32] := by
    refine snprintf_of_length ?_
    simp only [List.length_append, List.length_cons, HttpResponse.kHttp11, ascii, List.length_map,
      List.length_nil]
    omega
  have hbody : snprintf (HttpResponse.kContentLength ++ HttpResponse.kColon ++
      decimal resp.body_.length ++ Buffer.kCRLF) =
      HttpResponse.kContentLength ++ HttpResponse.kColon ++ decimal resp.body_.length ++
        Buffer.kCRLF := by
    refine snprintf_of_length ?_
    simp only [List.length_append, List.length_cons, HttpResponse.kContentLength,
      HttpResponse.kColon, Buffer.kCRLF, ascii, List.length_map, List.length_nil]
    omega
  have hclose : resp.closeConnection_ = false := h.keepAlive
  simp only [HttpResponse.serialise, HttpResponse.appendTobuffer, WfBuffer.contents_append,
    HttpResponse.contents_appendHeaders, hclose, Bool.false_eq_true, if_false, hstatus, hbody,
    WfBuffer.contents_new]
  simp only [List.nil_append, List.flatMap_cons, HttpResponse.headerLine, List.append_assoc,
    List.cons_append]

end Encoding

section Decoding

theorem cut_space {word : Bytes} (h : 32 ∉ word) (rest : Bytes) :
    Search.cut [32] (word ++ 32 :: rest) = some (word, rest) := by
  have hcut := Search.cut_cons_append (p := []) h rest
  rwa [List.append_assoc] at hcut

/-- A status line is read as it was written. -/
theorem readStatusLine_spec (code : Nat) (message : Bytes) :
    readStatusLine (HttpResponse.kHttp11 ++ 32 :: decimal code ++ 32 :: message) =
      some (code, message) := by
  have hversion : (32 : Byte) ∉ HttpResponse.kHttp11 := by decide
  have hcode : (32 : Byte) ∉ decimal code := notMem_decimal (by decide)
  rw [List.append_assoc, List.cons_append, readStatusLine]
  simp only [cut_space hversion, cut_space hcode, readDecimal_decimal, Option.bind_eq_bind,
    Option.bind_some, Option.pure_def]

/-- The characters of a header that its reader will find again. -/
def Field (header : Bytes × Bytes) : Prop :=
  OneLine header.1 ∧ 58 ∉ header.1 ∧ OneLine header.2

theorem readHeader_headerLine {header : Bytes × Bytes} (h : Field header) (headers : Headers) :
    readHeader headers (HttpResponse.headerLine header) =
      .more (headers.insert header.1 header.2) := by
  have hne : HttpResponse.headerLine header ≠ [] := by
    have hcolon : HttpResponse.kColon ≠ [] := by decide
    simp [HttpResponse.headerLine, hcolon]
  have hcut : Search.cut HttpResponse.kColon (HttpResponse.headerLine header) =
      some (header.1, header.2) := Search.cut_cons_append h.2.1 header.2
  simp only [readHeader, if_neg hne, hcut]

theorem oneLine_headerLine {header : Bytes × Bytes} (h : Field header) :
    OneLine (HttpResponse.headerLine header) := by
  obtain ⟨hname, _, hvalue⟩ := h
  have hcolon : OneLine HttpResponse.kColon := by decide
  unfold OneLine HttpResponse.headerLine
  simp only [List.mem_append, not_or]
  exact ⟨⟨⟨hname.1, hcolon.1⟩, hvalue.1⟩, ⟨⟨hname.2, hcolon.2⟩, hvalue.2⟩⟩

/-- The header lines are read up to the empty line, by induction over the headers;
    the bytes of the body are not looked at. -/
theorem read_headers {fields : List (Bytes × Bytes)} (hfields : ∀ field ∈ fields, Field field)
    (headers : Headers) (rest : Bytes) :
    read Buffer.kCRLF Buffer.kCRLF_ne_nil readHeader headers
        (fields.flatMap (fun field => HttpResponse.headerLine field ++ Buffer.kCRLF) ++
          Buffer.kCRLF ++ rest) =
      (.finished, headers.insertAll fields, rest) := by
  induction fields generalizing headers with
  | nil =>
    have hcut : Search.cut Buffer.kCRLF (Buffer.kCRLF ++ rest) = some ([], rest) :=
      cut_line (by decide : OneLine []) rest
    rw [List.flatMap_nil, List.nil_append, read_of_some hcut]
    rfl
  | cons field fields ih =>
    have hfield := hfields field List.mem_cons_self
    rw [List.flatMap_cons, List.append_assoc, List.append_assoc,
      read_of_some (cut_line (oneLine_headerLine hfield) _), readHeader_headerLine hfield,
      ← List.append_assoc]
    exact ih (fun field' hfield' => hfields field' (List.mem_cons_of_mem field hfield')) _

variable {resp : HttpResponse}

theorem field_of_mem (h : SelfDelimiting resp) :
    ∀ field ∈ (HttpResponse.kContentLength, decimal resp.body_.length) ::
      (HttpResponse.kConnection, HttpResponse.kKeepAlive) :: resp.headers_.toList, Field field := by
  have hdecimal : OneLine (decimal resp.body_.length) :=
    ⟨notMem_decimal (by decide), notMem_decimal (by decide)⟩
  intro field hfield
  rcases List.mem_cons.mp hfield with rfl | hfield
  · have hname : OneLine HttpResponse.kContentLength ∧ 58 ∉ HttpResponse.kContentLength := by
      decide
    exact ⟨hname.1, hname.2, hdecimal⟩
  rcases List.mem_cons.mp hfield with rfl | hfield
  · exact ⟨by decide, by decide, by decide⟩
  · have hentry := Std.ExtTreeMap.mem_toList_iff_getElem?_eq_some.mp hfield
    obtain ⟨hname, hcolon, _, _, hvalue⟩ := h.headers _ _ hentry
    exact ⟨hname, hcolon, hvalue⟩

theorem nodup_fields (h : SelfDelimiting resp) :
    (((HttpResponse.kContentLength, decimal resp.body_.length) ::
      (HttpResponse.kConnection, HttpResponse.kKeepAlive) :: resp.headers_.toList).map
        Prod.fst).Nodup := by
  have hother : ∀ field ∈ resp.headers_.toList,
      field.1 ≠ HttpResponse.kContentLength ∧ field.1 ≠ HttpResponse.kConnection := by
    intro field hfield
    have hentry := Std.ExtTreeMap.mem_toList_iff_getElem?_eq_some.mp hfield
    obtain ⟨_, _, hlength, hconnection, _⟩ := h.headers _ _ hentry
    exact ⟨hlength, hconnection⟩
  have hdistinct : HttpResponse.kContentLength ≠ HttpResponse.kConnection := by decide
  simp only [List.map_cons, List.nodup_cons, List.mem_cons, not_or, List.mem_map, not_exists,
    not_and]
  exact ⟨⟨hdistinct, fun field hfield => (hother field hfield).1⟩,
    fun field hfield => (hother field hfield).2, Headers.nodup_toList resp.headers_⟩

/-- Without the two headers that frame it, a response has its own headers. -/
theorem erase_fields (h : SelfDelimiting resp) :
    ((Headers.insertAll ∅ ((HttpResponse.kContentLength, decimal resp.body_.length) ::
      (HttpResponse.kConnection, HttpResponse.kKeepAlive) :: resp.headers_.toList)).erase
        HttpResponse.kContentLength).erase HttpResponse.kConnection = resp.headers_ := by
  refine Std.ExtTreeMap.ext_getElem? fun name => Option.ext fun value => ?_
  rw [Std.ExtTreeMap.getElem?_erase, Std.ExtTreeMap.getElem?_erase]
  simp only [Std.compare_eq_iff_eq]
  by_cases hframing : HttpResponse.kConnection = name ∨ HttpResponse.kContentLength = name
  · have hnone : ¬ resp.headers_[name]? = some value := by
      intro hentry
      obtain ⟨_, _, hlength, hconnection, _⟩ := h.headers _ _ hentry
      rcases hframing with rfl | rfl
      · exact hconnection rfl
      · exact hlength rfl
    rcases hframing with hname | hname <;> simp [hname, hnone]
  · rw [not_or] at hframing
    obtain ⟨hconnection, hlength⟩ := hframing
    rw [if_neg hconnection, if_neg hlength, Headers.getElem?_insertAll (nodup_fields h)]
    simp only [List.mem_cons, Prod.mk.injEq, eq_comm (a := name), hconnection, hlength, false_and,
      false_or, Std.ExtTreeMap.mem_toList_iff_getElem?_eq_some, Std.ExtTreeMap.getElem?_empty,
      reduceCtorEq, and_false, or_false]

theorem contentLength_fields (h : SelfDelimiting resp) :
    (Headers.insertAll ∅ ((HttpResponse.kContentLength, decimal resp.body_.length) ::
      (HttpResponse.kConnection, HttpResponse.kKeepAlive) :: resp.headers_.toList))[
        HttpResponse.kContentLength]? = some (decimal resp.body_.length) := by
  rw [Headers.getElem?_insertAll (nodup_fields h)]
  exact .inl List.mem_cons_self

/-- One response is recovered from the front of a stream, whatever its body looks
    like and whatever stands behind it. -/
theorem readMessage_serialise (h : SelfDelimiting resp) (rest : Bytes) :
    readMessage (resp.serialise ++ rest) = some (ofResponse resp, rest) := by
  have hstatus : OneLine (HttpResponse.kHttp11 ++
      32 :: decimal resp.statusCode_.value ++ 32 :: resp.statusMessage_) := by
    have hversion : OneLine HttpResponse.kHttp11 := by decide
    have hcode : OneLine (decimal resp.statusCode_.value) :=
      ⟨notMem_decimal (by decide), notMem_decimal (by decide)⟩
    unfold OneLine
    simp only [List.mem_append, List.mem_cons, not_or]
    exact ⟨⟨⟨hversion.1, by decide, hcode.1⟩, by decide, h.statusMessage.1⟩,
      ⟨⟨hversion.2, by decide, hcode.2⟩, by decide, h.statusMessage.2⟩⟩
  have hshort : ¬ (resp.body_ ++ rest).length < resp.body_.length := by
    rw [List.length_append]
    omega
  rw [serialise_eq h, List.append_assoc, readMessage, cut_line hstatus]
  simp only [Option.bind_eq_bind, Option.bind_some, readStatusLine_spec]
  rw [List.append_assoc, readRest, read_headers (field_of_mem h)]
  simp only [contentLength_fields h, Option.bind_eq_bind, Option.bind_some, readDecimal_decimal,
    if_neg hshort, erase_fields h, List.take_left, List.drop_left, Option.pure_def, ofResponse]

theorem length_serialise_pos (h : SelfDelimiting resp) : 0 < resp.serialise.length := by
  rw [serialise_eq h]
  simp only [List.length_append, List.length_cons]
  omega

/-- Keep-alive responses are self-delimiting: the reader of their stream recovers
    them in order, and nothing is left over. -/
theorem readStream_responses {responses : List HttpResponse}
    (h : ∀ resp ∈ responses, SelfDelimiting resp) :
    readStream (responses.flatMap HttpResponse.serialise) = some (responses.map ofResponse) := by
  have hread : ∀ fuel, (responses.flatMap HttpResponse.serialise).length ≤ fuel →
      readMessages fuel (responses.flatMap HttpResponse.serialise) =
        some (responses.map ofResponse) := by
    induction responses with
    | nil =>
      intro fuel _
      cases fuel <;> rfl
    | cons resp responses ih =>
      intro fuel hfuel
      have hresp := h resp List.mem_cons_self
      have hpos := length_serialise_pos hresp
      rw [List.flatMap_cons, List.length_append] at hfuel
      obtain ⟨fuel, rfl⟩ := Nat.exists_eq_add_one_of_ne_zero (by omega : fuel ≠ 0)
      have hrest := ih (fun resp' hresp' => h resp' (List.mem_cons_of_mem resp hresp')) fuel
        (by omega)
      rw [List.flatMap_cons, readMessages]
      · rw [readMessage_serialise hresp]
        simp only [Option.bind_eq_bind, Option.bind_some, hrest, Option.pure_def, List.map_cons]
      · intro hnil
        rw [List.append_eq_nil_iff] at hnil
        rw [hnil.1] at hpos
        exact Nat.lt_irrefl 0 hpos
  exact hread _ (Nat.le_refl _)

/-- A response with one header, and a body that looks like the end of a head. -/
def blankResponse : HttpResponse :=
  ((((HttpResponse.new false).setStatusCode .k200OK).setStatusMessage (ascii ['O', 'K'])).addHeader
    (ascii ['s', 'e', 'r', 'v', 'e', 'r']) (ascii ['t', 'x', 'h'])).setBody
      (Buffer.kCRLF ++ Buffer.kCRLF)

theorem selfDelimiting_blank : SelfDelimiting blankResponse where
  keepAlive := rfl
  statusMessage := by decide
  headers := by
    intro name value hentry
    have hinsert : (Headers.insertAll ∅ [(ascii ['s', 'e', 'r', 'v', 'e', 'r'],
      ascii ['t', 'x', 'h'])])[name]? = some value := hentry
    rw [Headers.getElem?_insertAll (by decide), List.mem_singleton, Prod.mk.injEq,
      Std.ExtTreeMap.getElem?_empty] at hinsert
    rcases hinsert with ⟨rfl, rfl⟩ | ⟨_, hnone⟩
    · decide
    · cases hnone
  body := by decide

theorem readStream_responses_blank :
    readStream ([blankResponse, HttpResponse.new false].flatMap HttpResponse.serialise) =
      some ([blankResponse, HttpResponse.new false].map ofResponse) := by
  refine readStream_responses fun resp hresp => ?_
  rcases List.mem_cons.mp hresp with rfl | hresp
  · exact selfDelimiting_blank
  · rw [List.mem_singleton] at hresp
    subst hresp
    exact ⟨rfl, by decide, fun name value hentry => by simp [HttpResponse.new] at hentry, by decide⟩

end Decoding

end Message

end TcpNet
