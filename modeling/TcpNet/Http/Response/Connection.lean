import TcpNet.Http.Response.Reader
import TcpNet.Http.Server.Sequenced

open LineReader

namespace TcpNet

namespace Message

/-- A message whose headers do not say how long it is: the body lasts to the end of the
    stream. -/
def readLast (bytes : Bytes) : Option Message := do
  let (line, rest) ← Search.cut Buffer.kCRLF bytes
  let (statusCode, statusMessage) ← readStatusLine line
  match read Buffer.kCRLF Buffer.kCRLF_ne_nil readHeader ∅ rest with
  | (.finished, headers, rest) =>
    if headers[HttpResponse.kContentLength]? = none then
      return ⟨statusCode, statusMessage, headers.erase HttpResponse.kConnection, rest⟩
    else none
  | _ => none

/-- Message after message up to the end of a connection, the last of which may be one that
    only the end delimits. -/
def readUntilEnd : Nat → Bytes → Option (List Message)
  | _, [] => some []
  | 0, _ :: _ => none
  | fuel + 1, bytes =>
    match readMessage bytes with
    | some (message, rest) => (readUntilEnd fuel rest).map (message :: ·)
    | none => (readLast bytes).map ([·])

def readConnection (bytes : Bytes) : Option (List Message) := readUntilEnd bytes.length bytes

/-- What the answer to a request that cannot be parsed says. -/
def badRequest : Message :=
  ⟨400, ascii ['B', 'a', 'd', ' ', 'R', 'e', 'q', 'u', 'e', 's', 't'], ∅, []⟩

/-- The messages that a client should get: a response for each request up to the first that
    closes the connection, or up to a failure. -/
def due : List (Option HttpResponse) → List Message
  | [] => []
  | none :: _ => [badRequest]
  | some response :: rest => ofResponse response :: if response.closeConnection then [] else due rest

/-- A status line, header lines and a body, as a server writes them. -/
def text (code : Nat) (message : Bytes) (fields : List (Bytes × Bytes)) (body : Bytes) : Bytes :=
  (HttpResponse.kHttp11 ++ 32 :: decimal code ++ 32 :: message) ++ Buffer.kCRLF ++
    (fields.flatMap (fun field => HttpResponse.headerLine field ++ Buffer.kCRLF) ++
      Buffer.kCRLF ++ body)

section Encoding

variable {resp : HttpResponse}

/-- A response that closes the connection, with no end of line outside its body, and no
    header that says where it ends. -/
structure UntilClose (resp : HttpResponse) : Prop where
  closes : resp.closeConnection = true
  statusMessage : OneLine resp.statusMessage_
  headers : ∀ name value, resp.headers_[name]? = some value →
    OneLine name ∧ 58 ∉ name ∧ name ≠ HttpResponse.kContentLength ∧
      name ≠ HttpResponse.kConnection ∧ OneLine value

/-- A response that a client can delimit, by its length or by the end of the connection. -/
def Readable (resp : HttpResponse) : Prop := SelfDelimiting resp ∨ UntilClose resp

theorem serialise_close_eq (h : UntilClose resp) :
    resp.serialise = text resp.statusCode_.value resp.statusMessage_
      ((HttpResponse.kConnection, HttpResponse.kClose) :: resp.headers_.toList) resp.body_ := by
  have hcode : (decimal resp.statusCode_.value).length ≤ 3 :=
    length_decimal_le (by decide) (by cases resp.statusCode_ <;> decide)
  have hstatus : snprintf (HttpResponse.kHttp11 ++ 32 :: decimal resp.statusCode_.value ++ [32]) =
      HttpResponse.kHttp11 ++ 32 :: decimal resp.statusCode_.value ++ [32] := by
    refine snprintf_of_length ?_
    simp only [List.length_append, List.length_cons, HttpResponse.kHttp11, ascii, List.length_map,
      List.length_nil]
    omega
  have hclose : resp.closeConnection_ = true := h.closes
  simp only [HttpResponse.serialise, HttpResponse.appendTobuffer, WfBuffer.contents_append,
    HttpResponse.contents_appendHeaders, hclose, if_true, hstatus, WfBuffer.contents_new, text]
  simp only [List.nil_append, List.flatMap_cons, HttpResponse.headerLine, List.append_assoc,
    List.cons_append]

theorem kBadRequest_eq : HttpConnection.kBadRequest =
    text 400 (ascii ['B', 'a', 'd', ' ', 'R', 'e', 'q', 'u', 'e', 's', 't']) [] [] := by
  decide

end Encoding

section Decoding

variable {resp : HttpResponse} {message : Bytes} {fields : List (Bytes × Bytes)}

theorem oneLine_status (code : Nat) (hmessage : OneLine message) :
    OneLine (HttpResponse.kHttp11 ++ 32 :: decimal code ++ 32 :: message) := by
  have hversion : OneLine HttpResponse.kHttp11 := by decide
  have hcode : OneLine (decimal code) := ⟨notMem_decimal (by decide), notMem_decimal (by decide)⟩
  unfold OneLine
  simp only [List.mem_append, List.mem_cons, not_or]
  exact ⟨⟨⟨hversion.1, by decide, hcode.1⟩, by decide, hmessage.1⟩,
    ⟨⟨hversion.2, by decide, hcode.2⟩, by decide, hmessage.2⟩⟩

/-- Without a length among its headers, a text is the last message of its stream. -/
theorem readLast_text (code : Nat) (hmessage : OneLine message)
    (hfields : ∀ field ∈ fields, Field field)
    (hlength : (Headers.insertAll ∅ fields)[HttpResponse.kContentLength]? = none) (body : Bytes) :
    readMessage (text code message fields body) = none ∧
      readLast (text code message fields body) =
        some ⟨code, message, (Headers.insertAll ∅ fields).erase HttpResponse.kConnection, body⟩ := by
  have hcut := cut_line (oneLine_status code hmessage)
    (fields.flatMap (fun field => HttpResponse.headerLine field ++ Buffer.kCRLF) ++
      Buffer.kCRLF ++ body)
  have hread := read_headers hfields ∅ body
  constructor
  · rw [text, readMessage, hcut]
    simp only [Option.bind_eq_bind, Option.bind_some, readStatusLine_spec, readRest, hread, hlength,
      Option.bind_none]
  · rw [text, readLast, hcut]
    simp only [Option.bind_eq_bind, Option.bind_some, readStatusLine_spec, hread, hlength, if_true,
      Option.pure_def]

theorem UntilClose.field_of_mem (h : UntilClose resp) :
    ∀ field ∈ (HttpResponse.kConnection, HttpResponse.kClose) :: resp.headers_.toList,
      Field field := by
  intro field hfield
  rcases List.mem_cons.mp hfield with rfl | hfield
  · exact ⟨by decide, by decide, by decide⟩
  · have hentry := Std.ExtTreeMap.mem_toList_iff_getElem?_eq_some.mp hfield
    obtain ⟨hname, hcolon, _, _, hvalue⟩ := h.headers _ _ hentry
    exact ⟨hname, hcolon, hvalue⟩

/-- The headers of a response that closes the connection, by name. -/
theorem UntilClose.getElem?_fields (h : UntilClose resp) (name value : Bytes) :
    (Headers.insertAll ∅ ((HttpResponse.kConnection, HttpResponse.kClose) ::
        resp.headers_.toList))[name]? = some value ↔
      name = HttpResponse.kConnection ∧ value = HttpResponse.kClose ∨
        resp.headers_[name]? = some value := by
  have hnodup : (((HttpResponse.kConnection, HttpResponse.kClose) ::
      resp.headers_.toList).map Prod.fst).Nodup := by
    rw [List.map_cons, List.nodup_cons]
    refine ⟨?_, Headers.nodup_toList resp.headers_⟩
    intro hmem
    obtain ⟨field, hfield, hname⟩ := List.mem_map.mp hmem
    have hentry := Std.ExtTreeMap.mem_toList_iff_getElem?_eq_some.mp hfield
    obtain ⟨_, _, _, hconnection, _⟩ := h.headers _ _ hentry
    exact hconnection hname
  rw [Headers.getElem?_insertAll hnodup, List.mem_cons, Prod.mk.injEq,
    Std.ExtTreeMap.mem_toList_iff_getElem?_eq_some, Std.ExtTreeMap.getElem?_empty]
  simp

/-- A response that closes the connection is read as the last message of its stream. -/
theorem readLast_serialise (h : UntilClose resp) :
    readMessage resp.serialise = none ∧ readLast resp.serialise = some (ofResponse resp) := by
  have hlength : (Headers.insertAll ∅ ((HttpResponse.kConnection, HttpResponse.kClose) ::
      resp.headers_.toList))[HttpResponse.kContentLength]? = none := by
    rw [Option.eq_none_iff_forall_not_mem]
    intro value hvalue
    rcases (h.getElem?_fields _ _).mp hvalue with ⟨hname, _⟩ | hentry
    · exact absurd hname (by decide)
    · exact (h.headers _ _ hentry).2.2.1 rfl
  have hheaders : (Headers.insertAll ∅ ((HttpResponse.kConnection, HttpResponse.kClose) ::
      resp.headers_.toList)).erase HttpResponse.kConnection = resp.headers_ := by
    refine Std.ExtTreeMap.ext_getElem? fun name => Option.ext fun value => ?_
    rw [Std.ExtTreeMap.getElem?_erase]
    simp only [Std.compare_eq_iff_eq]
    by_cases hname : HttpResponse.kConnection = name
    · subst hname
      rw [if_pos rfl]
      exact iff_of_false nofun fun hentry => (h.headers _ _ hentry).2.2.2.1 rfl
    · rw [if_neg hname, h.getElem?_fields]
      exact or_iff_right fun hconnection => hname hconnection.1.symm
  obtain ⟨hnone, hlast⟩ := readLast_text resp.statusCode_.value h.statusMessage
    h.field_of_mem hlength resp.body_
  rw [serialise_close_eq h, hlast, hheaders]
  exact ⟨hnone, rfl⟩

theorem readLast_kBadRequest :
    readMessage HttpConnection.kBadRequest = none ∧
      readLast HttpConnection.kBadRequest = some badRequest := by
  have hmessage : OneLine (ascii ['B', 'a', 'd', ' ', 'R', 'e', 'q', 'u', 'e', 's', 't']) := by
    decide
  have hlength : (Headers.insertAll ∅ [])[HttpResponse.kContentLength]? = none := by
    simp [Headers.insertAll]
  have herase : (Headers.insertAll ∅ []).erase HttpResponse.kConnection = ∅ := by
    simp [Headers.insertAll]
  obtain ⟨hnone, hlast⟩ := readLast_text 400 hmessage (by simp) hlength []
  rw [kBadRequest_eq, hlast, herase]
  exact ⟨hnone, rfl⟩

/-- The last message of a connection, when it is none that its length delimits. -/
theorem readUntilEnd_last {bytes : Bytes} {message : Message} (hbytes : bytes ≠ [])
    (hnone : readMessage bytes = none) (hlast : readLast bytes = some message) {fuel : Nat}
    (hfuel : bytes.length ≤ fuel) : readUntilEnd fuel bytes = some [message] := by
  have hpos := List.length_pos_of_ne_nil hbytes
  obtain ⟨fuel, rfl⟩ := Nat.exists_eq_add_one_of_ne_zero (by omega : fuel ≠ 0)
  rw [readUntilEnd]
  · rw [hnone, hlast]
    rfl
  · exact hbytes

/-- A client that reads up to the end of the connection recovers what is due, by induction over
    what came of the requests. -/
theorem readConnection_expected {outcomes : List (Option HttpResponse)}
    (h : ∀ resp, some resp ∈ outcomes → Readable resp) :
    readConnection (HttpEvent.expected outcomes).flatten = some (due outcomes) := by
  have hread : ∀ fuel, (HttpEvent.expected outcomes).flatten.length ≤ fuel →
      readUntilEnd fuel (HttpEvent.expected outcomes).flatten = some (due outcomes) := by
    induction outcomes with
    | nil =>
      intro fuel _
      cases fuel <;> rfl
    | cons outcome outcomes ih =>
      intro fuel hfuel
      cases outcome with
      | none =>
        rw [HttpEvent.expected, List.flatten_singleton] at hfuel ⊢
        exact readUntilEnd_last (by decide) readLast_kBadRequest.1 readLast_kBadRequest.2 hfuel
      | some resp =>
        rw [HttpEvent.expected, List.flatten_cons] at hfuel ⊢
        rcases h resp List.mem_cons_self with hself | hclose
        · have hpos := length_serialise_pos hself
          rw [List.length_append] at hfuel
          have hkeeps : ¬ resp.closeConnection = true := by
            rw [hself.keepAlive]
            exact Bool.false_ne_true
          rw [if_neg hkeeps] at hfuel ⊢
          obtain ⟨fuel, rfl⟩ := Nat.exists_eq_add_one_of_ne_zero (by omega : fuel ≠ 0)
          have hrest := ih (fun resp' hresp' => h resp' (List.mem_cons_of_mem _ hresp')) fuel
            (by omega)
          rw [readUntilEnd]
          · rw [readMessage_serialise hself, due, if_neg hkeeps]
            simp only [hrest, Option.map_some]
          · intro hnil
            rw [List.append_eq_nil_iff] at hnil
            rw [hnil.1] at hpos
            exact Nat.lt_irrefl 0 hpos
        · rw [if_pos hclose.closes, List.flatten_nil, List.append_nil] at hfuel ⊢
          obtain ⟨hnone, hlast⟩ := readLast_serialise hclose
          have hsome : resp.serialise ≠ [] := by
            intro hnil
            rw [hnil] at hlast
            cases hlast
          rw [due, if_pos hclose.closes]
          exact readUntilEnd_last hsome hnone hlast hfuel
  exact hread _ (Nat.le_refl _)

end Decoding

end Message

end TcpNet
