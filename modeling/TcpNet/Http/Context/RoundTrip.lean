import TcpNet.Http.Context.Lines

open LineReader

namespace TcpNet

/-- A request as a client writes it: the words of its first line, and for every
    header the name and all that stands behind the colon. -/
structure RequestText where
  method : Method
  path : Bytes
  query : Bytes
  version : Version
  fields : List (Bytes × Bytes)
  deriving DecidableEq

namespace RequestText

def versionText : Version → Bytes
  | .kHttp10 => ascii ['H', 'T', 'T', 'P', '/', '1', '.', '0']
  | .kHttp11 => ascii ['H', 'T', 'T', 'P', '/', '1', '.', '1']
  | .kUnknow => []

/-- A known method and version, a path up to the first question mark, a query from
    it on, and no separator inside a word. -/
structure WellFormed (text : RequestText) : Prop where
  method : text.method ≠ .kInvaild
  version : text.version ≠ .kUnknow
  path : OneLine text.path ∧ 32 ∉ text.path ∧ 63 ∉ text.path
  query : OneLine text.query ∧ 32 ∉ text.query ∧ (text.query = [] ∨ text.query.head? = some 63)
  fields : ∀ field ∈ text.fields, OneLine field.1 ∧ 58 ∉ field.1 ∧ OneLine field.2

instance (text : RequestText) : Decidable text.WellFormed :=
  decidable_of_iff
    (text.method ≠ .kInvaild ∧ text.version ≠ .kUnknow ∧
      (OneLine text.path ∧ 32 ∉ text.path ∧ 63 ∉ text.path) ∧
      (OneLine text.query ∧ 32 ∉ text.query ∧ (text.query = [] ∨ text.query.head? = some 63)) ∧
      ∀ field ∈ text.fields, OneLine field.1 ∧ 58 ∉ field.1 ∧ OneLine field.2)
    ⟨fun ⟨h1, h2, h3, h4, h5⟩ => ⟨h1, h2, h3, h4, h5⟩, fun h => ⟨h.1, h.2, h.3, h.4, h.5⟩⟩

/-- The request without its headers that the first line stands for. -/
def requestOf (text : RequestText) (receiveTime : Int) : HttpRequest where
  method_ := text.method
  version_ := text.version
  path_ := text.path
  query_ := text.query
  receiveTime_ := receiveTime
  headers_ := ∅

/-- The three words of a request line, with a space between them. -/
def words (method : Method) (target : Bytes) (version : Version) : Bytes :=
  HttpRequest.methodToString { HttpRequest.new with method_ := method } ++
    32 :: (target ++ 32 :: versionText version)

def requestLine (text : RequestText) : Bytes :=
  (text.requestOf 0).methodToString ++
    32 :: (text.path ++ text.query ++ 32 :: versionText text.version)

def headerLine (field : Bytes × Bytes) : Bytes := field.1 ++ 58 :: field.2

def renderFields (fields : List (Bytes × Bytes)) : Bytes :=
  fields.flatMap (fun field => headerLine field ++ Buffer.kCRLF) ++ Buffer.kCRLF

/-- The bytes of the request on the wire. -/
def render (text : RequestText) : Bytes :=
  text.requestLine ++ Buffer.kCRLF ++ renderFields text.fields

/-- The headers of the lines, with the spaces around their values taken off. -/
def trimmed (fields : List (Bytes × Bytes)) : List (Bytes × Bytes) :=
  fields.map fun field => (field.1, HttpRequest.trim field.2)

/-- The request that the text stands for. -/
def request (text : RequestText) (receiveTime : Int) : HttpRequest :=
  { text.requestOf receiveTime with headers_ := Headers.insertAll ∅ (trimmed text.fields) }

end RequestText

namespace HttpContext

open RequestText

variable {text : RequestText}

theorem methodOf_methodToString {request : HttpRequest} (h : request.method_ ≠ .kInvaild) :
    HttpRequest.methodOf request.methodToString = request.method_ := by
  unfold HttpRequest.methodToString
  cases hmethod : request.method_ with
  | kInvaild => exact absurd hmethod h
  | kGet => decide
  | kPost => decide
  | kHead => decide
  | kPut => decide
  | kDelete => decide

theorem space_notMem_methodToString (request : HttpRequest) : 32 ∉ request.methodToString := by
  unfold HttpRequest.methodToString
  cases request.method_ <;> decide

theorem idxOf_append_cons {a : Byte} {line : Bytes} (h : a ∉ line) (rest : Bytes) :
    (line ++ a :: rest).idxOf a = line.length := by
  rw [List.idxOf_append_of_notMem h, List.idxOf_cons_self, Nat.add_zero]

theorem setUrl_spec (h : text.WellFormed) (request : HttpRequest) (hquery : request.query_ = []) :
    setUrl request (text.path ++ text.query) =
      { request with path_ := text.path, query_ := text.query } := by
  obtain ⟨_, _, hquestion⟩ := h.path
  obtain ⟨_, _, hnone | hsome⟩ := h.query
  · have hidx : text.path.idxOf 63 = text.path.length := List.idxOf_of_notMem hquestion
    rw [hnone, List.append_nil, ← hquery]
    simp only [setUrl, hidx, ne_eq, not_true, if_false, HttpRequest.setPath]
  · obtain ⟨rest, hrest⟩ := List.head?_eq_some_iff.mp hsome
    have hidx : (text.path ++ text.query).idxOf 63 = text.path.length := by
      rw [hrest]
      exact idxOf_append_cons hquestion rest
    have hlength : text.path.length ≠ (text.path ++ text.query).length := by
      rw [hrest, List.length_append, List.length_cons]
      omega
    simp only [setUrl, hidx, if_pos hlength, List.take_left, List.drop_left, HttpRequest.setPath,
      HttpRequest.setQuery]

theorem processVersion_spec {version : Version} (h : version ≠ .kUnknow) (request : HttpRequest) :
    processVersion request (versionText version) =
      (true, { request with version_ := version }) := by
  cases version with
  | kUnknow => exact absurd rfl h
  | kHttp10 => rfl
  | kHttp11 => rfl

/-- A first line is read as it was written, up to the query of an earlier one. -/
theorem processRequestLine_words {method : Method} {target : Bytes} {version : Version}
    (hmethod : method ≠ .kInvaild) (htarget : 32 ∉ target) (hversion : version ≠ .kUnknow)
    (request : HttpRequest) :
    processRequestLine request (words method target version) =
      (true, { setUrl { request with method_ := method } target with version_ := version }) := by
  set word := (HttpRequest.methodToString { HttpRequest.new with method_ := method }) with hword
  set line := words method target version with hwords
  have hline : line = word ++ 32 :: (target ++ 32 :: versionText version) := rfl
  have hspace : line.idxOf 32 = word.length := idxOf_append_cons (space_notMem_methodToString _) _
  have hlength : line.length = word.length + target.length + 10 := by
    have height : (versionText version).length = 8 := by
      cases version with
      | kUnknow => exact absurd rfl hversion
      | kHttp10 => rfl
      | kHttp11 => rfl
    simp only [hline, List.length_append, List.length_cons, height]
    omega
  have hset : request.setMethod (line.take word.length) =
      (true, { request with method_ := method }) := by
    have hknown : HttpRequest.methodOf word = method := methodOf_methodToString hmethod
    rw [hline, List.take_left, HttpRequest.setMethod, hknown]
    simp only [ne_eq, hmethod, not_false_iff, decide_true]
  have hrest : line.drop (word.length + 1) = target ++ 32 :: versionText version := by
    rw [hline, ← List.drop_drop, List.drop_left]
    rfl
  have hsecond : (line.drop (word.length + 1)).idxOf 32 = target.length := by
    rw [hrest]
    exact idxOf_append_cons htarget _
  have hslice : Memory.slice line (word.length + 1) (word.length + 1 + target.length) = target := by
    rw [Memory.slice, hrest, Nat.add_sub_cancel_left, List.take_left]
  have hthird : line.drop (word.length + 1 + target.length + 1) = versionText version := by
    rw [Nat.add_assoc, ← List.drop_drop, hrest, ← List.drop_drop, List.drop_left]
    rfl
  have hfirst : word.length ≠ line.length := by omega
  have hlast : word.length + 1 + target.length < line.length := by omega
  simp only [processRequestLine, hspace, if_pos hfirst, hset, if_true, hsecond, if_pos hlast,
    hslice, hthird]
  exact processVersion_spec hversion _

theorem processRequestLine_spec (h : text.WellFormed) :
    processRequestLine .new text.requestLine = (true, text.requestOf 0) := by
  have htarget : 32 ∉ text.path ++ text.query := by
    rw [List.mem_append, not_or]
    exact ⟨h.path.2.1, h.query.2.1⟩
  have hline := processRequestLine_words h.method htarget h.version .new
  rw [setUrl_spec h _ rfl] at hline
  exact hline

/-- A header line is entered under its name, with its value trimmed. -/
theorem handleLine_headerLine {context : HttpContext} {field : Bytes × Bytes}
    (hstate : context.state_ = .kExpectRequestHead) (hname : 58 ∉ field.1) (receiveTime : Int) :
    handleLine receiveTime context (headerLine field) =
      .more { context with request_ := { context.request_ with
        headers_ := context.request_.headers_.insert field.1 (HttpRequest.trim field.2) } } := by
  have hcolon : (headerLine field).idxOf 58 = field.1.length := idxOf_append_cons hname _
  have hlength : field.1.length ≠ (headerLine field).length := by
    rw [headerLine, List.length_append, List.length_cons]
    omega
  have htake : (headerLine field).take field.1.length = field.1 := List.take_left
  have hdrop : (headerLine field).drop (field.1.length + 1) = field.2 := by
    rw [headerLine, ← List.drop_drop, List.drop_left]
    rfl
  simp only [handleLine, hstate, hcolon, if_pos hlength, HttpRequest.addHeader, htake, hdrop]

theorem oneLine_headerLine {field : Bytes × Bytes} (hname : OneLine field.1)
    (hvalue : OneLine field.2) : OneLine (headerLine field) := by
  unfold OneLine headerLine
  simp only [List.mem_append, List.mem_cons, not_or]
  exact ⟨⟨hname.1, by decide, hvalue.1⟩, ⟨hname.2, by decide, hvalue.2⟩⟩

theorem oneLine_requestLine (h : text.WellFormed) : OneLine text.requestLine := by
  have hword : OneLine (text.requestOf 0).methodToString := by
    unfold HttpRequest.methodToString
    cases (text.requestOf 0).method_ <;> decide
  have hversion : OneLine (versionText text.version) := by
    cases text.version <;> decide
  obtain ⟨hpath, _⟩ := h.path
  obtain ⟨hquery, _⟩ := h.query
  unfold OneLine requestLine
  simp only [List.mem_append, List.mem_cons, not_or]
  exact ⟨⟨hword.1, by decide, ⟨hpath.1, hquery.1⟩, by decide, hversion.1⟩,
    ⟨hword.2, by decide, ⟨hpath.2, hquery.2⟩, by decide, hversion.2⟩⟩

/-- The head is read to its end, by induction over the headers: each line leaves
    the parser in front of the next one. -/
theorem readLines_renderFields {fields : List (Bytes × Bytes)} {context : HttpContext}
    (hfields : ∀ field ∈ fields, OneLine field.1 ∧ 58 ∉ field.1 ∧ OneLine field.2)
    (hstate : context.state_ = .kExpectRequestHead) (receiveTime : Int) (rest : Bytes) :
    readLines receiveTime context (renderFields fields ++ rest) =
      (.finished, ⟨.kGotAll, { context.request_ with
        headers_ := context.request_.headers_.insertAll (trimmed fields) }⟩, rest) := by
  induction fields generalizing context with
  | nil =>
    have hcut : Search.cut Buffer.kCRLF (renderFields [] ++ rest) = some ([], rest) :=
      cut_line (by decide : OneLine []) rest
    rw [readLines, read_of_some hcut]
    simp only [handleLine, hstate]
    rfl
  | cons field fields ih =>
    obtain ⟨hname, hcolon, hvalue⟩ := hfields field List.mem_cons_self
    have hsplit : renderFields (field :: fields) ++ rest =
        headerLine field ++ Buffer.kCRLF ++ (renderFields fields ++ rest) := by
      simp only [renderFields, List.flatMap_cons, List.append_assoc]
    rw [hsplit, readLines, read_of_some (cut_line (oneLine_headerLine hname hvalue) _),
      handleLine_headerLine hstate hcolon]
    exact ih (fun field' hfield' => hfields field' (List.mem_cons_of_mem field hfield')) hstate

/-- A request is read as it was written, and what stands behind it is not
    touched. -/
theorem readLines_render (h : text.WellFormed) (receiveTime : Int) (rest : Bytes) :
    readLines receiveTime new (text.render ++ rest) =
      (.finished, ⟨.kGotAll, text.request receiveTime⟩, rest) := by
  have hsplit : text.render ++ rest =
      text.requestLine ++ Buffer.kCRLF ++ (renderFields text.fields ++ rest) := by
    simp only [render, List.append_assoc]
  have hline : handleLine receiveTime new text.requestLine =
      .more ⟨.kExpectRequestHead, text.requestOf receiveTime⟩ := by
    simp only [handleLine, new, processRequestLine_spec h, if_true]
    rfl
  rw [hsplit, readLines, read_of_some (cut_line (oneLine_requestLine h) _), hline]
  exact readLines_renderFields h.fields rfl receiveTime rest

section Headers

variable {fields : List (Bytes × Bytes)} {value : Bytes}

/-- A value with no space on either side. -/
def Trimmed (value : Bytes) : Prop :=
  (∀ c ∈ value.head?, isspace c = false) ∧ ∀ c ∈ value.getLast?, isspace c = false

instance (value : Bytes) : Decidable (Trimmed value) :=
  @instDecidableAnd _ _ (Option.decidableForallMem _) (Option.decidableForallMem _)

theorem dropWhile_of_head {text : Bytes} (h : ∀ c ∈ text.head?, isspace c = false) :
    text.dropWhile isspace = text := by
  cases text with
  | nil => rfl
  | cons c rest => simp [h c rfl]

/-- The space behind the colon is all that is taken off. -/
theorem trim_space_cons (h : Trimmed value) : HttpRequest.trim (32 :: value) = value := by
  have hspace : isspace 32 = true := by decide
  rw [HttpRequest.trim, List.dropWhile_cons_of_pos hspace, dropWhile_of_head h.1,
    dropWhile_of_head, List.reverse_reverse]
  rw [List.head?_reverse]
  exact h.2

end Headers

end HttpContext

namespace RequestText

/-- The text with a space behind the colon of every header. -/
def spaced (text : RequestText) : RequestText :=
  { text with fields := text.fields.map fun field => (field.1, 32 :: field.2) }

theorem WellFormed.spaced {text : RequestText} (h : text.WellFormed) : text.spaced.WellFormed where
  method := h.method
  version := h.version
  path := h.path
  query := h.query
  fields := by
    rintro field hfield
    obtain ⟨field', hmem, rfl⟩ := List.mem_map.mp hfield
    obtain ⟨hname, hcolon, hvalue⟩ := h.fields field' hmem
    refine ⟨hname, hcolon, ?_, ?_⟩
    · exact List.not_mem_cons_of_ne_of_not_mem (by decide) hvalue.1
    · exact List.not_mem_cons_of_ne_of_not_mem (by decide) hvalue.2

end RequestText

namespace HttpContext

open RequestText

/-- The request round trip: a well-formed request with distinct header names and
    trimmed values is parsed into its own parts, and exactly the bytes behind it
    stay in the buffer. -/
theorem request_roundTrip {text : RequestText} (h : text.WellFormed)
    (hnames : (text.fields.map Prod.fst).Nodup) (hvalues : ∀ field ∈ text.fields, Trimmed field.2)
    {buf : WfBuffer} {rest : Bytes} (hbuf : buf.contents = text.spaced.render ++ rest)
    (receiveTime : Int) :
    ∃ context buf', new.parseRequest buf receiveTime = some (true, context, buf') ∧
      context.gotAll = true ∧
      context.request_.method_ = text.method ∧
      context.request_.path_ = text.path ∧
      context.request_.query_ = text.query ∧
      context.request_.version_ = text.version ∧
      (∀ name value, context.request_.headers_[name]? = some value ↔
        (name, value) ∈ text.fields) ∧
      buf'.contents = rest := by
  obtain ⟨outcome, context, buf', hread, hparse⟩ := parseRequest_spec reading_new buf receiveTime
  rw [hbuf, readLines_render h.spaced, Prod.mk.injEq, Prod.mk.injEq] at hread
  obtain ⟨rfl, rfl, hrest⟩ := hread
  refine ⟨_, buf', hparse, rfl, rfl, rfl, rfl, rfl, ?_, hrest.symm⟩
  intro name value
  have htrimmed : trimmed text.spaced.fields = text.fields := by
    simp only [trimmed, RequestText.spaced, List.map_map]
    refine (List.map_congr_left fun field hfield => ?_).trans (List.map_id text.fields)
    simp only [Function.comp_apply, trim_space_cons (hvalues field hfield), id]
  have hmap : (Headers.insertAll ∅ text.fields)[name]? = some value ↔ _ :=
    Headers.getElem?_insertAll hnames
  rw [HttpRequest.headers_, RequestText.request, htrimmed, hmap]
  simp only [Std.ExtTreeMap.getElem?_empty, reduceCtorEq, and_false, or_false]

/-- A request for `/index.html` from `www.test.com`, with one byte behind it. -/
def indexRequest : RequestText where
  method := .kGet
  path := ascii ['/', 'i', 'n', 'd', 'e', 'x', '.', 'h', 't', 'm', 'l']
  query := []
  version := .kHttp11
  fields := [(ascii ['H', 'o', 's', 't'],
    ascii ['w', 'w', 'w', '.', 't', 'e', 's', 't', '.', 'c', 'o', 'm'])]

theorem request_roundTrip_index :
    ∃ context buf', new.parseRequest
        (WfBuffer.new.append (indexRequest.spaced.render ++ [42])) 7 = some (true, context, buf') ∧
      context.gotAll = true ∧
      context.request_.method_ = indexRequest.method ∧
      context.request_.path_ = indexRequest.path ∧
      context.request_.query_ = indexRequest.query ∧
      context.request_.version_ = indexRequest.version ∧
      (∀ name value, context.request_.headers_[name]? = some value ↔
        (name, value) ∈ indexRequest.fields) ∧
      buf'.contents = [42] :=
  request_roundTrip (by decide) (by decide) (by decide) (WfBuffer.contents_append _ _) 7

end HttpContext

end TcpNet
