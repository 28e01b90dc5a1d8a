import TcpNet.Buffer.Wf
import TcpNet.Decimal
import TcpNet.Http.Request
import TcpNet.Library.CString

namespace TcpNet

inductive HttpStatusCode where
  | kUnknow
  | k200OK
  | k301MovePermently
  | k400BadRequest
  | k404NotFound
  deriving DecidableEq, Repr

/-- The number of a status code. -/
def HttpStatusCode.value : HttpStatusCode → Nat
  | .kUnknow => 0
  | .k200OK => 200
  | .k301MovePermently => 301
  | .k400BadRequest => 400
  | .k404NotFound => 404

structure HttpResponse where
  headers_ : Headers
  statusCode_ : HttpStatusCode
  statusMessage_ : Bytes
  closeConnection_ : Bool
  body_ : Bytes
  deriving DecidableEq

/-- What `snprintf` leaves of a text in `char buf[32]`, less the zero at its end. -/
def snprintf (text : Bytes) : Bytes := text.take 31

theorem string_snprintf_eq {buf text : Bytes} (left : Bytes) (hbuf : buf.length = 32)
    (htext : text.length ≤ CString.intMax) (hzero : 0 ∉ text) :
    ∃ buf', CString.snprintf buf 0 32 text left = some (↑text.length, buf') ∧
      CString.string buf' = snprintf text :=
  CString.string_snprintf left (by decide) (Nat.le_of_eq hbuf.symm) htext hzero

namespace HttpResponse

def kHttp11 : Bytes := ascii ['H', 'T', 'T', 'P', '/', '1', '.', '1']

def kContentType : Bytes := ascii ['C', 'o', 'n', 't', 'e', 'n', 't', '-', 'T', 'y', 'p', 'e']

def kContentLength : Bytes :=
  ascii ['C', 'o', 'n', 't', 'e', 'n', 't', '-', 'L', 'e', 'n', 'g', 't', 'h']

def kConnection : Bytes := ascii ['C', 'o', 'n', 'n', 'e', 'c', 't', 'i', 'o', 'n']

def kClose : Bytes := ascii ['c', 'l', 'o', 's', 'e']

def kKeepAlive : Bytes := ascii ['K', 'e', 'e', 'p', '-', 'A', 'l', 'i', 'v', 'e']

/-- What stands between the name and the value of a header. -/
def kColon : Bytes := ascii [':', ' ']

def new (close : Bool) : HttpResponse where
  headers_ := ∅
  statusCode_ := .kUnknow
  statusMessage_ := []
  closeConnection_ := close
  body_ := []

def setStatusCode (resp : HttpResponse) (code : HttpStatusCode) : HttpResponse :=
  { resp with statusCode_ := code }

def setStatusMessage (resp : HttpResponse) (message : Bytes) : HttpResponse :=
  { resp with statusMessage_ := message }

def setCloseConnection (resp : HttpResponse) (on : Bool) : HttpResponse :=
  { resp with closeConnection_ := on }

def closeConnection (resp : HttpResponse) : Bool := resp.closeConnection_

def addHeader (resp : HttpResponse) (key value : Bytes) : HttpResponse :=
  { resp with headers_ := resp.headers_.insert key value }

def setContentType (resp : HttpResponse) (contentType : Bytes) : HttpResponse :=
  resp.addHeader kContentType contentType

def setBody (resp : HttpResponse) (body : Bytes) : HttpResponse := { resp with body_ := body }

/-- One round of the loop over the headers. -/
def appendHeader (outbuf : WfBuffer) (header : Bytes × Bytes) : WfBuffer :=
  (((outbuf.append header.1).append kColon).append header.2).append Buffer.kCRLF

def appendTobuffer (resp : HttpResponse) (outbuf : WfBuffer) : WfBuffer :=
  let outbuf := outbuf.append (snprintf (kHttp11 ++ 32 :: decimal resp.statusCode_.value ++ [32]))
  let outbuf := outbuf.append resp.statusMessage_
  let outbuf := outbuf.append Buffer.kCRLF
  let outbuf :=
    if resp.closeConnection_ then
      outbuf.append (kConnection ++ kColon ++ kClose ++ Buffer.kCRLF)
    else
      let outbuf := outbuf.append
        (snprintf (kContentLength ++ kColon ++ decimal resp.body_.length ++ Buffer.kCRLF))
      outbuf.append (kConnection ++ kColon ++ kKeepAlive ++ Buffer.kCRLF)
  let outbuf := resp.headers_.toList.foldl appendHeader outbuf
  let outbuf := outbuf.append Buffer.kCRLF
  outbuf.append resp.body_

/-- The bytes of a response on the wire. -/
def serialise (resp : HttpResponse) : Bytes := (resp.appendTobuffer WfBuffer.new).contents

/-- A header of a response on its line. -/
def headerLine (header : Bytes × Bytes) : Bytes := header.1 ++ kColon ++ header.2

theorem contents_appendHeaders (headers : List (Bytes × Bytes)) (outbuf : WfBuffer) :
    (headers.foldl appendHeader outbuf).contents =
      outbuf.contents ++ headers.flatMap (fun header => headerLine header ++ Buffer.kCRLF) := by
  induction headers generalizing outbuf with
  | nil => simp
  | cons header headers ih =>
    rw [List.foldl_cons, ih, List.flatMap_cons, appendHeader]
    simp only [WfBuffer.contents_append, headerLine, List.append_assoc]

/-- A response goes behind what the buffer already holds. -/
theorem contents_appendTobuffer (resp : HttpResponse) (outbuf : WfBuffer) :
    (resp.appendTobuffer outbuf).contents = outbuf.contents ++ resp.serialise := by
  simp only [serialise, appendTobuffer, WfBuffer.contents_append, contents_appendHeaders]
  split <;> simp only [WfBuffer.contents_append, WfBuffer.contents_new, List.nil_append,
    List.append_assoc]

end HttpResponse

end TcpNet
