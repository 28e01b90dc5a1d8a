import TcpNet.Buffer
import Mathlib.Data.List.Basic
import Mathlib.Data.List.Lex

namespace TcpNet

inductive Method where
  | kInvaild
  | kGet
  | kPost
  | kHead
  | kPut
  | kDelete
  deriving DecidableEq, Repr

inductive Version where
  | kUnknow
  | kHttp10
  | kHttp11
  deriving DecidableEq, Repr

/-- A `std::map<string, string>`. -/
abbrev Headers := Std.ExtTreeMap Bytes Bytes

instance : DecidableEq Headers := inferInstanceAs (DecidableEq (Std.ExtTreeMap Bytes Bytes))

theorem Headers.getElem?_insert {headers : Headers} {name name' value : Bytes} :
    (headers.insert name value)[name']? = if name = name' then some value else headers[name']? := by
  rw [Std.ExtTreeMap.getElem?_insert]
  simp only [Std.compare_eq_iff_eq]

namespace Headers

/-- Enter headers one after the other, so that of one name the last stays. -/
def insertAll (headers : Headers) (fields : List (Bytes × Bytes)) : Headers :=
  fields.foldl (fun headers field => headers.insert field.1 field.2) headers

theorem getElem?_insertAll {headers : Headers} {fields : List (Bytes × Bytes)}
    (hnames : (fields.map Prod.fst).Nodup) {name value : Bytes} :
    (headers.insertAll fields)[name]? = some value ↔
      (name, value) ∈ fields ∨ name ∉ fields.map Prod.fst ∧ headers[name]? = some value := by
  induction fields generalizing headers with
  | nil => simp [insertAll]
  | cons field fields ih =>
    rw [List.map_cons, List.nodup_cons] at hnames
    obtain ⟨hnew, hnames⟩ := hnames
    have hstep : headers.insertAll (field :: fields) =
        insertAll (headers.insert field.1 field.2) fields := rfl
    rw [hstep, ih hnames, getElem?_insert]
    by_cases hname : field.1 = name
    · subst hname
      have hno : (field.1, value) ∉ fields := fun hmem =>
        hnew (List.mem_map.mpr ⟨_, hmem, rfl⟩)
      simp only [hno, hnew, not_false_iff, if_true, true_and, Option.some.injEq, false_or,
        List.mem_cons, List.map_cons, not_true, false_and, or_false, Prod.ext_iff, eq_comm]
    · have hother : name ≠ field.1 := fun h => hname h.symm
      simp only [List.mem_cons, hname, if_false, List.map_cons, hother, Prod.ext_iff, false_and,
        false_or]

theorem nodup_toList (headers : Headers) : (headers.toList.map Prod.fst).Nodup := by
  rw [Std.ExtTreeMap.map_fst_toList_eq_keys]
  exact Std.ExtTreeMap.nodup_keys

end Headers

/-- A text without the two characters of an end of line. -/
def OneLine (text : Bytes) : Prop := 13 ∉ text ∧ 10 ∉ text

instance (text : Bytes) : Decidable (OneLine text) :=
  inferInstanceAs (Decidable (_ ∧ _))

theorem cut_line {line : Bytes} (h : OneLine line) (rest : Bytes) :
    Search.cut Buffer.kCRLF (line ++ Buffer.kCRLF ++ rest) = some (line, rest) :=
  Search.cut_cons_append h.1 rest

structure HttpRequest where
  method_ : Method
  version_ : Version
  path_ : Bytes
  query_ : Bytes
  receiveTime_ : Int
  headers_ : Headers
  deriving DecidableEq

/-- `isspace` of the C locale. -/
def isspace (c : Byte) : Bool := c = 32 ∨ 9 ≤ c ∧ c ≤ 13

namespace HttpRequest

def new : HttpRequest where
  method_ := .kInvaild
  version_ := .kUnknow
  path_ := []
  query_ := []
  receiveTime_ := 0
  headers_ := ∅

/-- The method that a word names, or `kInvaild`. -/
def methodOf (m : Bytes) : Method :=
  if m = ascii ['G', 'E', 'T'] then .kGet
  else if m = ascii ['P', 'O', 'S', 'T'] then .kPost
  else if m = ascii ['H', 'E', 'A', 'D'] then .kHead
  else if m = ascii ['P', 'U', 'T'] then .kPut
  else if m = ascii ['D', 'E', 'L', 'E', 'T', 'E'] then .kDelete
  else .kInvaild

def setMethod (req : HttpRequest) (m : Bytes) : Bool × HttpRequest :=
  let req := { req with method_ := methodOf m }
  (req.method_ ≠ .kInvaild, req)

def methodToString (req : HttpRequest) : Bytes :=
  match req.method_ with
  | .kGet => ascii ['G', 'E', 'T']
  | .kPost => ascii ['P', 'O', 'S', 'T']
  | .kHead => ascii ['H', 'E', 'A', 'D']
  | .kPut => ascii ['P', 'U', 'T']
  | .kDelete => ascii ['D', 'E', 'L', 'E', 'T', 'E']
  | .kInvaild => ascii ['u', 'n', 'k', 'n', 'o', 'w']

def setVersion (req : HttpRequest) (version : Version) : HttpRequest :=
  { req with version_ := version }

def setPath (req : HttpRequest) (path : Bytes) : HttpRequest := { req with path_ := path }

def setQuery (req : HttpRequest) (query : Bytes) : HttpRequest := { req with query_ := query }

def setReceiveTime (req : HttpRequest) (t : Int) : HttpRequest := { req with receiveTime_ := t }

/-- The characters of a value, without those around it that are spaces. -/
def trim (value : Bytes) : Bytes :=
  ((value.dropWhile isspace).reverse.dropWhile isspace).reverse

/-- `line` is what stands from `start` to `end`, with the colon at `colon`. -/
def addHeader (req : HttpRequest) (line : Bytes) (colon : Nat) : HttpRequest :=
  let field := line.take colon
  let value := trim (line.drop (colon + 1))
  { req with headers_ := req.headers_.insert field value }

/-- An empty text for a field that is not there. -/
def getHeader (req : HttpRequest) (field : Bytes) : Bytes := (req.headers_[field]?).getD []

end HttpRequest

end TcpNet
