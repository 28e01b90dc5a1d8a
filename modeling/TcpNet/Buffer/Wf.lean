import TcpNet.Buffer.Spec

open Transition

namespace TcpNet

/-- A buffer as its owners hold it: reached by the public operations, so with
    its indexes in order. -/
abbrev WfBuffer := { b : Buffer // b.Valid }

namespace WfBuffer

def new : WfBuffer := ⟨Buffer.new, Buffer.valid_new⟩

/-- The bytes waiting in the buffer. -/
def contents (b : WfBuffer) : Bytes := b.1.readable

def readableBytes (b : WfBuffer) : Nat := b.1.readableBytes

@[simp] theorem contents_new : new.contents = [] := Buffer.readable_new

@[simp] theorem length_contents (b : WfBuffer) : b.contents.length = b.readableBytes :=
  b.2.length_readable

theorem contents_eq_nil_iff (b : WfBuffer) : b.contents = [] ↔ b.readableBytes = 0 :=
  b.2.readable_eq_nil_iff

theorem append_goes_through (b : WfBuffer) (data : Bytes) : ∃ b', b.1.append data = .ok b' := by
  obtain ⟨b', happend, _⟩ := Buffer.append_spec b.2 data
  exact ⟨b', happend⟩

theorem valid_of_append {b b' : Buffer} (h : b.Valid) {data : Bytes}
    (happend : b.append data = .ok b') : b'.Valid := by
  obtain ⟨b'', hgo, hvalid, _⟩ := Buffer.append_spec h data
  rw [happend, Except.ok.injEq] at hgo
  rwa [hgo]

/-- `append`, whose assertions never fail on a buffer in order. -/
def append (b : WfBuffer) (data : Bytes) : WfBuffer :=
  ⟨value (b.1.append data) (b.append_goes_through data),
    valid_of_append b.2 (eq_ok_value (b.append_goes_through data))⟩

theorem append_eq (b : WfBuffer) (data : Bytes) : b.1.append data = .ok (b.append data).1 :=
  eq_ok_value (b.append_goes_through data)

@[simp] theorem contents_append (b : WfBuffer) (data : Bytes) :
    (b.append data).contents = b.contents ++ data := by
  obtain ⟨b', happend, _, hreadable⟩ := Buffer.append_spec b.2 data
  rw [b.append_eq, Except.ok.injEq] at happend
  rw [← happend] at hreadable
  exact hreadable

/-- What a retrieve leaves in order, where its assertion holds. -/
theorem valid_of_retrieve {b b' : Buffer} (h : b.Valid) {len : Nat}
    (hretrieve : b.retrieve len = .ok b') : b'.Valid := by
  by_cases hlen : len ≤ b.readableBytes
  · obtain ⟨_, hgo, hvalid, _⟩ := Buffer.retrieve_spec h hlen
    rw [hretrieve, Except.ok.injEq] at hgo
    rwa [hgo]
  · simp [Buffer.retrieve, require, hlen] at hretrieve

def retrieve (b : WfBuffer) (len : Nat) : Except Stop WfBuffer :=
  attach (b.1.retrieve len) (fun _ => valid_of_retrieve b.2)

theorem retrieve_spec (b : WfBuffer) {len : Nat} (hlen : len ≤ b.readableBytes) :
    ∃ b', b.retrieve len = .ok b' ∧ b'.contents = b.contents.drop len := by
  obtain ⟨b', hgo, hvalid, hreadable⟩ := Buffer.retrieve_spec b.2 hlen
  exact ⟨⟨b', hvalid⟩, attach_eq_ok_iff.mpr hgo, hreadable⟩

theorem retrieve_eq_ok {b b' : WfBuffer} {len : Nat} (h : b.retrieve len = .ok b') :
    len ≤ b.readableBytes ∧ b'.contents = b.contents.drop len := by
  have hgo := attach_eq_ok_iff.mp h
  by_cases hlen : len ≤ b.readableBytes
  · obtain ⟨b'', hretrieve, hcontents⟩ := b.retrieve_spec hlen
    rw [h, Except.ok.injEq] at hretrieve
    exact ⟨hlen, hretrieve ▸ hcontents⟩
  · have hnot : ¬ len ≤ b.1.readableBytes := hlen
    simp [Buffer.retrieve, require, hnot] at hgo

/-- `retrieveUntil` a pointer `len` bytes behind `peek()`. -/
def retrieveUntil (b : WfBuffer) (stop : Nat) : Except Stop WfBuffer :=
  attach (b.1.retrieveUntil stop) (fun b' hgo => by
    simp only [Buffer.retrieveUntil, bind_eq_ok_iff] at hgo
    obtain ⟨_, _, _, _, hretrieve⟩ := hgo
    exact valid_of_retrieve b.2 hretrieve)

theorem retrieveUntil_spec (b : WfBuffer) {len : Nat} (hlen : len ≤ b.readableBytes) :
    ∃ b', b.retrieveUntil (b.1.peek + len) = .ok b' ∧ b'.contents = b.contents.drop len := by
  obtain ⟨b', hgo, hvalid, hreadable⟩ := Buffer.retrieveUntil_spec b.2 hlen
  exact ⟨⟨b', hvalid⟩, attach_eq_ok_iff.mpr hgo, hreadable⟩

theorem findCRLF_bound {b : WfBuffer} {crlf : Nat} (h : b.1.findCRLF = some crlf) :
    ∃ n, crlf = b.1.peek + n ∧ n + 2 ≤ b.readableBytes ∧
      Search.search Buffer.kCRLF b.contents = some n := by
  obtain ⟨n, hn, rfl⟩ := Option.map_eq_some_iff.mp h
  have hle := Search.search_add_length_le hn
  rw [b.2.length_readable] at hle
  exact ⟨n, rfl, hle, hn⟩

theorem retrieveUntil_crlf {b : WfBuffer} {crlf : Nat} (h : b.1.findCRLF = some crlf) :
    ∃ b', b.retrieveUntil (crlf + 2) = .ok b' := by
  obtain ⟨n, rfl, hle, _⟩ := findCRLF_bound h
  obtain ⟨b', hgo, _⟩ := b.retrieveUntil_spec hle
  exact ⟨b', hgo⟩

/-- Where `findCRLF` finds the end of a line: the bytes from `peek()` to there, and
    the buffer behind `retrieveUntil(crlf + 2)`, whose assertions hold. -/
def nextLine (b : WfBuffer) : Option (Bytes × WfBuffer) :=
  match h : b.1.findCRLF with
  | some crlf => some (Memory.slice b.1.buffer_ b.1.peek crlf,
      value (b.retrieveUntil (crlf + 2)) (retrieveUntil_crlf h))
  | none => none

theorem nextLine_contents (b : WfBuffer) :
    b.nextLine.map (fun (line, rest) => (line, rest.contents)) =
      Search.cut Buffer.kCRLF b.contents := by
  unfold nextLine
  split
  · rename_i crlf h
    obtain ⟨n, rfl, hle, hsearch⟩ := findCRLF_bound h
    obtain ⟨b', hgo, hcontents⟩ := b.retrieveUntil_spec hle
    have hvalue : value (b.retrieveUntil (b.1.peek + n + 2)) (retrieveUntil_crlf h) = b' := by
      have hgo' : b.retrieveUntil (b.1.peek + n + 2) = .ok b' := by
        rw [Nat.add_assoc]
        exact hgo
      have hok := (eq_ok_value (retrieveUntil_crlf h)).symm.trans hgo'
      rwa [Except.ok.injEq] at hok
    have hlength : b.contents.length = b.readableBytes := b.length_contents
    have hline : Memory.slice b.1.buffer_ b.1.peek (b.1.peek + n) = b.contents.take n := by
      have hread : b.contents = (b.1.buffer_.drop b.1.readIndex_).take
        (b.1.writeIndex_ - b.1.readIndex_) := rfl
      have hreadable : b.readableBytes = b.1.writeIndex_ - b.1.readIndex_ := rfl
      rw [hread, List.take_take, Nat.min_eq_left (by omega)]
      simp only [Memory.slice, Buffer.peek, Nat.add_sub_cancel_left]
    simp only [Search.cut, hsearch, hvalue, Option.map_some, hline, hcontents]
    rfl
  · rename_i h
    have hnone := Option.map_eq_none_iff.mp h
    have hsearch : Search.search Buffer.kCRLF b.contents = none := hnone
    rw [Search.cut, hsearch]
    rfl

def retrieveAll (b : WfBuffer) : WfBuffer :=
  ⟨b.1.retrieveAll, (Buffer.retrieveAll_spec b.2).1⟩

@[simp] theorem contents_retrieveAll (b : WfBuffer) : b.retrieveAll.contents = [] :=
  (Buffer.retrieveAll_spec b.2).2

theorem readFd_goes_through (b : WfBuffer) (result : ReadResult) :
    ∃ out, b.1.readFd result = .ok out := by
  cases result with
  | failed errno => exact ⟨_, rfl⟩
  | delivered data =>
    obtain ⟨_, hread, _⟩ := Buffer.readFd_delivered_spec b.2 data
    exact ⟨_, hread⟩

theorem valid_of_readFd {b : Buffer} (h : b.Valid) {result : ReadResult}
    {out : Int × Option Nat × Buffer} (hread : b.readFd result = .ok out) : out.2.2.Valid := by
  cases result with
  | failed errno =>
    simp only [Buffer.readFd, pure_eq_ok_iff] at hread
    rw [← hread]
    exact h
  | delivered data =>
    obtain ⟨_, hgo, hvalid, _⟩ := Buffer.readFd_delivered_spec h data
    rw [hread, Except.ok.injEq] at hgo
    rw [hgo]
    exact hvalid

/-- `readFd`, whose `append` never fails on a buffer in order. -/
def readFd (b : WfBuffer) (result : ReadResult) : Int × Option Nat × WfBuffer :=
  let out := value (b.1.readFd result) (b.readFd_goes_through result)
  (out.1, out.2.1, ⟨out.2.2, valid_of_readFd b.2 (eq_ok_value (b.readFd_goes_through result))⟩)

theorem readFd_delivered (b : WfBuffer) (data : Bytes) :
    ∃ b' : WfBuffer, b.readFd (.delivered data) = ((data.length : Int), none, b') ∧
      b'.contents = b.contents ++ data := by
  obtain ⟨b', hread, hvalid, hreadable⟩ := Buffer.readFd_delivered_spec b.2 data
  have hvalue := (eq_ok_value (b.readFd_goes_through (.delivered data))).symm.trans hread
  rw [Except.ok.injEq] at hvalue
  refine ⟨⟨b', hvalid⟩, ?_, hreadable⟩
  simp only [readFd, hvalue]

theorem readFd_failed (b : WfBuffer) (errno : Nat) :
    b.readFd (.failed errno) = (-1, some errno, b) := rfl

end WfBuffer

end TcpNet
