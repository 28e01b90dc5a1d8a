import TcpNet.Buffer
import Mathlib.Algebra.Group.Nat.Defs

open Transition

namespace TcpNet.Buffer

theorem valid_new : new.Valid := by
  constructor <;> simp [new]

@[simp] theorem readable_new : new.readable = [] := by
  simp [readable, new]

theorem Valid.length_readable {b : Buffer} (h : b.Valid) :
    b.readable.length = b.readableBytes :=
  Memory.length_slice h.write_le_size

theorem Valid.readable_eq_nil_iff {b : Buffer} (h : b.Valid) :
    b.readable = [] ↔ b.readableBytes = 0 := by
  rw [← h.length_readable, List.length_eq_zero_iff]

/-- The three regions of the vector add up to its size. -/
theorem Valid.regions {b : Buffer} (h : b.Valid) :
    b.prependableBytes + b.readableBytes + b.writableBytes = b.buffer_.length := by
  have hread := h.read_le_write
  have hwrite := h.write_le_size
  simp only [prependableBytes, readableBytes, writableBytes]
  omega

/-- With the vector and an argument below `2^63`, no 64-bit sum or difference
    that an operation forms wraps: natural numbers compute the same values. -/
structure NoWrap (b : Buffer) (len : Nat) : Prop where
  indexes : b.readIndex_ < 2 ^ 63 ∧ b.writeIndex_ < 2 ^ 63
  free : b.writableBytes + b.prependableBytes < 2 ^ 64
  reserved : len + kCheapPrepared < 2 ^ 64
  grown : b.writeIndex_ + len < 2 ^ 64

theorem Valid.noWrap {b : Buffer} (h : b.Valid) {len : Nat} (hsize : b.buffer_.length < 2 ^ 63)
    (hlen : len < 2 ^ 63) : b.NoWrap len := by
  have hread := h.read_le_write
  have hwrite := h.write_le_size
  have hregions := h.regions
  refine ⟨by omega, by omega, ?_, by omega⟩
  simp only [kCheapPrepared]
  omega

theorem retrieve_spec {b : Buffer} (h : b.Valid) {len : Nat} (hlen : len ≤ b.readableBytes) :
    ∃ b', b.retrieve len = .ok b' ∧ b'.Valid ∧ b'.readable = b.readable.drop len := by
  refine ⟨{ b with readIndex_ := b.readIndex_ + len }, ?_, ?_, ?_⟩
  · simp only [retrieve, require_of hlen, ok_bind]
    rfl
  · have hread := h.read_le_write
    refine ⟨?_, h.write_le_size, h.cheap_le_size⟩
    simp only [readableBytes] at hlen ⊢
    omega
  · exact Memory.slice_drop _ _ _ _

theorem retrieveUntil_spec {b : Buffer} (h : b.Valid) {len : Nat} (hlen : len ≤ b.readableBytes) :
    ∃ b', b.retrieveUntil (b.peek + len) = .ok b' ∧ b'.Valid ∧
      b'.readable = b.readable.drop len := by
  have hread := h.read_le_write
  have hinside : b.peek + len ≤ b.beginWrite := by
    simp only [peek, beginWrite, readableBytes] at hlen ⊢
    omega
  obtain ⟨b', hretrieve, hvalid, hreadable⟩ := retrieve_spec h hlen
  refine ⟨b', ?_, hvalid, hreadable⟩
  rw [retrieveUntil, require_of (Nat.le_add_right _ _), ok_bind, require_of hinside, ok_bind,
    Nat.add_sub_cancel_left, hretrieve]

theorem retrieveAll_spec {b : Buffer} (h : b.Valid) :
    b.retrieveAll.Valid ∧ b.retrieveAll.readable = [] :=
  ⟨⟨Nat.le_refl _, h.cheap_le_size, h.cheap_le_size⟩, Memory.slice_self _ _⟩

/-- Growing keeps the content in place, and sliding moves all of it. The branch
    that slides is taken only with more than the reserved space in front. -/
theorem makeSpace_spec {b : Buffer} (h : b.Valid) {len : Nat} (hshort : b.writableBytes < len) :
    ∃ b', b.makeSpace len = .ok b' ∧ b'.Valid ∧ b'.readable = b.readable ∧
      len ≤ b'.writableBytes := by
  have hread := h.read_le_write
  have hwrite := h.write_le_size
  have hregions := h.regions
  unfold makeSpace
  by_cases hgrow : b.writableBytes + b.prependableBytes < len + kCheapPrepared
  · rw [if_pos hgrow]
    refine ⟨_, rfl, ⟨hread, ?_, ?_⟩, ?_, ?_⟩
    · rw [Memory.length_resize]
      exact Nat.le_add_right _ _
    · rw [Memory.length_resize]
      have hcheap := h.cheap_le_size
      simp only [writableBytes] at hshort
      omega
    · exact Memory.slice_resize 0 (Nat.le_add_right _ _) hwrite
    · simp only [writableBytes, Memory.length_resize]
      omega
  · rw [if_neg hgrow]
    have hcheap : kCheapPrepared < b.readIndex_ := by
      simp only [prependableBytes] at hgrow
      omega
    have hfit : kCheapPrepared + b.readable.length ≤ b.buffer_.length := by
      rw [h.length_readable]
      simp only [prependableBytes] at hregions
      omega
    have hsame : kCheapPrepared + b.readableBytes - kCheapPrepared = b.readableBytes := by omega
    have hkeep : b.readableBytes =
        readableBytes ⟨Memory.copyInto b.buffer_ kCheapPrepared b.readable, kCheapPrepared,
          kCheapPrepared + b.readableBytes⟩ := hsame.symm
    refine ⟨_, by simp only [require, hcheap, ← hkeep, if_true]; rfl, ⟨?_, ?_, ?_⟩, ?_, ?_⟩
    · exact Nat.le_add_right _ _
    · rw [Memory.length_copyInto hfit, ← h.length_readable]
      exact hfit
    · rw [Memory.length_copyInto hfit]
      exact h.cheap_le_size
    · have hback := Memory.slice_copyInto_data b.buffer_ b.readable h.cheap_le_size
      rwa [h.length_readable] at hback
    · simp only [writableBytes, Memory.length_copyInto hfit]
      simp only [prependableBytes] at hregions hgrow
      omega

theorem ensureWritableBytes_spec {b : Buffer} (h : b.Valid) (len : Nat) :
    ∃ b', b.ensureWritableBytes len = .ok b' ∧ b'.Valid ∧ b'.readable = b.readable ∧
      len ≤ b'.writableBytes := by
  by_cases hshort : b.writableBytes < len
  · obtain ⟨b', hspace, hvalid, hreadable, hroom⟩ := makeSpace_spec h hshort
    refine ⟨b', ?_, hvalid, hreadable, hroom⟩
    have hassert : b'.writableBytes ≥ len := hroom
    simp only [ensureWritableBytes, if_pos hshort, hspace, ok_bind, require_of hassert]
    rfl
  · have hroom : len ≤ b.writableBytes := Nat.le_of_not_lt hshort
    refine ⟨b, ?_, h, rfl, hroom⟩
    have hassert : b.writableBytes ≥ len := hroom
    simp only [ensureWritableBytes, if_neg hshort, pure_bind, require_of hassert]
    rfl

/-- Copying to `beginWrite()` and calling `hasWriten` adds the data at the end. -/
theorem write_spec {b : Buffer} (h : b.Valid) (data : Bytes)
    (hroom : data.length ≤ b.writableBytes) :
    ((b.copyTo b.beginWrite data).hasWriten data.length).Valid ∧
      ((b.copyTo b.beginWrite data).hasWriten data.length).readable = b.readable ++ data := by
  have hread := h.read_le_write
  have hwrite := h.write_le_size
  have hfit : b.writeIndex_ + data.length ≤ b.buffer_.length := by
    simp only [writableBytes] at hroom
    omega
  refine ⟨⟨?_, ?_, ?_⟩, ?_⟩
  · exact Nat.le_trans hread (Nat.le_add_right _ _)
  · simp only [hasWriten, copyTo, beginWrite, Memory.length_copyInto hfit]
    exact hfit
  · simp only [hasWriten, copyTo, beginWrite, Memory.length_copyInto hfit]
    exact h.cheap_le_size
  · simp only [readable, hasWriten, copyTo, beginWrite]
    rw [← Memory.slice_append_slice hread (Nat.le_add_right _ _),
      Memory.slice_copyInto_before (Nat.le_refl _) hwrite, Memory.slice_copyInto_data _ _ hwrite]

theorem append_spec {b : Buffer} (h : b.Valid) (data : Bytes) :
    ∃ b', b.append data = .ok b' ∧ b'.Valid ∧ b'.readable = b.readable ++ data := by
  obtain ⟨b', hensure, hvalid, hreadable, hroom⟩ := ensureWritableBytes_spec h data.length
  obtain ⟨hvalid', hreadable'⟩ := write_spec hvalid data hroom
  refine ⟨_, ?_, hvalid', hreadable ▸ hreadable'⟩
  rw [append, hensure, ok_bind]
  rfl

theorem prepend_spec {b : Buffer} (h : b.Valid) {data : Bytes}
    (hroom : data.length ≤ b.prependableBytes) :
    ∃ b', b.prepend data = .ok b' ∧ b'.Valid ∧ b'.readable = data ++ b.readable := by
  have hread := h.read_le_write
  have hwrite := h.write_le_size
  have hroom' : data.length ≤ b.readIndex_ := hroom
  have hend : b.readIndex_ - data.length + data.length = b.readIndex_ := by omega
  have hfit : b.readIndex_ - data.length + data.length ≤ b.buffer_.length := by omega
  refine ⟨{ b with readIndex_ := b.readIndex_ - data.length }.copyTo
    (b.readIndex_ - data.length) data, ?_, ⟨?_, ?_, ?_⟩, ?_⟩
  · rw [prepend, require_of hroom]
    rfl
  · exact Nat.le_trans (Nat.sub_le _ _) hread
  · simp only [copyTo, Memory.length_copyInto hfit]
    exact hwrite
  · simp only [copyTo, Memory.length_copyInto hfit]
    exact h.cheap_le_size
  · simp only [readable, copyTo]
    have hback := Memory.slice_copyInto_data b.buffer_ data (i := b.readIndex_ - data.length)
      (by omega)
    rw [hend] at hback
    rw [← Memory.slice_append_slice (j := b.readIndex_) (by omega) hread, hback,
      Memory.slice_copyInto_after hfit (by omega)]

/-- A read puts all delivered bytes behind the content, also when they run over
    the vector into the stack buffer. -/
theorem readFd_delivered_spec {b : Buffer} (h : b.Valid) (data : Bytes) :
    ∃ b', b.readFd (.delivered data) = .ok (data.length, none, b') ∧ b'.Valid ∧
      b'.readable = b.readable ++ data := by
  by_cases hfew : data.length ≤ b.writableBytes
  · obtain ⟨hvalid, hreadable⟩ := write_spec h data hfew
    refine ⟨_, ?_, hvalid, hreadable⟩
    simp only [readFd, hfew, if_true, List.take_of_length_le hfew]
    rfl
  · have hhead : (data.take b.writableBytes).length = b.writableBytes := by simp; omega
    obtain ⟨hvalid, hreadable⟩ := write_spec h (data.take b.writableBytes) (by omega)
    have hfit : b.writeIndex_ + (data.take b.writableBytes).length ≤ b.buffer_.length := by
      have hwrite := h.write_le_size
      rw [hhead]
      simp only [writableBytes]
      omega
    have hsize : (Memory.copyInto b.buffer_ b.writeIndex_ (data.take b.writableBytes)).length =
        b.writeIndex_ + (data.take b.writableBytes).length := by
      have hwrite := h.write_le_size
      rw [Memory.length_copyInto hfit, hhead]
      simp only [writableBytes]
      omega
    have hfull : { b.copyTo b.beginWrite (data.take b.writableBytes) with
          writeIndex_ := (b.copyTo b.beginWrite (data.take b.writableBytes)).buffer_.length } =
        (b.copyTo b.beginWrite (data.take b.writableBytes)).hasWriten
          (data.take b.writableBytes).length := by
      simp only [hasWriten, copyTo, beginWrite, hsize]
    obtain ⟨b', happend, hvalid', hreadable'⟩ := append_spec hvalid (data.drop b.writableBytes)
    refine ⟨b', ?_, hvalid', ?_⟩
    · simp only [readFd, hfew, if_false, hfull, happend, ok_bind]
      rfl
    · rw [hreadable', hreadable, List.append_assoc, List.take_append_drop]

end TcpNet.Buffer
