import TcpNet.Buffer.Refinement

open Transition

namespace TcpNet.Buffer

/-- The vector of `b'` is no shorter than that of `b`, and where it is longer it was made
    for `demand` bytes. -/
structure Grows (b : Buffer) (demand : Nat) (b' : Buffer) : Prop where
  keeps : b.buffer_.length ≤ b'.buffer_.length
  bound : b'.buffer_.length ≤ max b.buffer_.length (2 * demand + 7)

variable {b b' : Buffer} {room len : Nat} {data : Bytes}

theorem Grows.of_length (h : b'.buffer_.length = b.buffer_.length) : Grows b room b' :=
  ⟨h.ge, h.le.trans (Nat.le_max_left _ _)⟩

theorem Grows.congr {b₁ b₁' : Buffer} (h : Grows b room b')
    (hfront : b₁.buffer_.length = b.buffer_.length)
    (hback : b₁'.buffer_.length = b'.buffer_.length) : Grows b₁ room b₁' := by
  constructor
  · rw [hfront, hback]
    exact h.keeps
  · rw [hfront, hback]
    exact h.bound

/-- The vector grows only where the free bytes on both sides are fewer than `len` and the
    reserved front: by then the front is as short as the demand. -/
theorem makeSpace_grows (h : b.Valid) (hshort : b.writableBytes < len)
    (hgo : b.makeSpace len = .ok b') :
    Grows b (b.readableBytes + len) b' := by
  have hread := h.read_le_write
  have hwrite := h.write_le_size
  unfold makeSpace at hgo
  split at hgo
  · rename_i hgrow
    rw [pure_eq_ok_iff] at hgo
    subst hgo
    simp only [writableBytes, prependableBytes, kCheapPrepared] at hgrow hshort
    constructor <;> simp only [Memory.length_resize, readableBytes] <;> omega
  · rename_i hslide
    simp only [bind_eq_ok_iff, require_eq_ok_iff, pure_eq_ok_iff] at hgo
    obtain ⟨_, hfront, _, _, rfl⟩ := hgo
    have hfit : kCheapPrepared + b.readable.length ≤ b.buffer_.length := by
      rw [h.length_readable, readableBytes]
      omega
    exact .of_length (Memory.length_copyInto hfit)

theorem ensureWritableBytes_grows (h : b.Valid) (hgo : b.ensureWritableBytes len = .ok b') :
    Grows b (b.readableBytes + len) b' := by
  by_cases hshort : b.writableBytes < len
  · simp only [ensureWritableBytes, if_pos hshort, bind_eq_ok_iff, require_eq_ok_iff,
      pure_eq_ok_iff] at hgo
    obtain ⟨spaced, hspace, _, _, rfl⟩ := hgo
    exact makeSpace_grows h hshort hspace
  · simp only [ensureWritableBytes, if_neg hshort, pure_bind, bind_eq_ok_iff, require_eq_ok_iff,
      pure_eq_ok_iff] at hgo
    obtain ⟨_, _, rfl⟩ := hgo
    exact .of_length rfl

/-- Bytes that fit behind the content do not change the length of the vector. -/
theorem length_copyTo (h : b.writeIndex_ ≤ b.buffer_.length)
    (hroom : data.length ≤ b.writableBytes) :
    (b.copyTo b.beginWrite data).buffer_.length = b.buffer_.length := by
  refine Memory.length_copyInto ?_
  simp only [beginWrite, writableBytes] at hroom ⊢
  omega

theorem append_grows (h : b.Valid) (hgo : b.append data = .ok b') :
    Grows b (b.readableBytes + data.length) b' := by
  simp only [append, bind_eq_ok_iff, pure_eq_ok_iff] at hgo
  obtain ⟨spaced, hensure, rfl⟩ := hgo
  obtain ⟨b'', hgo', hvalid, _, hroom⟩ := ensureWritableBytes_spec h data.length
  rw [hensure, Except.ok.injEq] at hgo'
  subst hgo'
  exact (ensureWritableBytes_grows h hensure).congr rfl (length_copyTo hvalid.write_le_size hroom)

/-- A read that runs over into the stack buffer appends what is there to a full vector. -/
theorem readFd_grows (h : b.Valid) {ret : Int} {saveError : Option Nat}
    (hgo : b.readFd (.delivered data) = .ok (ret, saveError, b')) :
    Grows b (b.readableBytes + data.length) b' := by
  have hwrite := h.write_le_size
  have hfilled : (b.copyTo b.beginWrite (data.take b.writableBytes)).buffer_.length =
      b.buffer_.length :=
    length_copyTo hwrite (List.length_take_le _ _)
  simp only [readFd] at hgo
  split at hgo
  · simp only [pure_eq_ok_iff, Prod.mk.injEq] at hgo
    obtain ⟨_, _, rfl⟩ := hgo
    exact .of_length hfilled
  · rename_i hmore
    simp only [bind_eq_ok_iff, pure_eq_ok_iff, Prod.mk.injEq] at hgo
    obtain ⟨appended, happend, _, _, rfl⟩ := hgo
    have hread := h.read_le_write
    have hcheap := h.cheap_le_size
    have hindex : (b.copyTo b.beginWrite (data.take b.writableBytes)).readIndex_ =
        b.readIndex_ := rfl
    generalize b.copyTo b.beginWrite (data.take b.writableBytes) = filled at *
    have hvalid : { filled with writeIndex_ := filled.buffer_.length }.Valid := by
      constructor <;> simp only <;> omega
    have hdemand : { filled with writeIndex_ := filled.buffer_.length }.readableBytes +
        (data.drop b.writableBytes).length = b.readableBytes + data.length := by
      simp only [readableBytes, writableBytes, List.length_drop] at hmore ⊢
      omega
    rw [← hdemand]
    exact (append_grows hvalid happend).congr hfilled.symm rfl

namespace Op

/-- The bytes that a call needs room for: the content behind it, or what it reserves. -/
def demand (b : Buffer) : Op → Nat
  | .append data | .prepend data | .write data | .readFd (.delivered data) =>
    b.readableBytes + data.length
  | .ensureWritableBytes len => b.readableBytes + len
  | _ => b.readableBytes

end Op

theorem apply_grows (h : b.Valid) {op : Op} (hpre : op.Pre b) {out : Bytes}
    (hgo : op.apply b = .ok (b', out)) : Grows b (op.demand b) b' := by
  cases op with
  | append data =>
    simp only [Op.apply, bind_eq_ok_iff, pure_eq_ok_iff, Prod.mk.injEq] at hgo
    obtain ⟨_, happend, rfl, _⟩ := hgo
    exact append_grows h happend
  | prepend data =>
    simp only [Op.apply, prepend, bind_eq_ok_iff, require_eq_ok_iff, pure_eq_ok_iff,
      Prod.mk.injEq] at hgo
    obtain ⟨_, ⟨_, hroom, rfl⟩, rfl, _⟩ := hgo
    refine .of_length (Memory.length_copyInto ?_)
    have hread := h.read_le_write
    have hwrite := h.write_le_size
    simp only [prependableBytes] at hroom ⊢
    omega
  | retrieve len =>
    simp only [Op.apply, retrieve, bind_eq_ok_iff, pure_eq_ok_iff, Prod.mk.injEq] at hgo
    obtain ⟨_, ⟨_, _, rfl⟩, rfl, _⟩ := hgo
    exact .of_length rfl
  | retrieveUntil len =>
    simp only [Op.apply, retrieveUntil, retrieve, bind_eq_ok_iff, pure_eq_ok_iff,
      Prod.mk.injEq] at hgo
    obtain ⟨_, ⟨_, _, _, _, _, _, rfl⟩, rfl, _⟩ := hgo
    exact .of_length rfl
  | retrieveAll =>
    simp only [Op.apply, pure_eq_ok_iff, Prod.mk.injEq] at hgo
    obtain ⟨rfl, _⟩ := hgo
    exact .of_length rfl
  | retrieveAsString =>
    simp only [Op.apply, retrieveAsString, pure_eq_ok_iff, Prod.mk.injEq] at hgo
    obtain ⟨rfl, _⟩ := hgo
    exact .of_length rfl
  | ensureWritableBytes len =>
    simp only [Op.apply, bind_eq_ok_iff, pure_eq_ok_iff, Prod.mk.injEq] at hgo
    obtain ⟨_, hensure, rfl, _⟩ := hgo
    exact ensureWritableBytes_grows h hensure
  | write data =>
    simp only [Op.apply, pure_eq_ok_iff, Prod.mk.injEq] at hgo
    obtain ⟨rfl, _⟩ := hgo
    exact .of_length (length_copyTo h.write_le_size hpre)
  | readFd result =>
    simp only [Op.apply, bind_eq_ok_iff, pure_eq_ok_iff, Prod.mk.injEq] at hgo
    obtain ⟨⟨ret, saveError, _⟩, hread, rfl, _⟩ := hgo
    cases result with
    | failed errno =>
      simp only [readFd, pure_eq_ok_iff, Prod.mk.injEq] at hread
      obtain ⟨_, _, rfl⟩ := hread
      exact .of_length rfl
    | delivered data => exact readFd_grows h hread

/-- No call on a buffer of the pool needs room for more than `peak` bytes. -/
def needsAtMost (peak : Nat) : StepCondition Pool PoolOp Bytes := fun _ p l =>
  match l with
  | .on i op => op.demand (p i) ≤ peak
  | .swap _ _ => True

instance (peak : Nat) (tr : List Bytes) (p : Pool) (l : PoolOp) :
    Decidable (needsAtMost peak tr p l) := by
  cases l <;> unfold needsAtMost <;> infer_instance

/-- The memory of a buffer is at most about twice what it ever held, however its bytes came
    and went. -/
theorem pool_memory {peak : Nat} {tr : List Bytes} {p : Pool}
    (h : poolMachine.Reach (needsAtMost peak) tr p) (i : Nat) :
    (p i).buffer_.length ≤ max (kCheapPrepared + kInitialSize) (2 * peak + 7) := by
  revert i
  refine h.invariant (I := fun _ p => ∀ i, (p i).buffer_.length ≤
    max (kCheapPrepared + kInitialSize) (2 * peak + 7)) (fun p hinit i => ?_) ?_
  · rw [hinit i, new, List.length_replicate]
    exact Nat.le_max_left _ _
  · intro tr p l p' es hreach hbound hpeak hstep i
    cases l with
    | on j op =>
      simp only [poolMachine, bind_eq_ok_iff, enabled_eq_ok_iff, pure_eq_ok_iff,
        Prod.mk.injEq] at hstep
      obtain ⟨_, hpre, ⟨b, out⟩, hgo, rfl, _⟩ := hstep
      by_cases hi : i = j
      · subst hi
        have hgrown := (apply_grows (pool_valid hreach.any i) hpre hgo).bound
        have hdemand : op.demand (p i) ≤ peak := hpeak
        have hbefore := hbound i
        rw [Function.update_self]
        change b.buffer_.length ≤ _
        omega
      · rw [Function.update_of_ne hi]
        exact hbound i
    | swap j k =>
      simp only [poolMachine, pure_eq_ok_iff, Prod.mk.injEq] at hstep
      obtain ⟨rfl, _⟩ := hstep
      by_cases hk : i = k
      · subst hk
        rw [Function.update_self]
        exact hbound j
      · rw [Function.update_of_ne hk]
        by_cases hj : i = j
        · subst hj
          rw [Function.update_self]
          exact hbound k
        · rw [Function.update_of_ne hj]
          exact hbound i

/-- The bound is met where the front of a full vector has just been emptied. -/
theorem pool_memory_full : ∃ tr p, poolMachine.Reach (needsAtMost 1025) tr p ∧
    (p 0).buffer_.length = 2057 ∧
    (p 0).buffer_.length ≤ max (kCheapPrepared + kInitialSize) (2 * 1025 + 7) := by
  have hruns : poolMachine.runsIn (needsAtMost 1025) (fun _ => new)
      [.on 0 (.append (List.replicate 1024 1)), .on 0 (.retrieve 1024),
        .on 0 (.append (List.replicate 1025 2))]
      (fun _ p => (p 0).buffer_.length = 2057) = true := by
    decide +kernel
  obtain ⟨tr, p, hreach, htest⟩ := Machine.exists_reachIn (fun _ => rfl) hruns
  exact ⟨tr, p, hreach, of_decide_eq_true htest, pool_memory hreach 0⟩

end TcpNet.Buffer
