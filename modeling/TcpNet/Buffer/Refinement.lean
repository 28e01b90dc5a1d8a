import Mathlib.Logic.Function.Basic
import TcpNet.Buffer.Spec

open Transition

namespace TcpNet.Buffer

/-- A call of a public operation on one buffer. `write` stands for copying bytes
    to `beginWrite()` and calling `hasWriten` with their number; the pointer
    passed to `retrieveUntil` is given by its distance from `peek()`. -/
inductive Op where
  | append (data : Bytes)
  | prepend (data : Bytes)
  | retrieve (len : Nat)
  | retrieveUntil (len : Nat)
  | retrieveAll
  | retrieveAsString
  | ensureWritableBytes (len : Nat)
  | write (data : Bytes)
  | readFd (result : ReadResult)
  deriving DecidableEq, Repr

namespace Op

/-- What the caller of an operation has to respect. -/
def Pre (b : Buffer) : Op → Prop
  | .prepend data => data.length ≤ b.prependableBytes
  | .retrieve len => len ≤ b.readableBytes
  | .retrieveUntil len => len ≤ b.readableBytes
  | .write data => data.length ≤ b.writableBytes
  | .readFd (.delivered data) => data.length ≤ b.writableBytes + extraBufSize
  | _ => True

instance (b : Buffer) (op : Op) : Decidable (op.Pre b) := by
  unfold Pre
  split <;> infer_instance

/-- The buffer after the call, with the string that the call returned. -/
def apply (b : Buffer) : Op → Except Stop (Buffer × Bytes)
  | .append data => return (← b.append data, [])
  | .prepend data => return (← b.prepend data, [])
  | .retrieve len => return (← b.retrieve len, [])
  | .retrieveUntil len => return (← b.retrieveUntil (b.peek + len), [])
  | .retrieveAll => return (b.retrieveAll, [])
  | .retrieveAsString => return (b.retrieveAsString.2, b.retrieveAsString.1)
  | .ensureWritableBytes len => return (← b.ensureWritableBytes len, [])
  | .write data => return ((b.copyTo b.beginWrite data).hasWriten data.length, [])
  | .readFd result => return ((← b.readFd result).2.2, [])

/-- What the same call does to a byte string. -/
def spec (s : Bytes) : Op → Bytes × Bytes
  | .append data => (s ++ data, [])
  | .prepend data => (data ++ s, [])
  | .retrieve len => (s.drop len, [])
  | .retrieveUntil len => (s.drop len, [])
  | .retrieveAll => ([], [])
  | .retrieveAsString => ([], s)
  | .ensureWritableBytes _ => (s, [])
  | .write data => (s ++ data, [])
  | .readFd (.delivered data) => (s ++ data, [])
  | .readFd (.failed _) => (s, [])

end Op

/-- One call refines the list operation, and none of its assertions fails. -/
theorem apply_spec {b : Buffer} (h : b.Valid) (op : Op) (hpre : op.Pre b) :
    ∃ b' out, op.apply b = .ok (b', out) ∧ b'.Valid ∧ (b'.readable, out) = op.spec b.readable := by
  cases op with
  | append data =>
    obtain ⟨b', hgo, hvalid, hreadable⟩ := append_spec h data
    exact ⟨b', [], by rw [Op.apply, hgo]; rfl, hvalid, by rw [hreadable]; rfl⟩
  | prepend data =>
    obtain ⟨b', hgo, hvalid, hreadable⟩ := prepend_spec h hpre
    exact ⟨b', [], by rw [Op.apply, hgo]; rfl, hvalid, by rw [hreadable]; rfl⟩
  | retrieve len =>
    obtain ⟨b', hgo, hvalid, hreadable⟩ := retrieve_spec h hpre
    exact ⟨b', [], by rw [Op.apply, hgo]; rfl, hvalid, by rw [hreadable]; rfl⟩
  | retrieveUntil len =>
    obtain ⟨b', hgo, hvalid, hreadable⟩ := retrieveUntil_spec h hpre
    exact ⟨b', [], by rw [Op.apply, hgo]; rfl, hvalid, by rw [hreadable]; rfl⟩
  | retrieveAll =>
    obtain ⟨hvalid, hreadable⟩ := retrieveAll_spec h
    exact ⟨_, [], rfl, hvalid, by rw [hreadable]; rfl⟩
  | retrieveAsString =>
    obtain ⟨hvalid, hreadable⟩ := retrieveAll_spec h
    exact ⟨_, _, rfl, hvalid, by rw [retrieveAsString, hreadable]; rfl⟩
  | ensureWritableBytes len =>
    obtain ⟨b', hgo, hvalid, hreadable, _⟩ := ensureWritableBytes_spec h len
    exact ⟨b', [], by rw [Op.apply, hgo]; rfl, hvalid, by rw [hreadable]; rfl⟩
  | write data =>
    obtain ⟨hvalid, hreadable⟩ := write_spec h data hpre
    exact ⟨_, [], rfl, hvalid, by rw [hreadable]; rfl⟩
  | readFd result =>
    cases result with
    | failed errno => exact ⟨b, [], rfl, h, rfl⟩
    | delivered data =>
      obtain ⟨b', hgo, hvalid, hreadable⟩ := readFd_delivered_spec h data
      exact ⟨b', [], by rw [Op.apply, hgo]; rfl, hvalid, by rw [hreadable]; rfl⟩

/-- Any number of buffers, by the name of the object. -/
abbrev Pool := Nat → Buffer

/-- A call on one buffer of the pool, or `swap` of two of them. -/
inductive PoolOp where
  | on (i : Nat) (op : Op)
  | swap (i j : Nat)
  deriving DecidableEq, Repr

/-- All buffers are freshly constructed; a call the caller must not make is no
    step of the machine. The events are the strings returned. -/
def poolMachine : Machine Pool PoolOp Bytes where
  init p := ∀ i, p i = new
  step p
    | .on i op => do
      enabled (op.Pre (p i))
      let (b, out) ← op.apply (p i)
      return (Function.update p i b, [out])
    | .swap i j =>
      return (Function.update (Function.update p i ((p i).swap (p j)).1) j ((p i).swap (p j)).2, [])

/-- What the buffers are for: named byte strings, with the list operations. -/
def fifoMachine : Machine (Nat → Bytes) PoolOp Bytes where
  init q := ∀ i, q i = []
  step q
    | .on i op => return (Function.update q i (op.spec (q i)).1, [(op.spec (q i)).2])
    | .swap i j => return (Function.update (Function.update q i (q j)) j (q i), [])

/-- The abstract content of every buffer. -/
def Pool.contents (p : Pool) : Nat → Bytes := fun i => (p i).readable

theorem contents_update (p : Pool) (i : Nat) (b : Buffer) :
    Pool.contents (Function.update p i b) = Function.update p.contents i b.readable := by
  funext k
  by_cases hk : k = i
  · subst k
    simp [Pool.contents]
  · simp [Pool.contents, hk]

/-- One step of a pool in order: it goes through unless the caller breaks the
    contract of the operation, keeps all buffers in order, and is the step of
    the byte strings. -/
theorem poolMachine_step {p : Pool} (hvalid : ∀ i, (p i).Valid) (l : PoolOp) :
    poolMachine.step p l = .error .disabled ∨
      ∃ p' es, poolMachine.step p l = .ok (p', es) ∧ (∀ i, (p' i).Valid) ∧
        fifoMachine.step p.contents l = .ok (p'.contents, es) := by
  cases l with
  | on i op =>
    by_cases hpre : op.Pre (p i)
    · right
      obtain ⟨b', out, hgo, hvalid', hspec⟩ := apply_spec (hvalid i) op hpre
      refine ⟨Function.update p i b', [out], ?_, ?_, ?_⟩
      · simp only [poolMachine, enabled_of hpre, ok_bind, hgo]
        rfl
      · intro k
        by_cases hk : k = i
        · subst k
          simpa using hvalid'
        · simpa [hk] using hvalid k
      · have hcontents : p.contents i = (p i).readable := rfl
        simp only [fifoMachine, contents_update, hcontents, ← hspec]
        rfl
    · left
      simp only [poolMachine, enabled, hpre, if_false, error_bind]
  | swap i j =>
    right
    refine ⟨_, _, rfl, ?_, ?_⟩
    · intro k
      by_cases hj : k = j
      · subst k
        simpa [swap] using hvalid i
      · by_cases hi : k = i
        · subst k
          simpa [swap, hj] using hvalid j
        · simpa [hi, hj] using hvalid k
    · simp only [fifoMachine, contents_update]
      rfl

/-- A step that goes through. -/
theorem poolMachine_ok {p p' : Pool} {l : PoolOp} {es : List Bytes} (hvalid : ∀ i, (p i).Valid)
    (hstep : poolMachine.step p l = .ok (p', es)) :
    (∀ i, (p' i).Valid) ∧ fifoMachine.step p.contents l = .ok (p'.contents, es) := by
  rcases poolMachine_step hvalid l with hdisabled | ⟨p'', es', hgo, hvalid', hfifo⟩
  · rw [hdisabled] at hstep
    cases hstep
  · rw [hgo, Except.ok.injEq, Prod.mk.injEq] at hstep
    obtain ⟨rfl, rfl⟩ := hstep
    exact ⟨hvalid', hfifo⟩

theorem pool_valid {tr : List Bytes} {p : Pool} (h : poolMachine.Reach anyStep tr p) :
    ∀ i, (p i).Valid := by
  refine h.invariant (I := fun _ p => ∀ i, (p i).Valid) (fun p hinit i => ?_) ?_
  · rw [hinit i]
    exact valid_new
  · intro _ p l p' es _ hvalid _ hstep
    exact (poolMachine_ok hvalid hstep).1

/-- In every run of contract-respecting calls on fresh buffers the indexes stay
    in order, no assertion fails, and the contents are those of byte strings
    under the corresponding list operations, returned strings included. -/
theorem pool_refines_fifo {tr : List Bytes} {p : Pool} (h : poolMachine.Reach anyStep tr p) :
    (∀ i, 0 ≤ (p i).readIndex_ ∧ (p i).readIndex_ ≤ (p i).writeIndex_ ∧
        (p i).writeIndex_ ≤ (p i).buffer_.length) ∧
      (∀ i len, (p i).buffer_.length < 2 ^ 63 → len < 2 ^ 63 → (p i).NoWrap len) ∧
      (∀ l, poolMachine.step p l ≠ .error .assertion) ∧
      (∀ l p' es, poolMachine.step p l = .ok (p', es) →
        fifoMachine.step p.contents l = .ok (p'.contents, es)) ∧
      fifoMachine.Reach anyStep tr p.contents := by
  have hvalid := pool_valid h
  refine ⟨fun i => ⟨Nat.zero_le _, (hvalid i).read_le_write, (hvalid i).write_le_size⟩,
    fun i _ hsize hlen => (hvalid i).noWrap hsize hlen, ?_,
    fun l p' es hstep => (poolMachine_ok hvalid hstep).2, ?_⟩
  · intro l hstep
    rcases poolMachine_step hvalid l with hdisabled | ⟨p', es, hgo, _⟩
    · rw [hdisabled] at hstep
      cases hstep
    · rw [hgo] at hstep
      cases hstep
  · have simulation : Simulation poolMachine fifoMachine Pool.contents (fun _ l => some l)
        (fun out => [out]) anyStep := by
      refine ⟨fun p hinit i => ?_, fun _ _ _ _ _ hreach _ hstep => ?_⟩
      · show (p i).readable = []
        rw [hinit i, readable_new]
      · simpa using (poolMachine_ok (pool_valid hreach) hstep).2
    simpa using simulation.reach h

/-- Room is made for the second append by sliding, bytes are put in front, the read needs a
    larger vector, and the two buffers are swapped. -/
theorem pool_refines_fifo_swap : ∃ tr p, poolMachine.Reach anyStep tr p ∧
    (p 1).buffer_.length = 1808 ∧ p.contents 0 = [9] ∧
    p.contents 1 = 5 :: (List.replicate 100 1 ++ List.replicate 200 2 ++ List.replicate 1500 3) ∧
    (∀ i, 0 ≤ (p i).readIndex_ ∧ (p i).readIndex_ ≤ (p i).writeIndex_ ∧
      (p i).writeIndex_ ≤ (p i).buffer_.length) ∧
    fifoMachine.Reach anyStep tr p.contents := by
  have hruns : poolMachine.runs (fun _ => new)
      [.on 0 (.append (List.replicate 1000 1)), .on 0 (.retrieve 900),
        .on 0 (.append (List.replicate 200 2)), .on 0 (.prepend [5]),
        .on 0 (.readFd (.delivered (List.replicate 1500 3))), .on 1 (.append [9]), .swap 0 1]
      (fun _ p => (p 1).buffer_.length = 1808 ∧ p.contents 0 = [9] ∧ p.contents 1 =
        5 :: (List.replicate 100 1 ++ List.replicate 200 2 ++ List.replicate 1500 3)) = true := by
    decide +kernel
  obtain ⟨tr, p, hreach, htest⟩ := Machine.exists_reach (fun _ => rfl) hruns
  obtain ⟨hsize, hzero, hone⟩ := of_decide_eq_true htest
  obtain ⟨hindexes, _, _, _, hfifo⟩ := pool_refines_fifo hreach
  exact ⟨tr, p, hreach, hsize, hzero, hone, hindexes, hfifo⟩

end TcpNet.Buffer
