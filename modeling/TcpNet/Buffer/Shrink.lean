import TcpNet.Buffer.Refinement

open Transition

namespace TcpNet.Buffer

/-- What `shrink(reserve)` is for: the content stays, the indexes stay in order, and
    there is room for `reserve` more bytes. -/
def KeepsContent (b : Buffer) (reserve : Nat) : Prop :=
  ∃ b', b.shrink reserve = some b' ∧ b'.readable = b.readable ∧
    b'.readIndex_ ≤ b'.writeIndex_ ∧ b'.writeIndex_ ≤ b'.buffer_.length ∧
    b'.writableBytes = reserve

/-- The content starts where `shrink` puts it, and the new vector is not too large. -/
def AtFront (b : Buffer) (reserve : Nat) : Prop :=
  b.readIndex_ = kCheapPrepared ∧ kCheapPrepared + b.readableBytes + reserve ≤ maxSize

instance (b : Buffer) (reserve : Nat) : Decidable (b.AtFront reserve) :=
  inferInstanceAs (Decidable (_ ∧ _))

variable {b b' : Buffer} {reserve : Nat}

theorem vector_of_le {n : Nat} (h : n ≤ maxSize) : vector n = some (List.replicate n 0) := if_pos h

/-- The indexes stay, and the vector gets its new size. -/
theorem shrink_eq_some (h : b.shrink reserve = some b') :
    b'.readIndex_ = b.readIndex_ ∧ b'.writeIndex_ = b.writeIndex_ ∧
      b'.buffer_.length = (kCheapPrepared + b.readableBytes + reserve) % 2 ^ 64 := by
  simp only [shrink, Option.bind_eq_bind, Option.bind_eq_some_iff, Option.pure_def,
    Option.some.injEq] at h
  obtain ⟨buf, hvector, data, _, buf', hstore, rfl⟩ := h
  refine ⟨rfl, rfl, ?_⟩
  have hlength := Memory.length_of_store hstore
  unfold vector at hvector
  split at hvector
  · rw [← Option.some.inj hvector, List.length_replicate] at hlength
    exact hlength
  · cases hvector

theorem shrink_spec (h : b.Valid) (hfront : b.AtFront reserve) :
    ∃ b', b.shrink reserve = some b' ∧ b'.Valid ∧ b'.readable = b.readable ∧
      b'.writableBytes = reserve := by
  obtain ⟨hread, hsize⟩ := hfront
  have horder := h.read_le_write
  have hlength := h.length_readable
  have hend : b.peek + b.readableBytes = b.writeIndex_ := by
    simp only [peek, readableBytes]
    omega
  have hwrite : b.writeIndex_ = kCheapPrepared + b.readable.length := by
    rw [hlength, ← hread]
    exact hend.symm
  have hnowrap : (kCheapPrepared + b.readableBytes + reserve) % 2 ^ 64 =
      kCheapPrepared + b.readableBytes + reserve := by
    simp only [maxSize] at hsize
    omega
  have hfit : kCheapPrepared + b.readable.length ≤
      (List.replicate (kCheapPrepared + b.readableBytes + reserve) (0 : Byte)).length := by
    rw [List.length_replicate]
    omega
  have hload : Memory.load b.buffer_ b.peek (b.peek + b.readableBytes) = some b.readable := by
    rw [hend, Memory.load_of_le h.write_le_size]
    rfl
  have hshrink : b.shrink reserve = some { b with
      buffer_ := Memory.copyInto
        (List.replicate (kCheapPrepared + b.readableBytes + reserve) 0) kCheapPrepared
        b.readable } := by
    rw [shrink, hnowrap, vector_of_le hsize, hload]
    simp only [Option.bind_eq_bind, Option.bind_some, Memory.store_of_le hfit]
    rfl
  refine ⟨_, hshrink, ⟨horder, ?_, ?_⟩, ?_, ?_⟩
  · rw [Memory.length_copyInto hfit, hwrite]
    exact hfit
  · rw [Memory.length_copyInto hfit]
    omega
  · have hback := Memory.slice_copyInto_data
      (List.replicate (kCheapPrepared + b.readableBytes + reserve) 0) b.readable
      (i := kCheapPrepared) (by omega)
    rw [← hwrite] at hback
    change Memory.slice _ b.readIndex_ b.writeIndex_ = b.readable
    rw [hread]
    exact hback
  · simp only [writableBytes, Memory.length_copyInto hfit, List.length_replicate]
    omega

/-- On a buffer in order `shrink` does what it is for exactly if the content starts at
    `kCheapPrepared`. The indexes are outside of the vector, and do not move with it. -/
theorem keepsContent_iff (h : b.Valid) : b.KeepsContent reserve ↔ b.AtFront reserve := by
  constructor
  · rintro ⟨b', hshrink, _, _, hinside, hroom⟩
    obtain ⟨hread, hwrite, hlength⟩ := shrink_eq_some hshrink
    have horder := h.read_le_write
    have hsize : (kCheapPrepared + b.readableBytes + reserve) % 2 ^ 64 ≤ maxSize := by
      by_contra hlarge
      simp only [shrink, vector, if_neg hlarge, Option.bind_eq_bind, Option.bind_none] at hshrink
      cases hshrink
    have hreadable : b.readableBytes = b.writeIndex_ - b.readIndex_ := rfl
    rw [writableBytes, hlength, hwrite] at hroom
    rw [hlength, hwrite] at hinside
    simp only [AtFront, kCheapPrepared, maxSize] at hsize hroom hinside ⊢
    omega
  · intro hfront
    obtain ⟨b', hshrink, hvalid, hreadable, hroom⟩ := shrink_spec h hfront
    exact ⟨b', hshrink, hreadable, hvalid.read_le_write, hvalid.write_le_size, hroom⟩

/-- A call on one buffer of the pool, `swap` of two, or `shrink` of one. -/
inductive Call where
  | on (i : Nat) (op : Op)
  | swap (i j : Nat)
  | shrink (i reserve : Nat)
  deriving DecidableEq, Repr

/-- A call of `shrink`, with the buffer as it finds it, and what it makes of it. -/
structure Shrunk where
  before : Buffer
  reserve : Nat
  after : Option Buffer
  deriving DecidableEq, Repr

/-- The buffers of `poolMachine` with `shrink` as one more operation. The trace holds the
    calls of `shrink`. One that has no result leaves the pool as it is, and a buffer with
    its indexes outside of its vector can no more be worked on. -/
def shrinkMachine : Machine Pool Call Shrunk where
  init := poolMachine.init
  step p
    | .on i op => do
      enabled (p i).Valid
      let (p', _) ← poolMachine.step p (.on i op)
      return (p', [])
    | .swap i j => do
      let (p', _) ← poolMachine.step p (.swap i j)
      return (p', [])
    | .shrink i reserve =>
      let after := (p i).shrink reserve
      return (after.elim p (Function.update p i), [⟨p i, reserve, after⟩])

/-- Every call of `shrink` finds the content of its buffer at `kCheapPrepared`. -/
def shrinksAtFront : StepCondition Pool Call Shrunk := fun _ p call =>
  match call with
  | .shrink i reserve => (p i).AtFront reserve
  | _ => True

variable {tr es : List Shrunk} {p p' : Pool} {call : Call}

/-- A call of `shrink` is the only one that is seen. -/
theorem shrinkMachine_cases (hstep : shrinkMachine.step p call = .ok (p', es)) :
    (∃ op strings, poolMachine.step p op = .ok (p', strings) ∧ es = [] ∧
        ∀ tr, shrinksAtFront tr p call) ∨
      ∃ i reserve, call = .shrink i reserve ∧
        p' = ((p i).shrink reserve).elim p (Function.update p i) ∧
        es = [⟨p i, reserve, (p i).shrink reserve⟩] := by
  cases call with
  | on i op =>
    simp only [shrinkMachine, bind_eq_ok_iff, pure_eq_ok_iff, Prod.mk.injEq] at hstep
    obtain ⟨_, _, ⟨p'', strings⟩, hgo, rfl, rfl⟩ := hstep
    exact .inl ⟨_, strings, hgo, rfl, fun _ => trivial⟩
  | swap i j =>
    simp only [shrinkMachine, bind_eq_ok_iff, pure_eq_ok_iff, Prod.mk.injEq] at hstep
    obtain ⟨⟨p'', strings⟩, hgo, rfl, rfl⟩ := hstep
    exact .inl ⟨_, strings, hgo, rfl, fun _ => trivial⟩
  | shrink i reserve =>
    simp only [shrinkMachine, pure_eq_ok_iff, Prod.mk.injEq] at hstep
    obtain ⟨rfl, rfl⟩ := hstep
    exact .inr ⟨i, reserve, rfl, rfl, rfl⟩

/-- As long as `shrink` finds the content at the front, all buffers stay in order. -/
theorem reach_valid (h : shrinkMachine.Reach shrinksAtFront tr p) : ∀ i, (p i).Valid := by
  refine h.invariant (I := fun _ p => ∀ i, (p i).Valid) (fun p hinit i => ?_) ?_
  · rw [hinit i]
    exact valid_new
  · intro tr p call p' es _ hvalid hcond hstep
    obtain ⟨op, strings, hgo, _⟩ | ⟨i, reserve, rfl, rfl, _⟩ := shrinkMachine_cases hstep
    · exact (poolMachine_ok hvalid hgo).1
    · obtain ⟨b, hshrink, hvalid', _⟩ := shrink_spec (hvalid i) hcond
      rw [hshrink]
      intro k
      by_cases hk : k = i
      · subst hk
        simpa using hvalid'
      · simpa [hk] using hvalid k

theorem keeps_step_iff (hreach : shrinkMachine.Reach shrinksAtFront tr p)
    (hkeeps : ∀ call ∈ tr, call.before.KeepsContent call.reserve)
    (hstep : shrinkMachine.step p call = .ok (p', es)) :
    (∀ call ∈ tr ++ es, call.before.KeepsContent call.reserve) ↔ shrinksAtFront tr p call := by
  obtain ⟨_, _, _, rfl, hcond⟩ | ⟨i, reserve, rfl, _, rfl⟩ := shrinkMachine_cases hstep
  · rw [List.append_nil]
    exact iff_of_true hkeeps (hcond tr)
  · rw [List.forall_mem_append, and_iff_right hkeeps, List.forall_mem_singleton]
    exact keepsContent_iff (reach_valid hreach i)

/-- In every run of public operations, `shrink` included, every call of `shrink` keeps the
    content, the order of the indexes, and makes the room asked for, exactly if every one
    finds the content at `kCheapPrepared`, and asks for a size that a vector can have. -/
theorem shrink_iff (h : shrinkMachine.Reach anyStep tr p) :
    (∀ call ∈ tr, call.before.KeepsContent call.reserve) ↔
      shrinkMachine.Reach shrinksAtFront tr p := by
  refine h.iff_condition (P := fun tr => ∀ call ∈ tr, call.before.KeepsContent call.reserve)
    (by simp) ?_ ?_
  · exact fun tr es hall call hmem => hall call (List.mem_append_left es hmem)
  · intro tr p call p' es hreach hkeeps hstep
    exact keeps_step_iff hreach hkeeps hstep

instance (tr : List Shrunk) (p : Pool) (call : Call) : Decidable (shrinksAtFront tr p call) :=
  match call with
  | .shrink i reserve => inferInstanceAs (Decidable ((p i).AtFront reserve))
  | .on _ _ => inferInstanceAs (Decidable True)
  | .swap _ _ => inferInstanceAs (Decidable True)

/-- What is retrieved is prepended again before the second call. -/
theorem shrink_iff_prepended : ∃ tr p, shrinkMachine.Reach shrinksAtFront tr p ∧
    tr.length = 2 ∧ ∀ call ∈ tr, call.before.KeepsContent call.reserve := by
  have hruns : shrinkMachine.runsIn shrinksAtFront (fun _ => new)
      [.on 0 (.append [1, 2, 3]), .shrink 0 5, .swap 0 1, .on 1 (.retrieve 2),
        .on 1 (.prepend [4, 5]), .shrink 1 0]
      (fun tr _ => tr.length = 2) = true := by
    decide +kernel
  obtain ⟨tr, p, hreach, hlength⟩ := Machine.exists_reachIn (fun _ => rfl) hruns
  exact ⟨tr, p, hreach, of_decide_eq_true hlength, (shrink_iff hreach.any).mpr hreach⟩

/-- Behind `retrieve` the content is no more where the indexes of the new vector are. -/
theorem shrink_retrieved :
    ¬ ∀ tr p, shrinkMachine.Reach anyStep tr p →
      ∀ call ∈ tr, call.before.KeepsContent call.reserve := by
  intro hall
  have hruns : shrinkMachine.runs (fun _ => new)
      [.on 0 (.append [1, 2, 3]), .on 0 (.retrieve 1), .shrink 0 0]
      (fun tr _ => tr.any fun call => call.before.Valid ∧ call.before.readIndex_ = 9) = true := by
    decide +kernel
  obtain ⟨tr, p, hreach, htest⟩ := Machine.exists_reach (fun _ => rfl) hruns
  obtain ⟨call, hmem, hfound⟩ := List.any_eq_true.mp htest
  obtain ⟨hvalid, hread⟩ := of_decide_eq_true hfound
  have hfront := (keepsContent_iff hvalid).mp (hall tr p hreach call hmem)
  rw [hfront.1] at hread
  cases hread

end TcpNet.Buffer
