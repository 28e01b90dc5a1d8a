import TcpNet.EventLoop

open Transition

namespace TcpNet.EventLoop

/-- A loop among other threads. `pushing` holds while the owner stands between
    the two halves of its own `queueInloop`, `others t` while thread `t` does. -/
structure Delivery (F : Type) where
  self : EventLoop F
  pushing : Bool
  others : Nat → Bool

/-- The atomic steps of the owner and of the other threads. Event handlers, timer
    callbacks and running functors all push from the owner thread. -/
inductive DeliveryStep (F : Type) where
  | loop
  | pollReturns
  | handleRead
  | enterPending
  | swapPending
  | callNext
  | leavePending
  | push (cb : F)
  | wakeup
  | otherPush (t : Nat) (cb : F)
  | otherWakeup (t : Nat)

/-- The phases in which the owner thread runs code that may call `queueInloop`. -/
def RunsUserCode (phase : LoopPhase) : Prop := phase = .dispatching ∨ phase = .calling

instance (phase : LoopPhase) : Decidable (RunsUserCode phase) :=
  inferInstanceAs (Decidable (_ ∨ _))

/-- A loop that is started and not quit, with other threads pushing at any time. -/
def delivery (F : Type) : Machine (Delivery F) (DeliveryStep F) (BatchQueue.Event F) where
  init s := (∃ garbage, s.self = new garbage) ∧ s.pushing = false ∧ ∀ t, s.others t = false
  step s
    | .loop => return ({ s with self := ← s.self.loop }, [])
    | .pollReturns => return ({ s with self := ← s.self.pollReturns }, [])
    | .handleRead => do
      enabled (s.self.phase = .dispatching ∧ s.pushing = false)
      return ({ s with self := s.self.handleRead }, [])
    | .enterPending => do
      enabled (s.pushing = false)
      return ({ s with self := ← s.self.enterPending }, [])
    | .swapPending => return ({ s with self := ← s.self.swapPending }, [.batchTaken])
    | .callNext => do
      enabled (s.pushing = false)
      let (cb, self) ← s.self.nextFunctor
      return ({ s with self := self }, [.ran cb])
    | .leavePending => do
      enabled (s.pushing = false)
      return ({ s with self := ← s.self.leavePending }, [])
    | .push cb => do
      enabled (RunsUserCode s.self.phase ∧ s.pushing = false)
      return ({ s with self := s.self.pushBack cb, pushing := true }, [.pushed cb])
    | .wakeup => do
      enabled (s.pushing = true)
      return ({ s with self := s.self.wakeupIfNeeded true, pushing := false }, [])
    | .otherPush t cb => do
      enabled (s.others t = false)
      return ({ s with self := s.self.pushBack cb, others := Function.update s.others t true },
        [.pushed cb])
    | .otherWakeup t => do
      enabled (s.others t = true)
      return ({ s with
        self := s.self.wakeupIfNeeded false
        others := Function.update s.others t false }, [])

/-- A wakeup is on its way: the counter is positive, or another thread has
    pushed and is about to write. -/
def Delivery.WakeupComing {F : Type} (s : Delivery F) : Prop :=
  0 < s.self.wakeups ∨ ∃ t, s.others t = true

/-- The steps as a relation: in which state each is possible, and what it does. -/
inductive Delivery.Next {F : Type} (s : Delivery F) :
    DeliveryStep F → Delivery F → List (BatchQueue.Event F) → Prop
  | loop : s.self.phase = .created →
      s.Next .loop { s with self := { s.self with phase := .polling } } []
  | pollReturns : s.self.phase = .polling →
      s.Next .pollReturns { s with self := { s.self with phase := .dispatching } } []
  | handleRead : s.self.phase = .dispatching → s.pushing = false →
      s.Next .handleRead { s with self := s.self.handleRead } []
  | enterPending : s.self.phase = .dispatching → s.pushing = false →
      s.Next .enterPending { s with
        self := { s.self with phase := .entering, callingPendingFunctors_ := true } } []
  | swapPending : s.self.phase = .entering →
      s.Next .swapPending { s with self := { s.self with
        phase := .calling, functors := s.self.pendingFunctor_, pendingFunctor_ := [] } }
        [.batchTaken]
  | callNext {cb : F} {rest : List F} : s.self.phase = .calling → s.pushing = false →
      s.self.functors = cb :: rest →
      s.Next .callNext { s with self := { s.self with functors := rest } } [.ran cb]
  | leavePending : s.self.phase = .calling → s.pushing = false → s.self.functors = [] →
      s.Next .leavePending { s with
        self := { s.self with phase := .polling, callingPendingFunctors_ := false } } []
  | push {cb : F} : RunsUserCode s.self.phase → s.pushing = false →
      s.Next (.push cb) { s with self := s.self.pushBack cb, pushing := true } [.pushed cb]
  | wakeup : s.pushing = true →
      s.Next .wakeup { s with self := s.self.wakeupIfNeeded true, pushing := false } []
  | otherPush {t : Nat} {cb : F} : s.others t = false →
      s.Next (.otherPush t cb)
        { s with self := s.self.pushBack cb, others := Function.update s.others t true }
        [.pushed cb]
  | otherWakeup {t : Nat} : s.others t = true →
      s.Next (.otherWakeup t)
        { s with self := s.self.wakeup, others := Function.update s.others t false } []

variable {F : Type}

theorem delivery_step_next {s s' : Delivery F} {l : DeliveryStep F} {es : List (BatchQueue.Event F)}
    (h : (delivery F).step s l = .ok (s', es)) : s.Next l s' es := by
  cases l <;> simp only [delivery, bind_eq_ok_iff, enabled_eq_ok_iff, pure_eq_ok_iff,
    Prod.mk.injEq] at h
  case loop =>
    obtain ⟨self, hgo, rfl, rfl⟩ := h
    obtain ⟨hphase, rfl⟩ := loop_eq_ok hgo
    exact .loop hphase
  case pollReturns =>
    obtain ⟨self, hgo, rfl, rfl⟩ := h
    obtain ⟨hphase, rfl⟩ := pollReturns_eq_ok hgo
    exact .pollReturns hphase
  case handleRead =>
    obtain ⟨_, ⟨hphase, hquiet⟩, rfl, rfl⟩ := h
    exact .handleRead hphase hquiet
  case enterPending =>
    obtain ⟨_, hquiet, self, hgo, rfl, rfl⟩ := h
    obtain ⟨hphase, rfl⟩ := enterPending_eq_ok hgo
    exact .enterPending hphase hquiet
  case swapPending =>
    obtain ⟨self, hgo, rfl, rfl⟩ := h
    obtain ⟨hphase, rfl⟩ := swapPending_eq_ok hgo
    exact .swapPending hphase
  case callNext =>
    obtain ⟨_, hquiet, ⟨cb, self⟩, hgo, rfl, rfl⟩ := h
    obtain ⟨hphase, rest, hfunctors, rfl⟩ := nextFunctor_eq_ok hgo
    exact .callNext hphase hquiet hfunctors
  case leavePending =>
    obtain ⟨_, hquiet, self, hgo, rfl, rfl⟩ := h
    obtain ⟨hphase, hfunctors, rfl⟩ := leavePending_eq_ok hgo
    exact .leavePending hphase hquiet hfunctors
  case push =>
    obtain ⟨_, ⟨hcode, hquiet⟩, rfl, rfl⟩ := h
    exact .push hcode hquiet
  case wakeup =>
    obtain ⟨_, hpushing, rfl, rfl⟩ := h
    exact .wakeup hpushing
  case otherPush =>
    obtain ⟨_, hidle, rfl, rfl⟩ := h
    exact .otherPush hidle
  case otherWakeup =>
    obtain ⟨_, hpushed, rfl, rfl⟩ := h
    exact .otherWakeup hpushed

/-- What every step keeps. `covered` is the statement about blocking, extended to
    the batch being called: there the owner itself may be about to wake up. -/
structure Delivery.Inv (s : Delivery F) : Prop where
  pushing : s.pushing = true → RunsUserCode s.self.phase
  calling : s.self.phase = .entering ∨ s.self.phase = .calling →
    s.self.callingPendingFunctors_ = true
  batch : s.self.phase ≠ .calling → s.self.functors = []
  covered : s.self.phase ≠ .dispatching → s.self.phase ≠ .entering →
    s.self.pendingFunctor_ ≠ [] → s.WakeupComing ∨ s.pushing = true

theorem delivery_init_inv {s : Delivery F} (h : (delivery F).init s) : s.Inv := by
  obtain ⟨⟨garbage, hself⟩, hpushing, _⟩ := h
  constructor <;> simp [hself, hpushing, new]

theorem Delivery.Inv.next {s s' : Delivery F} {l : DeliveryStep F}
    {es : List (BatchQueue.Event F)} (hinv : s.Inv) (h : s.Next l s' es) : s'.Inv := by
  obtain ⟨hpushing, hcalling, hbatch, hcovered⟩ := hinv
  cases h with
  | loop hphase =>
    refine ⟨fun hpush => ?_, by simp, fun _ => hbatch (by simp [hphase]), fun _ _ hpending => ?_⟩
    · simpa [RunsUserCode, hphase] using hpushing hpush
    · exact hcovered (by simp [hphase]) (by simp [hphase]) hpending
  | pollReturns hphase =>
    exact ⟨by simp [RunsUserCode], by simp, fun _ => hbatch (by simp [hphase]), by simp⟩
  | handleRead hphase hquiet =>
    exact ⟨hpushing, hcalling, hbatch, fun hnot => absurd hphase hnot⟩
  | enterPending hphase hquiet =>
    exact ⟨by simp [hquiet], by simp, fun _ => hbatch (by simp [hphase]), by simp⟩
  | swapPending hphase =>
    exact ⟨by simp [RunsUserCode], fun _ => hcalling (.inl hphase), by simp, by simp⟩
  | callNext hphase hquiet hfunctors =>
    refine ⟨by simp [hquiet], fun _ => hcalling (.inr hphase), fun hnot => absurd hphase hnot, ?_⟩
    exact fun _ _ hpending => hcovered (by simp [hphase]) (by simp [hphase]) hpending
  | leavePending hphase hquiet hfunctors =>
    refine ⟨by simp [hquiet], by simp, fun _ => hfunctors, fun _ _ hpending => ?_⟩
    exact hcovered (by simp [hphase]) (by simp [hphase]) hpending
  | push hcode hquiet =>
    exact ⟨fun _ => hcode, hcalling, hbatch, fun _ _ _ => .inr rfl⟩
  | wakeup hpush =>
    refine ⟨by simp, by simpa using hcalling, by simpa using hbatch, fun hnot _ _ => .inl (.inl ?_)⟩
    -- Outside the handlers the owner pushes from a running functor only, and there it writes.
    have hphase : s.self.phase = .calling := by
      rcases hpushing hpush with hdispatch | hcall
      · exact absurd (by simpa using hdispatch) hnot
      · exact hcall
    simp only [wakeupIfNeeded, hcalling (.inr hphase), Bool.or_true, if_true]
    exact wakeup_positive _
  | @otherPush t cb hidle =>
    exact ⟨hpushing, hcalling, hbatch, fun _ _ _ => .inl (.inr ⟨t, by simp⟩)⟩
  | otherWakeup hpushed =>
    refine ⟨by simpa using hpushing, by simpa using hcalling, by simpa using hbatch, ?_⟩
    exact fun _ _ _ => .inl (.inl (wakeup_positive _))

theorem delivery_inv {tr : List (BatchQueue.Event F)} {s : Delivery F}
    (h : (delivery F).Reach anyStep tr s) : s.Inv :=
  h.invariant (I := fun _ s => s.Inv) (fun _ hinit => delivery_init_inv hinit)
    (fun _ _ _ _ _ _ hinv _ hstep => hinv.next (delivery_step_next hstep))

/-- The pending functors and the batch being called, as a queue emptied in batches. -/
def Delivery.queue (s : Delivery F) : BatchQueue.Queue F := ⟨s.self.functors, s.self.pendingFunctor_⟩

/-- What a step does to that queue. -/
def DeliveryStep.queueOp : DeliveryStep F → Option (BatchQueue.Op F)
  | .push cb | .otherPush _ cb => some (.push cb)
  | .swapPending => some .takeBatch
  | .callNext => some .run
  | _ => none

theorem delivery_simulates_batchQueue :
    Simulation (delivery F) (BatchQueue.machine F) Delivery.queue (fun _ => DeliveryStep.queueOp)
      (fun e => [e]) anyStep := by
  refine ⟨fun s hinit => ?_, fun tr s l s' es hreach _ hstep => ?_⟩
  · obtain ⟨⟨garbage, hself⟩, _⟩ := hinit
    simp [Delivery.queue, BatchQueue.machine, hself, new]
  · have hinv := delivery_inv hreach
    cases delivery_step_next hstep with
    | swapPending hphase =>
      have hbatch := hinv.batch (by simp [hphase])
      simp [DeliveryStep.queueOp, BatchQueue.machine, Delivery.queue, hbatch]
    | callNext hphase hquiet hfunctors =>
      simp [DeliveryStep.queueOp, BatchQueue.machine, Delivery.queue, hfunctors]
    | _ => simp [DeliveryStep.queueOp, BatchQueue.machine, Delivery.queue, pushBack, handleRead]

/-- In every run the functors executed are a prefix of the functors pushed, each
    in a later batch than all that had been started when it was pushed; and where
    the owner is about to block with functors pending, a wakeup is on its way. -/
theorem delivery_of_functors {tr : List (BatchQueue.Event F)} {s : Delivery F}
    (h : (delivery F).Reach anyStep tr s) :
    (BatchQueue.runLog 0 tr).map Prod.fst <+: (BatchQueue.pushLog 0 tr).map Prod.fst ∧
      (∃ served, served <+: BatchQueue.pushLog 0 tr ∧
        List.Forall₂ BatchQueue.RanLater served (BatchQueue.runLog 0 tr)) ∧
      (s.self.phase = .polling → s.self.pendingFunctor_ ≠ [] → s.WakeupComing) := by
  have hqueue : (BatchQueue.machine F).Reach anyStep tr s.queue := by
    simpa using delivery_simulates_batchQueue.reach h
  have hinv := delivery_inv h
  refine ⟨⟨_, BatchQueue.fifo hqueue⟩, BatchQueue.runs_later hqueue, fun hphase hpending => ?_⟩
  rcases hinv.covered (by simp [hphase]) (by simp [hphase]) hpending with hcoming | hpushing
  · exact hcoming
  · have hcode := hinv.pushing hpushing
    simp [RunsUserCode, hphase] at hcode

/-- A functor of another thread runs, pushes a functor itself, and that one still waits when the
    loop is about to block. -/
theorem delivery_of_functors_pushed :
    ∃ (tr : List (BatchQueue.Event Nat)) (s : Delivery Nat), (delivery Nat).Reach anyStep tr s ∧
      BatchQueue.pushLog 0 tr = [(7, 0), (8, 1)] ∧ BatchQueue.runLog 0 tr = [(7, 1)] ∧
      s.self.phase = .polling ∧ s.self.pendingFunctor_ = [8] ∧
      (BatchQueue.runLog 0 tr).map Prod.fst <+: (BatchQueue.pushLog 0 tr).map Prod.fst ∧
      (∃ served, served <+: BatchQueue.pushLog 0 tr ∧
        List.Forall₂ BatchQueue.RanLater served (BatchQueue.runLog 0 tr)) ∧
      s.WakeupComing := by
  have hruns : (delivery Nat).runs ⟨new false, false, fun _ => false⟩
      [.loop, .otherPush 3 7, .otherWakeup 3, .pollReturns, .handleRead, .enterPending,
        .swapPending, .callNext, .push 8, .wakeup, .leavePending]
      (fun tr s => BatchQueue.pushLog 0 tr = [(7, 0), (8, 1)] ∧
        BatchQueue.runLog 0 tr = [(7, 1)] ∧ s.self.phase = .polling ∧
        s.self.pendingFunctor_ = [8]) = true := by
    decide +kernel
  obtain ⟨tr, s, hreach, htest⟩ :=
    Machine.exists_reach (M := delivery Nat) ⟨⟨false, rfl⟩, rfl, fun _ => rfl⟩ hruns
  obtain ⟨hpushed, hran, hphase, hpending⟩ := of_decide_eq_true htest
  obtain ⟨hordered, hlater, hcoming⟩ := delivery_of_functors hreach
  refine ⟨tr, s, hreach, hpushed, hran, hphase, hpending, hordered, hlater, hcoming hphase ?_⟩
  rw [hpending]
  exact List.cons_ne_nil 8 []

end TcpNet.EventLoop
