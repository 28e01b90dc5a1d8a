import Mathlib.Data.List.Forall2
import TcpNet.Library.Transition

open Transition

namespace BatchQueue

variable {A : Type}

/-- A queue that is emptied batch by batch: a consumer takes everything that is
    pending at once, and works on that batch while producers push again. -/
structure Queue (A : Type) where
  running : List A
  pending : List A

/-- All elements not yet worked on, in the order in which they will be. -/
def Queue.waiting (q : Queue A) : List A := q.running ++ q.pending

inductive Op (A : Type) where
  | push (a : A)
  | takeBatch
  | run

inductive Event (A : Type) where
  | pushed (a : A)
  | batchTaken
  | ran (a : A)

def machine (A : Type) : Machine (Queue A) (Op A) (Event A) where
  init q := q = ⟨[], []⟩
  step q
    | .push a => .ok (⟨q.running, q.pending ++ [a]⟩, [.pushed a])
    | .takeBatch =>
      match q.running with
      | [] => .ok (⟨q.pending, []⟩, [.batchTaken])
      | _ :: _ => .error .disabled
    | .run =>
      match q.running with
      | [] => .error .disabled
      | a :: rest => .ok (⟨rest, q.pending⟩, [.ran a])

/-- Number of batches taken in a trace. -/
def batches : List (Event A) → Nat
  | [] => 0
  | .batchTaken :: tr => batches tr + 1
  | _ :: tr => batches tr

/-- The elements pushed, each with the number of batches taken before. -/
def pushLog (n : Nat) : List (Event A) → List (A × Nat)
  | [] => []
  | .pushed a :: tr => (a, n) :: pushLog n tr
  | .batchTaken :: tr => pushLog (n + 1) tr
  | .ran _ :: tr => pushLog n tr

/-- The elements run, each with the number of the batch it was run in. -/
def runLog (n : Nat) : List (Event A) → List (A × Nat)
  | [] => []
  | .ran a :: tr => (a, n) :: runLog n tr
  | .batchTaken :: tr => runLog (n + 1) tr
  | .pushed _ :: tr => runLog n tr

theorem batches_append (tr tr' : List (Event A)) :
    batches (tr ++ tr') = batches tr + batches tr' := by
  induction tr with
  | nil => simp [batches]
  | cons e tr ih =>
    cases e <;> simp only [List.cons_append, batches, ih]
    omega

theorem pushLog_append (n : Nat) (tr tr' : List (Event A)) :
    pushLog n (tr ++ tr') = pushLog n tr ++ pushLog (n + batches tr) tr' := by
  induction tr generalizing n with
  | nil => simp [pushLog, batches]
  | cons e tr ih =>
    cases e <;> simp [pushLog, batches, ih, Nat.add_assoc, Nat.add_comm 1]

theorem runLog_append (n : Nat) (tr tr' : List (Event A)) :
    runLog n (tr ++ tr') = runLog n tr ++ runLog (n + batches tr) tr' := by
  induction tr generalizing n with
  | nil => simp [runLog, batches]
  | cons e tr ih =>
    cases e <;> simp [runLog, batches, ih, Nat.add_assoc, Nat.add_comm 1]

/-- An element pushed after `p.2` batches has run in the later batch `r.2`. -/
def RanLater (p r : A × Nat) : Prop := p.1 = r.1 ∧ p.2 < r.2

theorem RanLater.map_fst_eq {ps rs : List (A × Nat)} (h : List.Forall₂ RanLater ps rs) :
    ps.map Prod.fst = rs.map Prod.fst := by
  induction h with
  | nil => rfl
  | cons hhead _ ih => simp [hhead.1, ih]

/-- The pushes split into those already run, one by one in the order of the
    pushes, those in the running batch, and those still pending. -/
def Ordered (tr : List (Event A)) (q : Queue A) : Prop :=
  ∃ served taken fresh, pushLog 0 tr = served ++ taken ++ fresh ∧
    List.Forall₂ RanLater served (runLog 0 tr) ∧
    taken.map Prod.fst = q.running ∧ (∀ p ∈ taken, p.2 < batches tr) ∧
    fresh.map Prod.fst = q.pending ∧ ∀ p ∈ fresh, p.2 ≤ batches tr

theorem ordered {tr : List (Event A)} {q : Queue A} (h : (machine A).Reach anyStep tr q) :
    Ordered tr q := by
  refine h.invariant (I := Ordered) ?_ ?_
  · rintro q rfl
    exact ⟨[], [], [], rfl, .nil, rfl, by simp, rfl, by simp⟩
  · rintro tr q l q' es - ⟨served, taken, fresh, hpush, hrun, htaken, hbefore, hfresh, hupto⟩ - hstep
    cases l with
    | push a =>
      simp only [machine, Except.ok.injEq, Prod.mk.injEq] at hstep
      obtain ⟨rfl, rfl⟩ := hstep
      refine ⟨served, taken, fresh ++ [(a, batches tr)], ?_, ?_, htaken, ?_, ?_, ?_⟩
      · simp [pushLog_append, pushLog, hpush]
      · simpa [runLog_append, runLog] using hrun
      · simpa [batches_append, batches] using hbefore
      · simp [hfresh]
      · intro p hp
        rcases List.mem_append.mp hp with hold | hnew
        · simpa [batches_append, batches] using hupto p hold
        · simp_all [batches_append, batches]
    | takeBatch =>
      cases hq : q.running with
      | cons a rest => simp [machine, hq] at hstep
      | nil =>
        simp only [machine, hq, Except.ok.injEq, Prod.mk.injEq] at hstep
        obtain ⟨rfl, rfl⟩ := hstep
        rw [hq, List.map_eq_nil_iff] at htaken
        subst taken
        refine ⟨served, fresh, [], ?_, ?_, hfresh, ?_, rfl, by simp⟩
        · simpa [pushLog_append, pushLog] using hpush
        · simpa [runLog_append, runLog] using hrun
        · intro p hp
          have := hupto p hp
          simp only [batches_append, batches]
          omega
    | run =>
      cases hq : q.running with
      | nil => simp [machine, hq] at hstep
      | cons a rest =>
        simp only [machine, hq, Except.ok.injEq, Prod.mk.injEq] at hstep
        obtain ⟨rfl, rfl⟩ := hstep
        obtain ⟨first, others, rfl, hfirst, hothers⟩ :=
          List.map_eq_cons_iff.mp (htaken.trans hq)
        refine ⟨served ++ [first], others, fresh, ?_, ?_, hothers, ?_, hfresh, ?_⟩
        · simpa [pushLog_append, pushLog] using hpush
        · rw [runLog_append]
          refine List.rel_append hrun (.cons ⟨hfirst, ?_⟩ .nil)
          simpa using hbefore first (by simp)
        · intro p hp
          simpa [batches_append, batches] using hbefore p (List.mem_cons_of_mem _ hp)
        · simpa [batches_append, batches] using hupto

/-- First in, first out: what has run, what waits in the batch and what is
    pending make up the pushes in their order. -/
theorem fifo {tr : List (Event A)} {q : Queue A} (h : (machine A).Reach anyStep tr q) :
    (runLog 0 tr).map Prod.fst ++ q.waiting = (pushLog 0 tr).map Prod.fst := by
  obtain ⟨served, taken, fresh, hpush, hrun, htaken, _, hfresh, _⟩ := ordered h
  have hsame : served.map Prod.fst = (runLog 0 tr).map Prod.fst := RanLater.map_fst_eq hrun
  rw [hpush, List.map_append, List.map_append, hsame, htaken, hfresh, List.append_assoc,
    Queue.waiting]

/-- An element runs in a later batch than all that were taken when it was pushed. -/
theorem runs_later {tr : List (Event A)} {q : Queue A} (h : (machine A).Reach anyStep tr q) :
    ∃ served, served <+: pushLog 0 tr ∧ List.Forall₂ RanLater served (runLog 0 tr) := by
  obtain ⟨served, taken, fresh, hpush, hrun, _⟩ := ordered h
  exact ⟨served, ⟨taken ++ fresh, by rw [hpush, List.append_assoc]⟩, hrun⟩

end BatchQueue
