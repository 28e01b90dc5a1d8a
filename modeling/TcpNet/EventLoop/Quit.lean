import TcpNet.Library.Trace
import TcpNet.Library.Transition

open Trace Transition

namespace TcpNet

/-- Where the owner thread of a loop stands: outside `loop()`, in it before and
    behind the assignment of `quit_`, in an iteration, or behind the last one. -/
inductive OwnerPhase where
  | outside
  | entered
  | testing
  | iterating
  | leaving
  deriving DecidableEq, Repr

/-- What the owner thread and the callers of `quit()` do, one access to `quit_` at
    a time. `publish` is what `threadFunc` does before it enters `loop()`, and
    `wakeup` the second half of a `quit()` from another thread. -/
inductive LoopAction where
  | publish
  | enter
  | resetQuit
  | testQuit
  | finishIteration
  | leave
  | quit (isInLoopThread : Bool)
  | wakeup
  deriving DecidableEq, Repr

inductive LoopEvent where
  | published
  | reset
  | iterate
  | returned
  | quit
  deriving DecidableEq, Repr

/-- The fields of an `EventLoop` that `loop()` and `quit()` share, whether an
    `EventLoopThread` has published it, and the calls of `quit()` in other threads
    that have not come to `wakeup()` yet. -/
structure LoopThread where
  phase : OwnerPhase
  looping_ : Bool
  quit_ : Bool
  published : Bool
  waking : Nat
  wakeups : Nat
  deriving DecidableEq, Repr

namespace LoopThread

/-- A loop that is constructed. The constructor leaves `quit_` as it finds it. -/
def new (garbage : Bool) : LoopThread := ⟨.outside, false, garbage, false, 0, 0⟩

def step (s : LoopThread) : LoopAction → Except Stop (LoopThread × List LoopEvent)
  | .publish => do
    enabled (s.phase = .outside ∧ s.published = false)
    return ({ s with published := true }, [.published])
  | .enter => do
    enabled (s.phase = .outside)
    require (s.looping_ = false)
    return ({ s with phase := .entered, looping_ := true }, [])
  | .resetQuit => do
    enabled (s.phase = .entered)
    return ({ s with phase := .testing, quit_ := false }, [.reset])
  | .testQuit => do
    enabled (s.phase = .testing)
    if s.quit_ then return ({ s with phase := .leaving }, [])
    else return ({ s with phase := .iterating }, [.iterate])
  | .finishIteration => do
    enabled (s.phase = .iterating)
    return ({ s with phase := .testing }, [])
  | .leave => do
    enabled (s.phase = .leaving)
    return ({ s with phase := .outside, looping_ := false }, [.returned])
  | .quit isInLoopThread => do
    -- the owner runs user code outside `loop()` and in an iteration
    enabled (isInLoopThread = true → s.phase = .outside ∨ s.phase = .iterating)
    let s := { s with quit_ := true }
    if isInLoopThread then return (s, [.quit])
    else return ({ s with waking := s.waking + 1 }, [.quit])
  | .wakeup => do
    enabled (0 < s.waking)
    return ({ s with waking := s.waking - 1, wakeups := s.wakeups + 1 }, [])

def machine : Machine LoopThread LoopAction LoopEvent where
  init s := ∃ garbage, s = new garbage
  step := step

/-- What has happened since the construction or the last return of `loop()`. -/
def thisCall (tr : List LoopEvent) : List LoopEvent := sinceLast (· = .returned) tr

/-- A `quit()` that `loop()` has not returned upon. -/
def Pending (tr : List LoopEvent) : Prop := .quit ∈ thisCall tr

/-- No iteration begins behind a `quit()` that is pending. -/
def QuitRemembered (tr : List LoopEvent) : Prop :=
  Guarded (· = .iterate) (fun before => ¬ Pending before) tr

/-- A `quit()` came before `loop()` set `quit_` to false. -/
def EarlyQuit (tr : List LoopEvent) : Prop :=
  Passed (fun before e => e = .reset ∧ .quit ∈ before) (thisCall tr)

/-- A `quit()` came behind that. -/
def LateQuit (tr : List LoopEvent) : Prop :=
  Passed (fun before e => e = .quit ∧ .reset ∈ before) (thisCall tr)

/-- Where `loop()` tests `quit_`, an early `quit()` has been repeated. -/
def quitsInTime : StepCondition LoopThread LoopAction LoopEvent :=
  fun tr _ l => l = .testQuit → EarlyQuit tr → LateQuit tr

variable {tr es : List LoopEvent} {s s' : LoopThread}

theorem thisCall_concat {e : LoopEvent} (he : e ≠ .returned) :
    thisCall (tr ++ [e]) = thisCall tr ++ [e] := by
  rw [thisCall, sinceLast_concat, if_neg (by simpa using he)]
  rfl

theorem thisCall_returned : thisCall (tr ++ [.returned]) = [] := by
  rw [thisCall, sinceLast_concat]
  rfl

theorem earlyQuit_concat {e : LoopEvent} (he : e ≠ .returned) :
    EarlyQuit (tr ++ [e]) ↔ EarlyQuit tr ∨ e = .reset ∧ Pending tr := by
  rw [EarlyQuit, thisCall_concat he, passed_append_iff, passed_cons_iff, or_iff_left passed_nil,
    List.append_nil]
  rfl

theorem lateQuit_concat {e : LoopEvent} (he : e ≠ .returned) :
    LateQuit (tr ++ [e]) ↔ LateQuit tr ∨ e = .quit ∧ .reset ∈ thisCall tr := by
  rw [LateQuit, thisCall_concat he, passed_append_iff, passed_cons_iff, or_iff_left passed_nil,
    List.append_nil]
  rfl

theorem pending_concat {e : LoopEvent} (he : e ≠ .returned) :
    Pending (tr ++ [e]) ↔ Pending tr ∨ .quit = e := by
  rw [Pending, thisCall_concat he, List.mem_append, List.mem_singleton]
  rfl

theorem EarlyQuit.pending (h : EarlyQuit tr) : Pending tr := by
  obtain ⟨before, e, after, hsplit, _, hquit⟩ := h
  rw [Pending, hsplit]
  exact List.mem_append_left _ hquit

/-- What `quit_` tells: behind its assignment in `loop()`, whether a `quit()` came
    since then. -/
structure Flagged (tr : List LoopEvent) (s : LoopThread) : Prop where
  before : s.phase = .outside ∨ s.phase = .entered → .reset ∉ thisCall tr
  behind : s.phase = .testing ∨ s.phase = .iterating → .reset ∈ thisCall tr ∧
    (s.quit_ = true ↔ LateQuit tr) ∧ (Pending tr → EarlyQuit tr ∨ LateQuit tr)

theorem init_new (garbage : Bool) : machine.init (new garbage) := ⟨garbage, rfl⟩

theorem flagged_new (garbage : Bool) : Flagged [] (new garbage) where
  before := nofun
  behind := nofun

/-- All that an action can do. -/
inductive Step (s : LoopThread) : LoopAction → List LoopEvent → LoopThread → Prop
  | publish (hphase : s.phase = .outside) :
      Step s .publish [.published] { s with published := true }
  | enter (hphase : s.phase = .outside) :
      Step s .enter [] { s with phase := .entered, looping_ := true }
  | resetQuit (hphase : s.phase = .entered) :
      Step s .resetQuit [.reset] { s with phase := .testing, quit_ := false }
  | endLoop (hphase : s.phase = .testing) (hquit : s.quit_ = true) :
      Step s .testQuit [] { s with phase := .leaving }
  | iterate (hphase : s.phase = .testing) (hquit : s.quit_ = false) :
      Step s .testQuit [.iterate] { s with phase := .iterating }
  | finishIteration (hphase : s.phase = .iterating) :
      Step s .finishIteration [] { s with phase := .testing }
  | leave (hphase : s.phase = .leaving) :
      Step s .leave [.returned] { s with phase := .outside, looping_ := false }
  | quit {isInLoopThread : Bool} {waking : Nat} :
      Step s (.quit isInLoopThread) [.quit] { s with quit_ := true, waking := waking }
  | wakeup : Step s .wakeup [] { s with waking := s.waking - 1, wakeups := s.wakeups + 1 }

theorem step_cases {l : LoopAction} (h : s.step l = .ok (s', es)) : Step s l es s' := by
  cases l with
  | publish =>
    simp only [step, bind_eq_ok_iff, enabled_eq_ok_iff, pure_eq_ok_iff, Prod.mk.injEq] at h
    obtain ⟨_, ⟨hphase, _⟩, rfl, rfl⟩ := h
    exact .publish hphase
  | enter =>
    simp only [step, bind_eq_ok_iff, enabled_eq_ok_iff, pure_eq_ok_iff, Prod.mk.injEq] at h
    obtain ⟨_, hphase, _, _, rfl, rfl⟩ := h
    exact .enter hphase
  | resetQuit =>
    simp only [step, bind_eq_ok_iff, enabled_eq_ok_iff, pure_eq_ok_iff, Prod.mk.injEq] at h
    obtain ⟨_, hphase, rfl, rfl⟩ := h
    exact .resetQuit hphase
  | testQuit =>
    simp only [step, bind_eq_ok_iff, enabled_eq_ok_iff] at h
    obtain ⟨_, hphase, h⟩ := h
    by_cases hquit : s.quit_ = true
    · simp only [if_pos hquit, pure_eq_ok_iff, Prod.mk.injEq] at h
      obtain ⟨rfl, rfl⟩ := h
      exact .endLoop hphase hquit
    · simp only [if_neg hquit, pure_eq_ok_iff, Prod.mk.injEq] at h
      obtain ⟨rfl, rfl⟩ := h
      exact .iterate hphase (Bool.not_eq_true _ ▸ hquit)
  | finishIteration =>
    simp only [step, bind_eq_ok_iff, enabled_eq_ok_iff, pure_eq_ok_iff, Prod.mk.injEq] at h
    obtain ⟨_, hphase, rfl, rfl⟩ := h
    exact .finishIteration hphase
  | leave =>
    simp only [step, bind_eq_ok_iff, enabled_eq_ok_iff, pure_eq_ok_iff, Prod.mk.injEq] at h
    obtain ⟨_, hphase, rfl, rfl⟩ := h
    exact .leave hphase
  | quit isInLoopThread =>
    simp only [step, bind_eq_ok_iff, enabled_eq_ok_iff] at h
    obtain ⟨_, _, h⟩ := h
    cases isInLoopThread with
    | true =>
      simp only [if_true, pure_eq_ok_iff, Prod.mk.injEq] at h
      obtain ⟨rfl, rfl⟩ := h
      exact .quit
    | false =>
      simp only [Bool.false_eq_true, if_false, pure_eq_ok_iff, Prod.mk.injEq] at h
      obtain ⟨rfl, rfl⟩ := h
      exact .quit
  | wakeup =>
    simp only [step, bind_eq_ok_iff, enabled_eq_ok_iff, pure_eq_ok_iff, Prod.mk.injEq] at h
    obtain ⟨_, _, rfl, rfl⟩ := h
    exact .wakeup

/-- An event that is neither of `quit_` nor of the end of the call changes nothing
    that the flag tells. -/
theorem Flagged.quiet (h : Flagged tr s) {e : LoopEvent} (hreset : e ≠ .reset)
    (hquit : e ≠ .quit) (hreturned : e ≠ .returned) : Flagged (tr ++ [e]) s where
  before hphase := by
    rw [thisCall_concat hreturned, List.mem_append, List.mem_singleton, not_or]
    exact ⟨h.before hphase, hreset.symm⟩
  behind hphase := by
    rw [thisCall_concat hreturned, lateQuit_concat hreturned, earlyQuit_concat hreturned,
      pending_concat hreturned]
    simp only [hreset, hquit, hquit.symm, false_and, or_false]
    obtain ⟨hmem, hflag, hpending⟩ := h.behind hphase
    exact ⟨List.mem_append_left _ hmem, hflag, hpending⟩

theorem Flagged.step (h : Flagged tr s) {l : LoopAction} (hstep : Step s l es s') :
    Flagged (tr ++ es) s' := by
  cases hstep with
  | publish =>
    have hnext := h.quiet (e := .published) nofun nofun nofun
    exact ⟨hnext.before, hnext.behind⟩
  | enter hphase =>
    rw [List.append_nil]
    exact ⟨fun _ => h.before (.inl hphase), nofun⟩
  | resetQuit hphase =>
    have hnone := h.before (.inr hphase)
    have hlate : ¬ LateQuit tr := by
      rintro ⟨before, e, after, hsplit, _, hreset⟩
      exact hnone (hsplit ▸ List.mem_append_left _ hreset)
    have hreset : LoopEvent.reset ≠ .returned := nofun
    refine ⟨nofun, fun _ => ?_⟩
    rw [thisCall_concat hreset, lateQuit_concat hreset, earlyQuit_concat hreset,
      pending_concat hreset]
    refine ⟨List.mem_append_right _ List.mem_cons_self, ?_, ?_⟩
    · simp [hlate]
    · rintro (hpending | hquit)
      · exact .inl (.inr ⟨rfl, hpending⟩)
      · cases hquit
  | endLoop =>
    exact ⟨nofun, nofun⟩
  | iterate hphase =>
    have hnext := h.quiet (e := .iterate) nofun nofun nofun
    exact ⟨nofun, fun _ => hnext.behind (.inl hphase)⟩
  | finishIteration hphase =>
    rw [List.append_nil]
    exact ⟨nofun, fun _ => h.behind (.inr hphase)⟩
  | leave =>
    refine ⟨fun _ => ?_, nofun⟩
    rw [thisCall_returned]
    exact List.not_mem_nil
  | quit =>
    have hquit : LoopEvent.quit ≠ .returned := nofun
    refine ⟨fun hphase => ?_, fun hphase => ?_⟩
    · rw [thisCall_concat hquit, List.mem_append, List.mem_singleton, not_or]
      exact ⟨h.before hphase, nofun⟩
    · obtain ⟨hmem, _⟩ := h.behind hphase
      rw [thisCall_concat hquit, lateQuit_concat hquit]
      exact ⟨List.mem_append_left _ hmem, iff_of_true rfl (.inr ⟨rfl, hmem⟩),
        fun _ => .inr (.inr ⟨rfl, hmem⟩)⟩
  | wakeup =>
    rw [List.append_nil]
    exact ⟨h.before, h.behind⟩

theorem reach_flagged {C : StepCondition LoopThread LoopAction LoopEvent}
    (h : machine.Reach C tr s) : Flagged tr s := by
  refine Machine.Reach.invariant ?_ ?_ h
  · rintro _ ⟨garbage, rfl⟩
    exact flagged_new garbage
  · intro tr s l s' es _ hflagged _ hstep
    exact hflagged.step (step_cases hstep)

/-- The iterations heed every `quit()` in exactly the runs in which each `quit()` that comes
    before `loop()` sets its flag to false is repeated before the flag is tested. -/
theorem quit_remembered_iff (h : machine.Reach anyStep tr s) :
    QuitRemembered tr ↔ machine.Reach quitsInTime tr s := by
  refine Machine.Reach.iff_condition guarded_nil (fun _ _ hall => hall.of_append) ?_ h
  intro tr s l s' es hreach hremembered hstep
  have hflagged := reach_flagged hreach
  refine Iff.trans (guarded_append_iff hremembered) ?_
  cases step_cases hstep with
  | iterate hphase hquit =>
    obtain ⟨_, hflag, hpending⟩ := hflagged.behind (.inl hphase)
    have hlate : ¬ LateQuit tr := by
      rw [← hflag, hquit]
      exact Bool.false_ne_true
    have hconcat : Guarded (· = LoopEvent.iterate) (fun before => ¬ Pending (tr ++ before))
        ([] ++ [.iterate]) ↔ ¬ Pending (tr ++ []) := guarded_concat_iff nofun rfl
    rw [List.nil_append, List.append_nil] at hconcat
    rw [hconcat]
    constructor
    · exact fun hnone _ hearly => absurd hearly.pending hnone
    · intro hcond hpend
      rcases hpending hpend with hearly | hlate'
      · exact hlate (hcond rfl hearly)
      · exact hlate hlate'
  | endLoop hphase hquit =>
    obtain ⟨_, hflag, _⟩ := hflagged.behind (.inl hphase)
    exact iff_of_true guarded_nil (fun _ _ => hflag.mp hquit)
  | publish => exact iff_of_true (guarded_of_forall_not (by simp)) nofun
  | enter => exact iff_of_true guarded_nil nofun
  | resetQuit => exact iff_of_true (guarded_of_forall_not (by simp)) nofun
  | finishIteration => exact iff_of_true guarded_nil nofun
  | leave => exact iff_of_true (guarded_of_forall_not (by simp)) nofun
  | quit => exact iff_of_true (guarded_of_forall_not (by simp)) nofun
  | wakeup => exact iff_of_true guarded_nil nofun

/-- No iteration begins behind a `quit()` that is pending, and `loop()` does not set `quit_` to
    false behind it. -/
def QuitKept (tr : List LoopEvent) : Prop :=
  QuitRemembered tr ∧ Guarded (· = .reset) (fun before => ¬ Pending before) tr

/-- Where `loop()` sets `quit_` to false, there has been no `quit()` since the construction or
    the last return of `loop()`. -/
def resetsFirst : StepCondition LoopThread LoopAction LoopEvent :=
  fun tr _ l => l = .resetQuit → ¬ Pending tr

instance (tr : List LoopEvent) (s : LoopThread) (l : LoopAction) :
    Decidable (resetsFirst tr s l) :=
  inferInstanceAs (Decidable (l = .resetQuit → ¬ (LoopEvent.quit ∈ thisCall tr)))

/-- A `quit()` is not taken back in exactly the runs in which none comes before the flag is set
    to false. -/
theorem guarded_reset_iff (h : machine.Reach anyStep tr s) :
    Guarded (· = .reset) (fun before => ¬ Pending before) tr ↔ machine.Reach resetsFirst tr s := by
  refine Machine.Reach.iff_condition guarded_nil (fun _ _ hall => hall.of_append) ?_ h
  intro tr s l s' es _ hkept hstep
  refine Iff.trans (guarded_append_iff hkept) ?_
  cases step_cases hstep with
  | resetQuit hphase =>
    have hconcat : Guarded (· = LoopEvent.reset) (fun before => ¬ Pending (tr ++ before))
        ([] ++ [.reset]) ↔ ¬ Pending (tr ++ []) := guarded_concat_iff (by simp) rfl
    rw [List.nil_append, List.append_nil] at hconcat
    rw [hconcat]
    exact ⟨fun hnone _ => hnone, fun hcond => hcond rfl⟩
  | publish => exact iff_of_true (guarded_of_forall_not (by simp)) (by simp [resetsFirst])
  | enter => exact iff_of_true guarded_nil (by simp [resetsFirst])
  | endLoop => exact iff_of_true guarded_nil (by simp [resetsFirst])
  | iterate => exact iff_of_true (guarded_of_forall_not (by simp)) (by simp [resetsFirst])
  | finishIteration => exact iff_of_true guarded_nil (by simp [resetsFirst])
  | leave => exact iff_of_true (guarded_of_forall_not (by simp)) (by simp [resetsFirst])
  | quit => exact iff_of_true (guarded_of_forall_not (by simp)) (by simp [resetsFirst])
  | wakeup => exact iff_of_true guarded_nil (by simp [resetsFirst])

/-- In such a run no `quit()` comes before the flag is set to false. -/
theorem not_earlyQuit (h : machine.Reach resetsFirst tr s) : ¬ EarlyQuit tr := by
  refine h.invariant (I := fun tr _ => ¬ EarlyQuit tr) ?_ ?_
  · rintro s _ ⟨before, e, after, hsplit, _⟩
    exact List.append_ne_nil_of_right_ne_nil before (List.cons_ne_nil e after) hsplit.symm
  · intro tr s l s' es _ hnone hcond hstep
    have hquiet : ∀ e : LoopEvent, e ≠ .returned → e ≠ .reset → ¬ EarlyQuit (tr ++ [e]) := by
      intro e hreturned hreset
      rw [earlyQuit_concat hreturned]
      exact not_or.mpr ⟨hnone, fun hboth => hreset hboth.1⟩
    cases step_cases hstep with
    | publish => exact hquiet _ (by simp) (by simp)
    | resetQuit hphase =>
      rw [earlyQuit_concat (by simp)]
      exact not_or.mpr ⟨hnone, fun hboth => hcond rfl hboth.2⟩
    | iterate => exact hquiet _ (by simp) (by simp)
    | leave =>
      rintro ⟨before, e, after, hsplit, _⟩
      rw [thisCall_returned] at hsplit
      exact List.append_ne_nil_of_right_ne_nil before (List.cons_ne_nil e after) hsplit.symm
    | quit => exact hquiet _ (by simp) (by simp)
    | enter | endLoop | finishIteration | wakeup =>
      rw [List.append_nil]
      exact hnone

/-- No `quit()` is forgotten in exactly the runs in which none comes between the construction
    or the last return of `loop()` and the assignment `quit_ = false` in it. -/
theorem quit_kept_iff (h : machine.Reach anyStep tr s) :
    QuitKept tr ↔ machine.Reach resetsFirst tr s := by
  rw [QuitKept, guarded_reset_iff h]
  refine and_iff_right_of_imp fun hfirst => (quit_remembered_iff h).mpr ?_
  refine hfirst.invariant (I := fun tr s => machine.Reach quitsInTime tr s) ?_ ?_
  · exact fun s hinit => .init hinit
  · intro tr s l s' es hreach hinTime _ hstep
    exact hinTime.step (fun _ hearly => absurd hearly (not_earlyQuit hreach)) hstep

/-- Another thread quits the loop in its first iteration, behind which it returns. -/
theorem quit_kept_iterating : ∃ tr s, machine.Reach anyStep tr s ∧
    machine.Reach resetsFirst tr s ∧ .iterate ∈ tr ∧ .quit ∈ tr ∧ .returned ∈ tr ∧
    QuitKept tr := by
  have hruns : machine.runsIn resetsFirst (new true)
      [.publish, .enter, .resetQuit, .testQuit, .quit false, .wakeup, .finishIteration, .testQuit,
        .leave] (fun tr _ => .iterate ∈ tr ∧ .quit ∈ tr ∧ .returned ∈ tr) = true := by
    decide +kernel
  obtain ⟨tr, s, hreach, htest⟩ := Machine.exists_reachIn (init_new true) hruns
  obtain ⟨hiterate, hquit, hreturned⟩ := of_decide_eq_true htest
  exact ⟨tr, s, hreach.any, hreach, hiterate, hquit, hreturned,
    (quit_kept_iff hreach.any).mpr hreach⟩

/-- An `EventLoopThread` that is destroyed before its thread has entered `loop()`. -/
theorem quit_forgotten : ¬ ∀ tr s, machine.Reach anyStep tr s → QuitKept tr := by
  intro hall
  have hruns : machine.runs (new false)
      [.publish, .quit false, .wakeup, .enter, .resetQuit, .testQuit]
      (fun tr _ => Passed (fun before e => e = .iterate ∧ .quit ∈ thisCall before) tr) = true := by
    decide +kernel
  obtain ⟨tr, s, hreach, htest⟩ := Machine.exists_reach (init_new false) hruns
  obtain ⟨before, e, after, hsplit, rfl, hpending⟩ := of_decide_eq_true htest
  exact (hall tr s hreach).1 before _ after hsplit rfl hpending

end LoopThread

end TcpNet
