import TcpNet.Http.Context.RequestLine
import TcpNet.Library.Transition

open Transition

namespace TcpNet

/-- A call of a public operation of a context. -/
inductive HttpContextCall where
  | parseRequest (buf : WfBuffer) (receiveTime : Int)
  | reset

namespace HttpContext

/-- The events of a step are what `parseRequest` returns. No call follows one that
    never returns. -/
def step (context : HttpContext) : HttpContextCall → Except Stop (HttpContext × List Bool)
  | .parseRequest buf receiveTime =>
    match context.parseRequest buf receiveTime with
    | some (ok, context, _) => .ok (context, [ok])
    | none => .error .disabled
  | .reset => .ok (context.reset, [])

/-- The calls of one context, on any buffers. -/
def machine : Machine HttpContext HttpContextCall Bool where
  init context := context = new
  step := step

/-- The loop of `parseRequest` ends after some number of rounds. -/
def Terminates (context : HttpContext) (buf : WfBuffer) (receiveTime : Int) : Prop :=
  ∃ fuel p, While.loop Parsing.hasMore (parseStep receiveTime) fuel ⟨true, true, context, buf⟩ =
    some p

variable {context context' : HttpContext} {call : HttpContextCall} {tr es : List Bool}

theorem terminates_iff_reading (buf : WfBuffer) (receiveTime : Int) :
    Terminates context buf receiveTime ↔ context.Reading := by
  constructor
  · rintro ⟨fuel, p, hloop⟩
    by_contra hreading
    rw [loop_of_not_reading hreading] at hloop
    cases hloop
  · intro hreading
    obtain ⟨outcome, context', buf', _, hloop⟩ :=
      loop_spec hreading buf _ (Nat.le_refl _)
    exact ⟨_, _, hloop⟩

/-- No call leaves a context that waits for a body. -/
theorem reading_or_gotAll_of_step (hstep : machine.step context call = .ok (context', es)) :
    context'.Reading ∨ context'.gotAll = true := by
  cases call with
  | parseRequest buf receiveTime =>
    have hreading : context.Reading := by
      by_contra hreading
      have hgo : machine.step context (.parseRequest buf receiveTime) = .error .disabled := by
        simp only [machine, step, parseRequest_of_not_reading hreading]
      rw [hgo] at hstep
      cases hstep
    obtain ⟨outcome, c, buf', hread, hparse⟩ := parseRequest_spec hreading buf receiveTime
    have hstate := readLines_state hreading receiveTime buf.contents
    rw [hread] at hstate
    simp only [machine, step, hparse, Except.ok.injEq, Prod.mk.injEq] at hstep
    obtain ⟨rfl, _⟩ := hstep
    by_cases hall : outcome = .finished
    · exact .inr (hstate.1.mp hall)
    · exact .inl (hstate.2 hall)
  | reset =>
    simp only [machine, step, Except.ok.injEq, Prod.mk.injEq] at hstep
    exact .inl (hstep.1 ▸ reading_new)

theorem reach_reading_or_gotAll (h : machine.Reach anyStep tr context) :
    context.Reading ∨ context.gotAll = true := by
  apply h.invariant (I := fun _ context => context.Reading ∨ context.gotAll = true)
  · rintro context rfl
    exact .inl reading_new
  · intro tr context call context' es _ _ _ hstep
    exact reading_or_gotAll_of_step hstep

/-- A further call returns exactly where the context has not got everything yet. -/
theorem terminates_iff (h : machine.Reach anyStep tr context) (buf : WfBuffer)
    (receiveTime : Int) : Terminates context buf receiveTime ↔ context.state_ ≠ .kGotAll := by
  rw [terminates_iff_reading]
  constructor
  · intro hreading hall
    have hnot := not_gotAll_of_reading hreading
    rw [gotAll, hall] at hnot
    cases hnot
  · intro hnot
    obtain hreading | hall := reach_reading_or_gotAll h
    · exact hreading
    · exact absurd (of_decide_eq_true hall) hnot

/-- A whole request in one buffer. -/
def parseRoot : HttpContextCall :=
  .parseRequest (WfBuffer.new.append (rootLine ++ Buffer.kCRLF ++ Buffer.kCRLF)) 7

/-- A context that got everything is reset, and reads again. -/
theorem terminates_iff_reset : ∃ tr context tr' context',
    machine.exec new [parseRoot] = .ok (context, tr) ∧ context.state_ = .kGotAll ∧
    machine.exec context [.reset] = .ok (context', tr') ∧
    machine.Reach anyStep (tr ++ tr') context' ∧ Terminates context' WfBuffer.new 7 := by
  have hruns : machine.runs new [parseRoot] (fun _ context => context.state_ = .kGotAll) = true := by
    decide +kernel
  unfold Machine.runs at hruns
  cases hexec : machine.exec new [parseRoot] with
  | error e =>
    rw [hexec] at hruns
    cases hruns
  | ok last =>
    obtain ⟨context, tr⟩ := last
    rw [hexec] at hruns
    have hreset : machine.exec context [.reset] = .ok (new, []) := rfl
    have hreach : machine.Reach anyStep ([] ++ (tr ++ [])) new :=
      Machine.Reach.exec (fun _ _ _ _ => trivial) (.init rfl) (Machine.exec_append hexec hreset)
    rw [List.nil_append] at hreach
    refine ⟨tr, context, [], new, rfl, of_decide_eq_true hruns, hreset, hreach, ?_⟩
    exact (terminates_iff hreach _ 7).mpr (by simp [new])

/-- Behind a whole request, the next call never returns. -/
theorem terminates_gotAll :
    ¬ ∀ (tr : List Bool) (context : HttpContext), machine.Reach anyStep tr context →
      ∀ (buf : WfBuffer) (receiveTime : Int), Terminates context buf receiveTime := by
  intro hall
  have hruns : machine.runs new [parseRoot] (fun _ context => context.state_ = .kGotAll) = true := by
    decide +kernel
  obtain ⟨tr, context, hreach, hstate⟩ := Machine.exists_reach rfl hruns
  have hgot : context.gotAll = true := hstate
  have hreading := (terminates_iff_reading _ _).mp (hall tr context hreach WfBuffer.new 7)
  rw [not_gotAll_of_reading hreading] at hgot
  cases hgot

end HttpContext

end TcpNet
