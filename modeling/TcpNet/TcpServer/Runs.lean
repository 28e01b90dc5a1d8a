import TcpNet.TcpServer.Projection

open Transition

namespace TcpNet

namespace Lifeline

/-- A side condition on the steps of one connection. -/
abbrev Condition := List ConnEvent → Lifeline → Label → Prop

end Lifeline

namespace System

open Lifeline (Condition Moves Born Step)

/-- Every connection keeps to `C` in its own steps. -/
def everywhere (C : Condition) : StepCondition System Action Event :=
  fun tr s a => ∀ c v, s.view c = some v → C (eventsOf c tr) v (s.labelOf c a)

/-- Connection `c` keeps to `C` in its own steps. -/
def keeps (C : Condition) (c : ConnId) : StepCondition System Action Event :=
  fun tr s a => ∀ v, s.view c = some v → C (eventsOf c tr) v (s.labelOf c a)

instance (C : Condition) [∀ tr v label, Decidable (C tr v label)] (c : ConnId) (tr : List Event)
    (s : System) (a : Action) : Decidable (keeps C c tr s a) :=
  match h : s.view c with
  | none => .isTrue fun _ hview => nomatch h.symm.trans hview
  | some v => decidable_of_iff (C (eventsOf c tr) v (s.labelOf c a))
    ⟨fun hC _ hview => Option.some.inj (h.symm.trans hview) ▸ hC, fun hkeeps => hkeeps v h⟩

theorem wellFormed_of_started {s : System} (h : Started s) : s.WellFormed := by
  obtain ⟨name, numThreads, hserver⟩ := h.server
  have hphase : ∀ l, (s.loops l).phase = .created ∧ (s.loops l).queued = [] ∧
      (s.loops l).functors = [] := by
    intro l
    obtain ⟨garbage, hloop⟩ := h.loops l
    rw [hloop]
    exact ⟨rfl, rfl, rfl⟩
  exact {
    named := by simp [nameOf, h.conns]
    fresh := by simp [loopOf, h.conns]
    keyed := by simp [hserver]
    quiet := by simp [h.callbacks]
    whole := fun l _ => (hphase l).2.2
    handlers := by simp [h.callbacks]
    functors := by simp [(hphase _).2.1]
    threads := by simp [h.threads]
    polled := by simp [h.polled] }

theorem reach_wellFormed {C : StepCondition System Action Event} {tr : List Event} {s : System}
    (h : machine.Reach C tr s) : s.WellFormed :=
  Machine.Reach.invariant (I := fun _ s => s.WellFormed) (fun _ h => wellFormed_of_started h)
    (fun _ _ _ _ _ _ hwf _ hstep => (step_projects hwf hstep).wf) h

/-- The invariant rule for one connection: what its birth establishes and its own
    steps keep holds of it wherever the system gets. -/
theorem reach_view_of_keeps {I : List ConnEvent → Lifeline → Prop} {C : Condition}
    (hborn : ∀ es v, Born es v → I es v)
    (hstep : ∀ tr v label es v', I tr v → C tr v label → Step label v es v' → I (tr ++ es) v')
    {tr : List Event} {s : System} {c : ConnId} (h : machine.Reach (keeps C c) tr s) :
    match s.view c with
    | none => eventsOf c tr = []
    | some v => I (eventsOf c tr) v := by
  induction h with
  | @init s hinit =>
    have hnone : s.view c = none := by simp [view, hinit.conns]
    rw [hnone]
    rfl
  | @step tr es s s' a hreach hcond hs ih =>
    have hmoves := (step_projects (reach_wellFormed hreach) hs).moves c
    simp only [keeps] at hcond
    rw [eventsOf_append]
    generalize s.view c = before at ih hmoves hcond
    generalize s'.view c = after at hmoves
    generalize eventsOf c es = ces at hmoves
    cases hmoves with
    | absent =>
      rw [List.append_nil]
      exact ih
    | @born ces v' hv' =>
      have hquiet : eventsOf c tr = [] := ih
      rw [hquiet]
      exact hborn ces v' hv'
    | @step v v' ces hv => exact hstep _ v _ ces v' ih (hcond v rfl) hv

/-- The same for all connections. -/
theorem reach_view {I : List ConnEvent → Lifeline → Prop} {C : Condition}
    (hborn : ∀ es v, Born es v → I es v)
    (hstep : ∀ tr v label es v', I tr v → C tr v label → Step label v es v' → I (tr ++ es) v')
    {tr : List Event} {s : System} (h : machine.Reach (everywhere C) tr s) (c : ConnId) :
    match s.view c with
    | none => eventsOf c tr = []
    | some v => I (eventsOf c tr) v :=
  reach_view_of_keeps hborn hstep (h.mono fun _ _ _ hall => hall c)

/-- Runs without a condition keep to the condition that asks for nothing. -/
theorem reach_everywhere_true {tr : List Event} {s : System} (h : machine.Reach anyStep tr s) :
    machine.Reach (everywhere fun _ _ _ => True) tr s :=
  h.mono (fun _ _ _ _ _ _ _ => trivial)

/-- A property of the events of single connections holds of a run for all of them
    exactly when all their steps meet `C`, if one step of one connection keeps it
    exactly when that step meets `C`. -/
theorem reach_iff {I : List ConnEvent → Lifeline → Prop} {C : Condition}
    {P : List ConnEvent → Prop} (hnil : P []) (hcut : ∀ tr es, P (tr ++ es) → P tr)
    (hborn : ∀ es v, Born es v → I es v ∧ P es)
    (hinv : ∀ tr v label es v', I tr v → C tr v label → Step label v es v' → I (tr ++ es) v')
    (hstep : ∀ tr v label es v', I tr v → P tr → Step label v es v' →
      (P (tr ++ es) ↔ C tr v label))
    {tr : List Event} {s : System} (h : machine.Reach anyStep tr s) :
    (∀ c, P (eventsOf c tr)) ↔ machine.Reach (everywhere C) tr s := by
  refine Machine.Reach.iff_condition (P := fun tr => ∀ c, P (eventsOf c tr)) ?_ ?_ ?_ h
  · exact fun _ => hnil
  · intro tr es hall c
    have hc := hall c
    rw [eventsOf_append] at hc
    exact hcut _ _ hc
  · intro tr s a s' es hreach hall hs
    have hprojects := step_projects (reach_wellFormed hreach) hs
    have hone : ∀ c, P (eventsOf c (tr ++ es)) ↔
        ∀ v, s.view c = some v → C (eventsOf c tr) v (s.labelOf c a) := by
      intro c
      have hview := reach_view (fun es v hv => (hborn es v hv).1) hinv hreach c
      have hmoves := hprojects.moves c
      have hc := hall c
      rw [eventsOf_append]
      generalize s.view c = before at hview hmoves
      generalize s'.view c = after at hmoves
      generalize eventsOf c es = ces at hmoves
      cases hmoves with
      | absent =>
        rw [List.append_nil]
        exact ⟨fun _ _ hnone => (nomatch hnone), fun _ => hc⟩
      | @born ces v' hv' =>
        have hquiet : eventsOf c tr = [] := hview
        rw [hquiet]
        exact ⟨fun _ _ hnone => (nomatch hnone), fun _ => (hborn ces v' hv').2⟩
      | @step v v' ces hv =>
        rw [hstep _ v _ ces v' hview hc hv]
        constructor
        · intro hC v₁ hv₁
          rw [Option.some.injEq] at hv₁
          rw [← hv₁]
          exact hC
        · intro hC
          exact hC v rfl
    constructor
    · intro hP c
      exact (hone c).mp (hP c)
    · intro hC c
      exact (hone c).mpr (hC c)

/-- A server with one io loop accepts a connection, whose loop then runs
    `connectEestablished`. -/
def opening : List Action :=
  [.loop 0, .pollReturns 0 [], .accept 5, .loop 1, .pollReturns 1 [], .enterPending 1,
    .swapPending 1, .callFunctor 1 (.accepted 0)]

/-- Loop `l` gets from the end of a batch of functors to the start of the next. -/
def nextBatch (l : LoopId) (active : List (ConnId × Events)) (handlers : List IoResult) :
    List Action :=
  [.leavePending l, .pollReturns l active] ++ handlers.map (.handleEvent l) ++
    [.enterPending l, .swapPending l]

/-- Thread `t` gets from the check of the state to the return of `send`. -/
def queueAndReturn (t : ThreadId) : List Action := [.queueSend t, .wakeupSend t, .returnSend t]

end System

section Events

/-- The bytes that the kernel accepted, in order. -/
def writtenOf (tr : List ConnEvent) : Bytes :=
  tr.flatMap fun
    | .effect (.written data) => data
    | _ => []

/-- The messages on which `sendInloop` was executed, with the threads that sent
    them, in order. -/
def executedOf (tr : List ConnEvent) : List (ThreadId × Bytes) :=
  tr.filterMap fun
    | .executed caller message => some (caller, message)
    | _ => none

/-- The messages whose `send` found `kConnected`. -/
def sendingOf (tr : List ConnEvent) : List (ThreadId × Bytes) :=
  tr.filterMap fun
    | .sending caller message => some (caller, message)
    | _ => none

/-- The messages whose `send` found `kConnected` and has returned. -/
def sentOf (tr : List ConnEvent) : List (ThreadId × Bytes) :=
  tr.filterMap fun
    | .sent caller message => some (caller, message)
    | _ => none

/-- The messages still in the queue. -/
def sendsOf (queue : List Task) : List (ThreadId × Bytes) :=
  queue.filterMap fun
    | .sendInloop caller message => some (caller, message)
    | _ => none

end Events

end TcpNet
