import TcpNet.TcpServer.WellFormed

open Transition

namespace TcpNet

namespace Lifeline

/-- What a step of the system can be for one connection: nothing before the
    connection exists, its birth, or one of its own steps. -/
inductive Moves (label : Label) : Option Lifeline → List ConnEvent → Option Lifeline → Prop
  | absent : Moves label none [] none
  | born {es : List ConnEvent} {v : Lifeline} (h : Born es v) : Moves label none es (some v)
  | step {v v' : Lifeline} {es : List ConnEvent} (h : Step label v es v') :
    Moves label (some v) es (some v')

theorem Moves.stay (v : Option Lifeline) : Moves .other v [] v := by
  cases v with
  | none => exact .absent
  | some v => exact .step .other

end Lifeline

namespace System

open Lifeline (Moves Born Step)

variable {s s' : System} {es : List Event}

/-- What a step owes: the system stays well formed, and every connection takes
    one of the steps in its own list. -/
structure Projects (s : System) (a : Action) (s' : System) (es : List Event) : Prop where
  wf : s'.WellFormed
  moves : ∀ c, Moves (s.labelOf c a) (s.view c) (eventsOf c es) (s'.view c)

/-- A step on connection `c` alone: behind a first part, which leads to `s₁` and
    which the other connections do not see, `c` acts from there. -/
theorem Projects.of_actsOn {a : Action} {c : ConnId} {s₁ : System} {v v' : Lifeline}
    {ces : List ConnEvent} (hview : s.view c = some v) (hwf₁ : s₁.WellFormed)
    (hothers₁ : ∀ c' ≠ c, s₁.view c' = s.view c') (hacts : ActsOn c s₁ s' es v' ces)
    (hown : Step (s.labelOf c a) v ces v') (hothers : ∀ c' ≠ c, s.labelOf c' a = .other) :
    Projects s a s' es where
  wf := hwf₁.of_steady hacts.steady
  moves := by
    intro c'
    by_cases hne : c' = c
    · subst hne
      rw [hview, hacts.own, hacts.events]
      exact .step hown
    · obtain ⟨hsame, hquiet⟩ := hacts.others c' hne
      rw [hothers c' hne, hsame, hothers₁ c' hne, hquiet]
      exact .stay _

/-- A step that no connection sees. -/
theorem Projects.of_unseen {a : Action} (hwf : s'.WellFormed) (hview : ∀ c, s'.view c = s.view c)
    (hlabel : ∀ c, s.labelOf c a = .other) : Projects s a s' [] where
  wf := hwf
  moves := by
    intro c
    rw [hlabel c, hview c]
    exact .stay _

section Loops

theorem view_setLoop {l : LoopId} {loop : EventLoop Functor}
    (hqueued : loop.queued = (s.loops l).queued) (c : ConnId) :
    (s.setLoop l loop).view c = s.view c := by
  have hsame : ∀ l', ((s.setLoop l loop).loops l').queued = (s.loops l').queued := by
    intro l'
    by_cases hl : l' = l
    · subst hl
      simp [setLoop, hqueued]
    · simp [setLoop, hl]
  refine view_congr rfl ?_
  intro name loop' _ _
  simp only [surroundings, hsame]
  rfl

theorem WellFormed.setLoop (hwf : s.WellFormed) {l : LoopId} {loop : EventLoop Functor}
    (hqueued : ∀ cb ∈ loop.queued, cb ∈ (s.loops l).queued)
    (hquiet : loop.phase ≠ .dispatching → s.callbacks l = [])
    (hwhole : loop.phase ≠ .calling → loop.functors = []) : (s.setLoop l loop).WellFormed where
  named := hwf.named
  fresh := hwf.fresh
  keyed := hwf.keyed
  quiet := by
    intro l' hphase
    by_cases hl : l' = l
    · subst hl
      simp only [System.setLoop, Function.update_self] at hphase
      exact hquiet hphase
    · simp only [System.setLoop, Function.update_of_ne hl] at hphase
      exact hwf.quiet l' hphase
  whole := by
    intro l' hphase
    by_cases hl : l' = l
    · subst hl
      simp only [System.setLoop, Function.update_self] at hphase ⊢
      exact hwhole hphase
    · simp only [System.setLoop, Function.update_of_ne hl] at hphase ⊢
      exact hwf.whole l' hphase
  handlers := hwf.handlers
  functors := by
    intro l' cb hcb
    by_cases hl : l' = l
    · subst hl
      simp only [System.setLoop, Function.update_self] at hcb
      exact hwf.functors l' cb (hqueued cb hcb)
    · simp only [System.setLoop, Function.update_of_ne hl] at hcb
      exact hwf.functors l' cb hcb
  threads := hwf.threads
  polled := hwf.polled

theorem WellFormed.setCallbacks (hwf : s.WellFormed) {l : LoopId}
    {callbacks : List (ConnId × Handler)}
    (hquiet : (s.loops l).phase ≠ .dispatching → callbacks = [])
    (hhandlers : ∀ c handler, (c, handler) ∈ callbacks → s.loopOf c = some l) :
    (s.setCallbacks l callbacks).WellFormed where
  named := hwf.named
  fresh := hwf.fresh
  keyed := hwf.keyed
  quiet := by
    intro l' hphase
    by_cases hl : l' = l
    · subst hl
      simp only [System.setCallbacks, Function.update_self]
      exact hquiet hphase
    · simp only [System.setCallbacks, Function.update_of_ne hl]
      exact hwf.quiet l' hphase
  whole := hwf.whole
  handlers := by
    intro l' c handler hmem
    by_cases hl : l' = l
    · subst hl
      simp only [System.setCallbacks, Function.update_self] at hmem
      exact hhandlers c handler hmem
    · simp only [System.setCallbacks, Function.update_of_ne hl] at hmem
      exact hwf.handlers l' c handler hmem
  functors := hwf.functors
  threads := hwf.threads
  polled := hwf.polled

theorem loop_projects (hwf : s.WellFormed) {l : LoopId}
    (h : s.step (.loop l) = .ok (s', es)) : Projects s (.loop l) s' es := by
  simp only [step, bind_eq_ok_iff, pure_eq_ok_iff, Prod.mk.injEq] at h
  obtain ⟨loop, hloop, rfl, rfl⟩ := h
  obtain ⟨hphase, rfl⟩ := EventLoop.loop_eq_ok hloop
  refine .of_unseen (hwf.setLoop (fun _ h => h) ?_ ?_) (view_setLoop rfl) (fun _ => rfl)
  · exact fun _ => hwf.quiet l (by simp [hphase])
  · exact fun _ => hwf.whole l (by simp [hphase])

theorem handleWakeup_projects (hwf : s.WellFormed) {l : LoopId}
    (h : s.step (.handleWakeup l) = .ok (s', es)) : Projects s (.handleWakeup l) s' es := by
  simp only [step, bind_eq_ok_iff, enabled_eq_ok_iff, pure_eq_ok_iff, Prod.mk.injEq] at h
  obtain ⟨_, hphase, rfl, rfl⟩ := h
  exact .of_unseen (hwf.setLoop (fun _ h => h) (hwf.quiet l) (hwf.whole l)) (view_setLoop rfl)
    (fun _ => rfl)

theorem enterPending_projects (hwf : s.WellFormed) {l : LoopId}
    (h : s.step (.enterPending l) = .ok (s', es)) : Projects s (.enterPending l) s' es := by
  simp only [step, bind_eq_ok_iff, enabled_eq_ok_iff, pure_eq_ok_iff, Prod.mk.injEq] at h
  obtain ⟨_, hdone, loop, hloop, rfl, rfl⟩ := h
  obtain ⟨hphase, rfl⟩ := EventLoop.enterPending_eq_ok hloop
  refine .of_unseen (hwf.setLoop (fun _ h => h) (fun _ => hdone) ?_) (view_setLoop rfl)
    (fun _ => rfl)
  exact fun _ => hwf.whole l (by simp [hphase])

theorem swapPending_projects (hwf : s.WellFormed) {l : LoopId}
    (h : s.step (.swapPending l) = .ok (s', es)) : Projects s (.swapPending l) s' es := by
  simp only [step, bind_eq_ok_iff, pure_eq_ok_iff, Prod.mk.injEq] at h
  obtain ⟨loop, hloop, rfl, rfl⟩ := h
  obtain ⟨hphase, rfl⟩ := EventLoop.swapPending_eq_ok hloop
  have hqueued : (s.loops l).pendingFunctor_ ++ [] = (s.loops l).queued := by
    rw [EventLoop.queued, hwf.whole l (by simp [hphase]), List.append_nil, List.nil_append]
  refine .of_unseen (hwf.setLoop ?_ ?_ (fun h => absurd rfl h)) (view_setLoop hqueued)
    (fun _ => rfl)
  · intro cb hcb
    rw [← hqueued]
    exact hcb
  · exact fun _ => hwf.quiet l (by simp [hphase])

theorem leavePending_projects (hwf : s.WellFormed) {l : LoopId}
    (h : s.step (.leavePending l) = .ok (s', es)) : Projects s (.leavePending l) s' es := by
  simp only [step, bind_eq_ok_iff, pure_eq_ok_iff, Prod.mk.injEq] at h
  obtain ⟨loop, hloop, rfl, rfl⟩ := h
  obtain ⟨hphase, hdone, rfl⟩ := EventLoop.leavePending_eq_ok hloop
  refine .of_unseen (hwf.setLoop (fun _ h => h) ?_ (fun _ => hdone)) (view_setLoop rfl)
    (fun _ => rfl)
  exact fun _ => hwf.quiet l (by simp [hphase])

theorem handlersFor_of_unregistered {c : ConnId} {active : List (ConnId × Events)}
    (h : ∀ entry ∈ active, entry.1 ≠ c) : handlersFor c (handlersOf active) = [] := by
  rw [handlersFor, List.filterMap_eq_nil_iff]
  intro entry hentry
  simp only [handlersOf, List.mem_flatMap, List.mem_map] at hentry
  obtain ⟨source, hsource, _, _, rfl⟩ := hentry
  simp [h source hsource]

theorem pollReturns_projects (hwf : s.WellFormed) {l : LoopId} {active : List (ConnId × Events)}
    (h : s.step (.pollReturns l active) = .ok (s', es)) :
    Projects s (.pollReturns l active) s' es := by
  simp only [step, bind_eq_ok_iff, enabled_eq_ok_iff, pure_eq_ok_iff, Prod.mk.injEq] at h
  obtain ⟨loop, hloop, _, hregistered, rfl, rfl⟩ := h
  obtain ⟨hphase, rfl⟩ := EventLoop.pollReturns_eq_ok hloop
  have hquiet : s.callbacks l = [] := hwf.quiet l (by simp [hphase])
  have hwf₁ : (s.setLoop l { s.loops l with phase := .dispatching }).WellFormed :=
    hwf.setLoop (fun _ h => h) (fun _ => hquiet) (fun _ => hwf.whole l (by simp [hphase]))
  have hview₁ : ∀ c, (s.setLoop l { s.loops l with phase := .dispatching }).view c = s.view c :=
    view_setLoop rfl
  have hwf₂ : ((s.setLoop l { s.loops l with phase := .dispatching }).setCallbacks l
      (handlersOf active)).WellFormed := by
    refine hwf₁.setCallbacks (fun h => absurd (by simp [setLoop]) h) ?_
    intro c handler hmem
    simp only [handlersOf, List.mem_flatMap, List.mem_map, Prod.mk.injEq] at hmem
    obtain ⟨entry, hentry, _, _, rfl, _⟩ := hmem
    exact (hregistered entry hentry).2
  refine ⟨hwf₂, ?_⟩
  intro c
  cases hview : s.view c with
  | none =>
    have hnone : s.loopOf c = none := view_eq_none_iff.mp hview
    have hnone' : ((s.setLoop l { s.loops l with phase := .dispatching }).setCallbacks l
        (handlersOf active)).view c = none := view_eq_none_iff.mpr hnone
    rw [hnone']
    exact .absent
  | some v =>
    rw [← hview₁ c] at hview
    by_cases hown : v.conn.loop_ = l
    · have hview₂ : ((s.setLoop l { s.loops l with phase := .dispatching }).setCallbacks l
          (handlersOf active)).view c =
            some { v with todo := handlersFor c (handlersOf active) } := by
        obtain ⟨conn, hconn, rfl⟩ := Option.map_eq_some_iff.mp hview
        simp only at hown
        simp only [view, setCallbacks, hconn, hown, Option.map_some, Function.update_self]
      have htodo : v.todo = [] := by
        obtain ⟨conn, hconn, rfl⟩ := Option.map_eq_some_iff.mp hview
        simp only at hown
        simp only [setLoop, hown, hquiet]
        rfl
      rw [hview₂]
      refine .step (.poll _ ?_ htodo)
      intro hsome
      by_contra hpolled
      refine hsome (handlersFor_of_unregistered ?_)
      intro entry hentry hsame
      have hon := (hregistered entry hentry).1
      obtain ⟨conn, hconn, rfl⟩ := Option.map_eq_some_iff.mp hview
      rw [hsame] at hon
      exact hpolled hon
    · have hview₂ : ((s.setLoop l { s.loops l with phase := .dispatching }).setCallbacks l
          (handlersOf active)).view c = some v := by
        rw [← hview]
        refine view_congr rfl ?_
        intro name loop _ hloop'
        have hne : loop ≠ l := by
          rw [loopOf_of_view hview, Option.some.injEq] at hloop'
          rw [← hloop']
          exact hown
        simp [surroundings, setCallbacks, hne]
      rw [hview₂]
      exact .step .other

end Loops

section Calls

theorem exists_view {c : ConnId} {l : LoopId} (h : s.loopOf c = some l) :
    ∃ v, s.view c = some v ∧ v.conn.loop_ = l := by
  cases hview : s.view c with
  | none => rw [view_eq_none_iff.mp hview] at h; cases h
  | some v =>
    rw [loopOf_of_view hview, Option.some.injEq] at h
    exact ⟨v, rfl, h⟩

theorem exists_view_of_conn {c : ConnId} {conn : TcpConnection} (h : s.conn c = .ok conn) :
    ∃ v, s.view c = some v ∧ v.conn = conn := by
  have hconn := conn_eq_ok_iff.mp h
  obtain ⟨v, hview, _⟩ := exists_view (s := s) (c := c) (l := conn.loop_) (by simp [loopOf, hconn])
  rw [conn_of_view hview, Option.some.injEq] at hconn
  exact ⟨v, hview, hconn⟩

/-- The next handler of loop `l` is taken: what its connection sees of that, and
    that the others see nothing. -/
theorem handler_taken (hwf : s.WellFormed) {l : LoopId} {c : ConnId} {handler : Handler}
    {rest : List (ConnId × Handler)} (hcallbacks : s.callbacks l = (c, handler) :: rest) :
    (s.setCallbacks l rest).WellFormed ∧
      (∃ v, s.view c = some v ∧ v.conn.loop_ = l ∧ v.todo = handler :: handlersFor c rest ∧
        (s.setCallbacks l rest).view c = some { v with todo := handlersFor c rest }) ∧
      ∀ c' ≠ c, (s.setCallbacks l rest).view c' = s.view c' := by
  obtain ⟨v, hview, hloop⟩ := exists_view (hwf.handlers l c handler (by simp [hcallbacks]))
  refine ⟨hwf.setCallbacks ?_ ?_, ⟨v, hview, hloop, ?_, ?_⟩, ?_⟩
  · intro hphase
    rw [hwf.quiet l hphase] at hcallbacks
    cases hcallbacks
  · intro c' handler' hmem
    exact hwf.handlers l c' handler' (by simp [hcallbacks, hmem])
  · obtain ⟨conn, _, rfl⟩ := Option.map_eq_some_iff.mp hview
    simp only at hloop
    simp [hloop, hcallbacks, handlersFor]
  · obtain ⟨conn, hconn, rfl⟩ := Option.map_eq_some_iff.mp hview
    simp only at hloop
    simp [view, setCallbacks, hconn, hloop]
  · intro c' hne
    refine view_congr rfl ?_
    intro name loop _ _
    by_cases hl : loop = l
    · subst hl
      simp [surroundings, setCallbacks, hcallbacks, handlersFor, hne.symm]
    · simp [surroundings, setCallbacks, hl]

theorem handleEvent_projects (hwf : s.WellFormed) {l : LoopId} {io : IoResult}
    (h : s.step (.handleEvent l io) = .ok (s', es)) : Projects s (.handleEvent l io) s' es := by
  simp only [step] at h
  cases hcallbacks : s.callbacks l with
  | nil => rw [hcallbacks] at h; cases h
  | cons entry rest =>
    obtain ⟨c, handler⟩ := entry
    rw [hcallbacks] at h
    obtain ⟨hwf₁, ⟨v, hview, hloop, htodo, hview₁⟩, hothers₁⟩ := handler_taken hwf hcallbacks
    obtain ⟨conn, effects, v', ces, hrun, hperform, hacts⟩ := callAfter_acts hwf₁ hview₁
      (fun _ _ _ hrun => (TcpConnection.callBack_same hrun).1) h
    rw [← hloop] at hrun hperform
    have hown : s.labelOf c (.handleEvent l io) = .callBack io := by simp [labelOf, hcallbacks]
    refine .of_actsOn hview hwf₁ hothers₁ hacts ?_ ?_
    · rw [hown]
      exact .callBack htodo hrun hperform
    · intro c' hne
      simp [labelOf, hcallbacks, hne.symm]

theorem run_same {task : Task} {conn conn' : TcpConnection} {here : ThreadId} {io : WriteResult}
    {effects : List Effect} (h : task.run conn here io = .ok (conn', effects)) :
    conn.Same conn' := by
  cases task with
  | connectEestablished =>
    obtain ⟨_, _, rfl, _⟩ := TcpConnection.connectEestablished_eq_ok h
    exact ⟨rfl, rfl⟩
  | connectDestory =>
    obtain ⟨_, _, rfl, _⟩ := TcpConnection.connectDestory_eq_ok h
    exact ⟨rfl, rfl⟩
  | removeConnectionInLoop => cases h
  | sendInloop caller message => exact (TcpConnection.sendInloop_same h).1
  | shutdownInloop =>
    obtain ⟨_, rfl, _⟩ := TcpConnection.shutdownInloop_eq_ok h
    exact ⟨rfl, rfl⟩

/-- Taking the next functor of a loop, seen from the other connections. -/
theorem view_nextFunctor_of_ne {l : LoopId} {loop : EventLoop Functor} {cb : Functor}
    (hqueued : (s.loops l).queued = cb :: loop.queued) {c : ConnId} (hne : c ≠ cb.conn) :
    (s.setLoop l loop).view c = s.view c := by
  have htasks : tasksOf c (cb :: loop.queued) = tasksOf c loop.queued := by
    simp [tasksOf, Ne.symm hne]
  have hremovals : removalsOf c (cb :: loop.queued) = removalsOf c loop.queued := by
    refine List.count_cons_of_ne ?_
    rintro rfl
    exact hne rfl
  refine view_congr rfl ?_
  intro name loop' _ _
  have hsame : ∀ l', tasksOf c ((s.setLoop l loop).loops l').queued =
      tasksOf c (s.loops l').queued ∧ removalsOf c ((s.setLoop l loop).loops l').queued =
      removalsOf c (s.loops l').queued := by
    intro l'
    by_cases hl : l' = l
    · subst hl
      simp [setLoop, hqueued, htasks, hremovals]
    · simp [setLoop, hl]
  simp only [surroundings, (hsame loop').1, (hsame baseLoop).2]
  rfl

section Functors

variable {l : LoopId} {c : ConnId} {rest : List Functor}

theorem queued_nextFunctor {cb : Functor} (hfunctors : (s.loops l).functors = cb :: rest) :
    (s.loops l).queued = cb :: { s.loops l with functors := rest }.queued := by
  simp [EventLoop.queued, hfunctors]

theorem wellFormed_nextFunctor (hwf : s.WellFormed) {cb : Functor}
    (hphase : (s.loops l).phase = .calling) (hfunctors : (s.loops l).functors = cb :: rest) :
    (s.setLoop l { s.loops l with functors := rest }).WellFormed := by
  refine hwf.setLoop ?_ (hwf.quiet l) (fun hnot => absurd hphase hnot)
  intro cb' hcb
  rw [queued_nextFunctor hfunctors]
  exact List.mem_cons_of_mem _ hcb

/-- The next functor of loop `l` is a removal, which only the base loop has. -/
theorem removal_taken (hwf : s.WellFormed)
    (hfunctors : (s.loops l).functors = ⟨c, .removeConnectionInLoop⟩ :: rest) :
    l = baseLoop ∧ ∃ v removals, s.view c = some v ∧ v.removals = removals + 1 ∧
      (s.setLoop l { s.loops l with functors := rest }).view c =
        some { v with removals := removals } := by
  have hqueued := queued_nextFunctor hfunctors
  obtain ⟨own, hown, hplaced⟩ := hwf.functors l ⟨c, .removeConnectionInLoop⟩ (by simp [hqueued])
  simp only [if_true] at hplaced
  obtain ⟨v, hview, _⟩ := exists_view hown
  refine ⟨hplaced, v, removalsOf c { s.loops l with functors := rest }.queued, hview, ?_, ?_⟩
  · obtain ⟨conn, _, rfl⟩ := Option.map_eq_some_iff.mp hview
    simp only [← hplaced, hqueued]
    exact List.count_cons_self
  · obtain ⟨conn, hconn, rfl⟩ := Option.map_eq_some_iff.mp hview
    have hqueue : tasksOf c ((s.setLoop l { s.loops l with functors := rest }).loops
        conn.loop_).queued = tasksOf c (s.loops conn.loop_).queued := by
      by_cases hl : conn.loop_ = l
      · simp [setLoop, hl, hqueued, tasksOf]
      · simp [setLoop, hl]
    have hconns : (s.setLoop l { s.loops l with functors := rest }).conns c = some conn := hconn
    simp only [view, hconns, Option.map_some, hqueue, ← hplaced]
    simp [setLoop]

/-- The next functor of loop `l` runs on its connection, which has no handlers left. -/
theorem task_taken (hwf : s.WellFormed) {task : Task} (htask : task ≠ .removeConnectionInLoop)
    (hphase : (s.loops l).phase = .calling) (hfunctors : (s.loops l).functors = ⟨c, task⟩ :: rest) :
    ∃ v queue, s.view c = some v ∧ v.conn.loop_ = l ∧ v.queue = task :: queue ∧ v.todo = [] ∧
      (s.setLoop l { s.loops l with functors := rest }).view c =
        some { v with queue := queue } := by
  have hqueued := queued_nextFunctor hfunctors
  obtain ⟨own, hown, hplaced⟩ := hwf.functors l ⟨c, task⟩ (by simp [hqueued])
  rw [if_neg htask] at hplaced
  obtain ⟨v, hview, hloop⟩ := exists_view hown
  have hl : v.conn.loop_ = l := hloop.trans hplaced.symm
  refine ⟨v, tasksOf c { s.loops l with functors := rest }.queued, hview, hl, ?_, ?_, ?_⟩
  · obtain ⟨conn, _, rfl⟩ := Option.map_eq_some_iff.mp hview
    simp only at hl
    simp [hl, hqueued, tasksOf, htask]
  · obtain ⟨conn, _, rfl⟩ := Option.map_eq_some_iff.mp hview
    simp only at hl
    simp [hl, hwf.quiet l (by simp [hphase]), handlersFor]
  · obtain ⟨conn, hconn, rfl⟩ := Option.map_eq_some_iff.mp hview
    have hremovals : removalsOf c ((s.setLoop l { s.loops l with functors := rest }).loops
        baseLoop).queued = removalsOf c (s.loops baseLoop).queued := by
      by_cases hbase : baseLoop = l
      · have hne : (⟨c, task⟩ : Functor) ≠ ⟨c, .removeConnectionInLoop⟩ := by simp [htask]
        rw [hbase, hqueued]
        simp only [setLoop, Function.update_self, removalsOf]
        rw [List.count_cons_of_ne hne]
      · simp [setLoop, hbase]
    have hconns : (s.setLoop l { s.loops l with functors := rest }).conns c = some conn := hconn
    simp only at hl
    simp only [view, hconns, Option.map_some, hremovals, hl]
    simp [setLoop]

theorem runFunctor_task {task : Task} (htask : task ≠ .removeConnectionInLoop) (here : ThreadId)
    (io : WriteResult) :
    s.runFunctor here ⟨c, task⟩ io = s.callAfter here c task.events (task.run · here io) := by
  cases task with
  | removeConnectionInLoop => exact absurd rfl htask
  | connectEestablished | connectDestory | sendInloop _ _ | shutdownInloop => rfl

theorem callFunctor_projects (hwf : s.WellFormed) {io : WriteResult}
    (h : s.step (.callFunctor l io) = .ok (s', es)) : Projects s (.callFunctor l io) s' es := by
  simp only [step, bind_eq_ok_iff, Prod.exists] at h
  obtain ⟨⟨c, task⟩, loop, hnext, h⟩ := h
  obtain ⟨hphase, rest, hfunctors, rfl⟩ := EventLoop.nextFunctor_eq_ok hnext
  have hwf₁ := wellFormed_nextFunctor hwf hphase hfunctors
  have hothers₁ : ∀ c' ≠ c,
      (s.setLoop l { s.loops l with functors := rest }).view c' = s.view c' :=
    fun c' hne => view_nextFunctor_of_ne (queued_nextFunctor hfunctors) hne
  have hlabels : ∀ c' ≠ c, s.labelOf c' (.callFunctor l io) = .other := by
    intro c' hne
    simp [labelOf, hfunctors, hne.symm]
  by_cases htask : task = .removeConnectionInLoop
  · subst htask
    obtain ⟨_, v, removals, hview, hremovals, hview₁⟩ := removal_taken hwf hfunctors
    have hacts := removeConnectionInLoop_acts hwf₁ hview₁ h
    have hlabel : s.labelOf c (.callFunctor l io) = .other := by simp [labelOf, hfunctors]
    refine .of_actsOn hview hwf₁ hothers₁ hacts ?_ hlabels
    rw [hlabel]
    exact .remove hremovals rfl
  · obtain ⟨v, queue, hview, hl, hqueue, htodo, hview₁⟩ := task_taken hwf htask hphase hfunctors
    rw [runFunctor_task htask] at h
    obtain ⟨conn, effects, v', ces, hrun, hperform, hacts⟩ := callAfter_acts hwf₁ hview₁
      (fun _ _ _ hrun => run_same hrun) h
    rw [← hl] at hrun hperform
    have hlabel : s.labelOf c (.callFunctor l io) = .task io := by simp [labelOf, hfunctors, htask]
    refine .of_actsOn hview hwf₁ hothers₁ hacts ?_ hlabels
    rw [hlabel]
    exact .task htodo hqueue hrun hperform

end Functors

end Calls

section Accept

/-- The system in `newConnection` before the first functor of the connection runs
    or is queued. -/
def enrolled (s : System) (ioLoop : LoopId) (pool : EventLoopThreadPool) (sockfd : Int) : System :=
  { s with
    server := { s.server with
      nextConnId_ := s.server.nextConnId_ + 1
      threadpoll_ := pool
      connects_ := Function.update s.server.connects_
        (connName s.server.name_ s.server.nextConnId_) (some s.server.nextConnId_) }
    conns := Function.update s.conns s.server.nextConnId_
      (some (TcpConnection.new ioLoop (connName s.server.name_ s.server.nextConnId_) sockfd)) }

variable {ioLoop : LoopId} {pool : EventLoopThreadPool} {sockfd : Int}

theorem loopOf_enrolled (hwf : s.WellFormed) {c : ConnId} {loop : LoopId}
    (h : s.loopOf c = some loop) : (s.enrolled ioLoop pool sockfd).loopOf c = some loop := by
  have hne : c ≠ s.server.nextConnId_ := by
    rintro rfl
    rw [hwf.fresh _ (Nat.le_refl _)] at h
    cases h
  simpa [loopOf, enrolled, hne] using h

theorem wellFormed_enrolled (hwf : s.WellFormed) : (s.enrolled ioLoop pool sockfd).WellFormed where
  named := by
    intro c name hname
    by_cases hc : c = s.server.nextConnId_
    · subst hc
      simp only [nameOf, enrolled, Function.update_self, Option.map_some, TcpConnection.new,
        Option.some.injEq] at hname
      exact hname.symm
    · simp only [nameOf, enrolled, Function.update_of_ne hc] at hname
      exact hwf.named c name hname
  fresh := by
    intro c hc
    have hnext : s.server.nextConnId_ + 1 ≤ c := hc
    have hne : c ≠ s.server.nextConnId_ := by omega
    have hold := hwf.fresh c (by omega)
    simpa [loopOf, enrolled, hne] using hold
  keyed := by
    intro name c hentry
    by_cases hname : name = connName s.server.name_ s.server.nextConnId_
    · subst hname
      simp only [enrolled, Function.update_self, Option.some.injEq] at hentry
      subst hentry
      exact ⟨rfl, by simp [loopOf, enrolled]⟩
    · simp only [enrolled, Function.update_of_ne hname] at hentry
      obtain ⟨hkey, hknown⟩ := hwf.keyed name c hentry
      obtain ⟨loop, hloop⟩ := Option.isSome_iff_exists.mp hknown
      exact ⟨hkey, by simp [loopOf_enrolled hwf hloop]⟩
  quiet := hwf.quiet
  whole := hwf.whole
  handlers := fun l c handler hmem => loopOf_enrolled hwf (hwf.handlers l c handler hmem)
  functors := by
    intro l cb hcb
    obtain ⟨loop, hloop, hl⟩ := hwf.functors l cb hcb
    exact ⟨loop, loopOf_enrolled hwf hloop, hl⟩
  threads := by
    intro t c call hcall
    obtain ⟨loop, hloop, hne⟩ := hwf.threads t c call hcall
    exact ⟨loop, loopOf_enrolled hwf hloop, hne⟩
  polled := by
    intro c hpolled
    obtain ⟨loop, hloop⟩ := Option.isSome_iff_exists.mp (hwf.polled c hpolled)
    simp [loopOf_enrolled hwf hloop]

/-- Nothing in a well-formed system refers to a connection that is not there. -/
theorem view_enrolled_self (hwf : s.WellFormed) :
    (s.enrolled ioLoop pool sockfd).view s.server.nextConnId_ =
      some (Lifeline.new ioLoop (connName s.server.name_ s.server.nextConnId_) sockfd) := by
  have hfresh : s.loopOf s.server.nextConnId_ = none := hwf.fresh _ (Nat.le_refl _)
  have hpolled : s.polled s.server.nextConnId_ = false := by
    by_contra hpolled
    have hknown := hwf.polled _ (by simpa using hpolled)
    rw [hfresh] at hknown
    cases hknown
  have hnotQueued : ∀ l, ∀ cb ∈ (s.loops l).queued, cb.conn ≠ s.server.nextConnId_ := by
    intro l cb hcb hsame
    obtain ⟨loop, hloop, _⟩ := hwf.functors l cb hcb
    rw [hsame, hfresh] at hloop
    cases hloop
  have htasks : ∀ l, tasksOf s.server.nextConnId_ (s.loops l).queued = [] := by
    intro l
    rw [tasksOf, List.filterMap_eq_nil_iff]
    intro cb hcb
    simp [hnotQueued l cb hcb]
  have hremovals : removalsOf s.server.nextConnId_ (s.loops baseLoop).queued = 0 := by
    refine List.count_eq_zero.mpr (fun hmem => ?_)
    exact hnotQueued _ _ hmem rfl
  have hhandlers : ∀ l, handlersFor s.server.nextConnId_ (s.callbacks l) = [] := by
    intro l
    rw [handlersFor, List.filterMap_eq_nil_iff]
    intro entry hentry
    have hne : entry.1 ≠ s.server.nextConnId_ := by
      intro hsame
      have hloop := hwf.handlers l entry.1 entry.2 hentry
      rw [hsame, hfresh] at hloop
      cases hloop
    simp [hne]
  have hcalls : ∀ t, callOf s.server.nextConnId_ (s.threads t) = none := by
    intro t
    cases hcase : s.threads t with
    | none => rfl
    | some entry =>
      have hne : entry.1 ≠ s.server.nextConnId_ := by
        intro hsame
        obtain ⟨loop, hloop, _⟩ := hwf.threads t entry.1 entry.2 hcase
        rw [hsame, hfresh] at hloop
        cases hloop
      simp [callOf, hne]
  simp [view, enrolled, Lifeline.new, TcpConnection.new, hpolled, htasks, hremovals, hhandlers,
    hcalls]

theorem view_enrolled_of_ne (hwf : s.WellFormed) {c : ConnId} (hne : c ≠ s.server.nextConnId_) :
    (s.enrolled ioLoop pool sockfd).view c = s.view c := by
  refine view_congr (by simp [enrolled, hne]) ?_
  intro name loop hname _
  have hother : name ≠ connName s.server.name_ s.server.nextConnId_ := by
    rw [hwf.named c name hname]
    intro hsame
    exact hne (connName_inj hsame)
  simp [surroundings, enrolled, hother]

theorem accept_projects (hwf : s.WellFormed) {sockfd : Int}
    (h : s.step (.accept sockfd) = .ok (s', es)) : Projects s (.accept sockfd) s' es := by
  simp only [step, newConnection, bind_eq_ok_iff, enabled_eq_ok_iff, require_eq_ok_iff] at h
  obtain ⟨_, _, _, _, _, _, h⟩ := h
  generalize hpool : s.server.threadpoll_.getNextLoop = next at h
  obtain ⟨ioLoop, pool⟩ := next
  have hwf₁ : (s.enrolled ioLoop pool sockfd).WellFormed := wellFormed_enrolled hwf
  have hview₁ : (s.enrolled ioLoop pool sockfd).view s.server.nextConnId_ =
      some (Lifeline.new ioLoop (connName s.server.name_ s.server.nextConnId_) sockfd) :=
    view_enrolled_self hwf
  have hnone : s.view s.server.nextConnId_ = none :=
    view_eq_none_iff.mpr (hwf.fresh _ (Nat.le_refl _))
  -- a birth of the new connection, which nobody else sees
  have hborn : ∀ {v' ces}, ActsOn s.server.nextConnId_ (s.enrolled ioLoop pool sockfd) s' es v' ces →
      Born ces v' → Projects s (.accept sockfd) s' es := by
    intro v' ces hacts hborn
    refine ⟨hwf₁.of_steady hacts.steady, fun c => ?_⟩
    by_cases hne : c = s.server.nextConnId_
    · rw [hne, hnone, hacts.own, hacts.events]
      exact .born hborn
    · obtain ⟨hsame, hquiet⟩ := hacts.others c hne
      rw [hsame, view_enrolled_of_ne hwf hne, hquiet]
      exact .stay _
  by_cases hinline : baseLoop = ioLoop
  · simp only [if_pos hinline] at h
    have hkeeps : ∀ conn conn' effects,
        TcpConnection.connectEestablished conn baseLoop = .ok (conn', effects) → conn.Same conn' := by
      intro conn conn' effects hrun
      obtain ⟨_, _, rfl, _⟩ := TcpConnection.connectEestablished_eq_ok hrun
      exact ⟨rfl, rfl⟩
    obtain ⟨conn, effects, v', ces, hrun, hperform, hacts⟩ := callAfter_acts hwf₁ hview₁ hkeeps h
    rw [hinline] at hrun hperform
    exact hborn hacts (.inline ioLoop _ sockfd hrun hperform)
  · simp only [if_neg hinline, pure_eq_ok_iff, Prod.mk.injEq] at h
    obtain ⟨rfl, rfl⟩ := h
    have htask : Task.connectEestablished ≠ .removeConnectionInLoop := by simp
    have hacts := (actsOn_queueTask hview₁ baseLoop htask).emit [.accepted]
    exact hborn hacts (.queued ioLoop _ sockfd)

end Accept

section Users

variable {t : ThreadId} {c : ConnId}

theorem send_projects (hwf : s.WellFormed) {message : Bytes} {io : WriteResult}
    (h : s.step (.send t c message io) = .ok (s', es)) :
    Projects s (.send t c message io) s' es := by
  simp only [step, send, bind_eq_ok_iff, enabled_eq_ok_iff] at h
  obtain ⟨_, huser, conn, hconn, h⟩ := h
  obtain ⟨v, hview, rfl⟩ := exists_view_of_conn hconn
  have hlabel : s.labelOf c (.send t c message io) = .send t message io := by simp [labelOf]
  have hlabels : ∀ c' ≠ c, s.labelOf c' (.send t c message io) = .other := by
    intro c' hne
    simp [labelOf, hne.symm]
  by_cases hstate : v.conn.state_ = .kConnected
  · rw [if_pos hstate] at h
    by_cases hhere : t = v.conn.loop_
    · simp only [if_pos hhere, bind_eq_ok_iff, pure_eq_ok_iff, Prod.exists, Prod.mk.injEq] at h
      obtain ⟨s', es, hcall, rfl, rfl⟩ := h
      obtain ⟨conn, effects, v', ces, hrun, hperform, hacts⟩ := callAfter_acts hwf hview
        (fun _ _ _ hrun => (TcpConnection.sendInloop_same hrun).1) hcall
      have hreturn := hacts.trans ((ActsOn.refl hacts.own).emit [.sent t message])
      refine .of_actsOn hview hwf (fun _ _ => rfl) hreturn ?_ hlabels
      rw [hlabel, hhere]
      rw [hhere] at hrun hperform
      exact .send hstate hrun hperform
    · rw [if_neg hhere, pure_eq_ok_iff, Prod.mk.injEq] at h
      obtain ⟨rfl, rfl⟩ := h
      have hidle : v.threads t = none := by
        obtain ⟨_, _, rfl⟩ := Option.map_eq_some_iff.mp hview
        simp only [huser.1]
        rfl
      have hacts := (actsOn_setThread hview (some (.sending message)) (by simp [huser.1])
        (fun _ => hhere)).emit [.sending t message]
      refine .of_actsOn hview hwf (fun _ _ => rfl) hacts ?_ hlabels
      rw [hlabel]
      exact .beginSend hstate hhere hidle
  · rw [if_neg hstate, pure_eq_ok_iff, Prod.mk.injEq] at h
    obtain ⟨rfl, rfl⟩ := h
    refine .of_actsOn hview hwf (fun _ _ => rfl) (.refl hview) ?_ hlabels
    rw [hlabel]
    exact .noSend hstate

theorem shutdown_projects (hwf : s.WellFormed) (h : s.step (.shutdown t c) = .ok (s', es)) :
    Projects s (.shutdown t c) s' es := by
  simp only [step, shutdown, bind_eq_ok_iff, enabled_eq_ok_iff] at h
  obtain ⟨_, huser, conn, hconn, h⟩ := h
  obtain ⟨v, hview, rfl⟩ := exists_view_of_conn hconn
  have hlabel : s.labelOf c (.shutdown t c) = .shutdown t := by simp [labelOf]
  have hlabels : ∀ c' ≠ c, s.labelOf c' (.shutdown t c) = .other := by
    intro c' hne
    simp [labelOf, hne.symm]
  by_cases hstate : v.conn.state_ = .kConnected
  · rw [if_pos hstate] at h
    by_cases hhere : t = v.conn.loop_
    · rw [if_pos hhere] at h
      have hkeeps : ∀ (conn conn' : TcpConnection) (effects : List Effect),
          { conn with state_ := .kDisconnecting }.shutdownInloop t = .ok (conn', effects) →
            conn.Same conn' := by
        intro conn conn' effects hrun
        obtain ⟨_, rfl, _⟩ := TcpConnection.shutdownInloop_eq_ok hrun
        exact ⟨rfl, rfl⟩
      obtain ⟨conn, effects, v', ces, hrun, hperform, hacts⟩ := callAfter_acts hwf hview hkeeps h
      refine .of_actsOn hview hwf (fun _ _ => rfl) hacts ?_ hlabels
      rw [hlabel, hhere]
      rw [hhere] at hrun hperform
      exact .shutdown hstate hrun hperform
    · rw [if_neg hhere, pure_eq_ok_iff, Prod.mk.injEq] at h
      obtain ⟨rfl, rfl⟩ := h
      have hidle : v.threads t = none := by
        obtain ⟨_, _, rfl⟩ := Option.map_eq_some_iff.mp hview
        simp only [huser.1]
        rfl
      have hacts := actsOn_setThread hview (some .stopping) (by simp [huser.1]) (fun _ => hhere)
      refine .of_actsOn hview hwf (fun _ _ => rfl) hacts ?_ hlabels
      rw [hlabel]
      exact .beginShutdown hstate hhere hidle
  · rw [if_neg hstate, pure_eq_ok_iff, Prod.mk.injEq] at h
    obtain ⟨rfl, rfl⟩ := h
    refine .of_actsOn hview hwf (fun _ _ => rfl) (.refl hview) ?_ hlabels
    rw [hlabel]
    exact .noShutdown hstate

/-- A thread in a call on `c`: `c` sees it, and it can move on, or end the call. -/
theorem exists_view_of_call (hwf : s.WellFormed) {call : Call}
    (hcall : s.threads t = some (c, call)) :
    ∃ v, s.view c = some v ∧ s.conn c = .ok v.conn ∧ v.threads t = some call ∧
      ∀ next : Option Call,
        ActsOn c s (s.setThread t (next.map (c, ·))) [] (v.setThread t next) [] := by
  obtain ⟨loop, hloop, hforeign⟩ := hwf.threads t c call hcall
  obtain ⟨conn, hconn, rfl⟩ := Option.map_eq_some_iff.mp hloop
  obtain ⟨v, hview, rfl⟩ := exists_view_of_conn (conn_eq_ok_iff.mpr hconn)
  refine ⟨v, hview, conn_eq_ok_iff.mpr hconn, ?_, fun next => ?_⟩
  · obtain ⟨_, _, rfl⟩ := Option.map_eq_some_iff.mp hview
    simp [hcall, callOf]
  · refine actsOn_setThread hview next (fun c' call' hcall' => ?_) (fun _ => hforeign)
    rw [hcall, Option.some.injEq, Prod.mk.injEq] at hcall'
    exact hcall'.1.symm

theorem queueSend_projects (hwf : s.WellFormed) (h : s.step (.queueSend t) = .ok (s', es)) :
    Projects s (.queueSend t) s' es := by
  simp only [step] at h
  split at h
  · rename_i c message hcall
    obtain ⟨v, hview, hconn, hown, hmoves⟩ := exists_view_of_call hwf hcall
    rw [hconn, ok_bind, pure_eq_ok_iff, Prod.mk.injEq] at h
    obtain ⟨rfl, rfl⟩ := h
    have hset := hmoves (some (.queued message))
    have htask : Task.sendInloop t message ≠ .removeConnectionInLoop := by simp
    exact .of_actsOn hview hwf (fun _ _ => rfl) (hset.trans (actsOn_pushTask hset.own htask))
      (.queueSend hown) (fun _ _ => rfl)
  · cases h

theorem wakeupSend_projects (hwf : s.WellFormed) (h : s.step (.wakeupSend t) = .ok (s', es)) :
    Projects s (.wakeupSend t) s' es := by
  simp only [step] at h
  split at h
  · rename_i c message hcall
    obtain ⟨v, hview, hconn, hown, hmoves⟩ := exists_view_of_call hwf hcall
    rw [hconn, ok_bind, pure_eq_ok_iff, Prod.mk.injEq] at h
    obtain ⟨rfl, rfl⟩ := h
    have hset := hmoves (some (.woken message))
    exact .of_actsOn hview hwf (fun _ _ => rfl)
      (hset.trans (actsOn_wakeupIfNeeded hset.own t v.conn.loop_)) (.wakeupSend hown)
      (fun _ _ => rfl)
  · cases h

theorem returnSend_projects (hwf : s.WellFormed) (h : s.step (.returnSend t) = .ok (s', es)) :
    Projects s (.returnSend t) s' es := by
  simp only [step] at h
  split at h
  · rename_i c message hcall
    obtain ⟨rfl, rfl⟩ := Prod.mk.inj (pure_eq_ok_iff.mp h)
    obtain ⟨v, hview, _, hown, hmoves⟩ := exists_view_of_call hwf hcall
    exact .of_actsOn hview hwf (fun _ _ => rfl) ((hmoves none).emit [.sent t message])
      (.returnSend hown) (fun _ _ => rfl)
  · cases h

theorem setDisconnecting_projects (hwf : s.WellFormed)
    (h : s.step (.setDisconnecting t) = .ok (s', es)) : Projects s (.setDisconnecting t) s' es := by
  simp only [step] at h
  split at h
  · rename_i c hcall
    obtain ⟨v, hview, hconn, hown, hmoves⟩ := exists_view_of_call hwf hcall
    rw [hconn, ok_bind, pure_eq_ok_iff, Prod.mk.injEq] at h
    obtain ⟨rfl, rfl⟩ := h
    have hset := hmoves (some .stopped)
    have hstate : ActsOn c _ ((s.setThread t (some (c, .stopped))).setConn c
        { v.conn with state_ := .kDisconnecting }) [] _ [] :=
      actsOn_setConn hset.own rfl rfl
    exact .of_actsOn hview hwf (fun _ _ => rfl) ((hset.trans hstate).emit [.disconnecting])
      (.setDisconnecting hown) (fun _ _ => rfl)
  · cases h

theorem queueShutdown_projects (hwf : s.WellFormed)
    (h : s.step (.queueShutdown t) = .ok (s', es)) : Projects s (.queueShutdown t) s' es := by
  simp only [step] at h
  split at h
  · rename_i c hcall
    obtain ⟨v, hview, hconn, hown, hmoves⟩ := exists_view_of_call hwf hcall
    rw [hconn, ok_bind, pure_eq_ok_iff, Prod.mk.injEq] at h
    obtain ⟨rfl, rfl⟩ := h
    have hset := hmoves (some .stopQueued)
    have htask : Task.shutdownInloop ≠ .removeConnectionInLoop := by simp
    exact .of_actsOn hview hwf (fun _ _ => rfl) (hset.trans (actsOn_pushTask hset.own htask))
      (.queueShutdown hown) (fun _ _ => rfl)
  · cases h

theorem wakeupShutdown_projects (hwf : s.WellFormed)
    (h : s.step (.wakeupShutdown t) = .ok (s', es)) : Projects s (.wakeupShutdown t) s' es := by
  simp only [step] at h
  split at h
  · rename_i c hcall
    obtain ⟨v, hview, hconn, hown, hmoves⟩ := exists_view_of_call hwf hcall
    rw [hconn, ok_bind, pure_eq_ok_iff, Prod.mk.injEq] at h
    obtain ⟨rfl, rfl⟩ := h
    have hset := hmoves none
    exact .of_actsOn hview hwf (fun _ _ => rfl)
      (hset.trans (actsOn_wakeupIfNeeded hset.own t v.conn.loop_)) (.wakeupShutdown hown)
      (fun _ _ => rfl)
  · cases h

theorem retrieve_projects (hwf : s.WellFormed) {len : Nat}
    (h : s.step (.retrieve c len) = .ok (s', es)) : Projects s (.retrieve c len) s' es := by
  simp only [step, bind_eq_ok_iff, enabled_eq_ok_iff, pure_eq_ok_iff, Prod.mk.injEq] at h
  obtain ⟨conn, hconn, _, _, inputBuffer, _, rfl, rfl⟩ := h
  obtain ⟨v, hview, rfl⟩ := exists_view_of_conn hconn
  have hset : ActsOn c s (s.setConn c { v.conn with inputBuffer_ := inputBuffer }) [] _ [] :=
    actsOn_setConn hview rfl rfl
  exact .of_actsOn hview hwf (fun _ _ => rfl) hset (.retrieve inputBuffer) (fun _ _ => rfl)

end Users

/-- Every step of the system is, for every connection, a step of its own list. -/
theorem step_projects (hwf : s.WellFormed) {a : Action} (h : s.step a = .ok (s', es)) :
    Projects s a s' es := by
  cases a with
  | loop l => exact loop_projects hwf h
  | pollReturns l active => exact pollReturns_projects hwf h
  | handleWakeup l => exact handleWakeup_projects hwf h
  | accept sockfd => exact accept_projects hwf h
  | handleEvent l io => exact handleEvent_projects hwf h
  | enterPending l => exact enterPending_projects hwf h
  | swapPending l => exact swapPending_projects hwf h
  | callFunctor l io => exact callFunctor_projects hwf h
  | leavePending l => exact leavePending_projects hwf h
  | send t c message io => exact send_projects hwf h
  | queueSend t => exact queueSend_projects hwf h
  | wakeupSend t => exact wakeupSend_projects hwf h
  | returnSend t => exact returnSend_projects hwf h
  | shutdown t c => exact shutdown_projects hwf h
  | setDisconnecting t => exact setDisconnecting_projects hwf h
  | queueShutdown t => exact queueShutdown_projects hwf h
  | wakeupShutdown t => exact wakeupShutdown_projects hwf h
  | retrieve c len => exact retrieve_projects hwf h

end System

end TcpNet
