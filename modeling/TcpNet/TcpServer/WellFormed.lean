import TcpNet.TcpServer.Lifeline

open Transition

namespace TcpNet

theorem connName_inj {name : Name} {c c' : ConnId} (h : connName name c = connName name c') :
    c = c' := by
  have htail := List.append_cancel_left h
  have hdigits : Nat.toDigits 10 c = Nat.toDigits 10 c' := (List.cons.inj htail).2
  rw [← Nat.ofDigitChars_ten_toDigits (n := c), hdigits, Nat.ofDigitChars_ten_toDigits]

namespace System

def nameOf (s : System) (c : ConnId) : Option Name := (s.conns c).map (·.name_)

/-- Removals are queued on the base loop, every other functor on the loop of its
    connection. -/
def Placed (s : System) (l : LoopId) (cb : Functor) : Prop :=
  ∃ loop, s.loopOf cb.conn = some loop ∧
    l = if cb.task = .removeConnectionInLoop then baseLoop else loop

/-- How the parts of a reachable system fit together, whatever its connections do. -/
structure WellFormed (s : System) : Prop where
  named : ∀ c name, s.nameOf c = some name → name = connName s.server.name_ c
  fresh : ∀ c, s.server.nextConnId_ ≤ c → s.loopOf c = none
  keyed : ∀ name c, s.server.connects_ name = some c →
    name = connName s.server.name_ c ∧ (s.loopOf c).isSome
  quiet : ∀ l, (s.loops l).phase ≠ .dispatching → s.callbacks l = []
  whole : ∀ l, (s.loops l).phase ≠ .calling → (s.loops l).functors = []
  handlers : ∀ l c handler, (c, handler) ∈ s.callbacks l → s.loopOf c = some l
  functors : ∀ l cb, cb ∈ (s.loops l).queued → s.Placed l cb
  threads : ∀ t c call, s.threads t = some (c, call) → ∃ loop, s.loopOf c = some loop ∧ t ≠ loop
  polled : ∀ c, s.polled c = true → (s.loopOf c).isSome

@[simp] theorem eventsOf_nil (c : ConnId) : eventsOf c [] = [] := rfl

@[simp] theorem eventsOf_append (c : ConnId) (es es' : List Event) :
    eventsOf c (es ++ es') = eventsOf c es ++ eventsOf c es' :=
  List.filterMap_append

@[simp] theorem eventsOf_cons_self (c : ConnId) (e : ConnEvent) (es : List Event) :
    eventsOf c ((c, e) :: es) = e :: eventsOf c es := by
  simp [eventsOf]

theorem eventsOf_cons_of_ne {c c' : ConnId} (h : c' ≠ c) (e : ConnEvent) (es : List Event) :
    eventsOf c' ((c, e) :: es) = eventsOf c' es := by
  simp [eventsOf, h.symm]

@[simp] theorem eventsOf_tagged_self (c : ConnId) (es : List ConnEvent) :
    eventsOf c (es.map (c, ·)) = es := by
  induction es with
  | nil => rfl
  | cons e es ih => rw [List.map_cons, eventsOf_cons_self, ih]

theorem eventsOf_tagged_of_ne {c c' : ConnId} (h : c' ≠ c) (es : List ConnEvent) :
    eventsOf c' (es.map (c, ·)) = [] := by
  induction es with
  | nil => rfl
  | cons e es ih => rw [List.map_cons, eventsOf_cons_of_ne h, ih]

@[simp] theorem tasksOf_append (c : ConnId) (q q' : List Functor) :
    tasksOf c (q ++ q') = tasksOf c q ++ tasksOf c q' :=
  List.filterMap_append

@[simp] theorem removalsOf_append (c : ConnId) (q q' : List Functor) :
    removalsOf c (q ++ q') = removalsOf c q + removalsOf c q' :=
  List.count_append

theorem tasksOf_singleton_self {c : ConnId} {task : Task} (h : task ≠ .removeConnectionInLoop) :
    tasksOf c [⟨c, task⟩] = [task] := by
  simp [tasksOf, h]

@[simp] theorem tasksOf_removal (c c' : ConnId) :
    tasksOf c [⟨c', .removeConnectionInLoop⟩] = [] := by
  simp [tasksOf]

@[simp] theorem removalsOf_removal_self (c : ConnId) :
    removalsOf c [⟨c, .removeConnectionInLoop⟩] = 1 := by
  simp [removalsOf]

theorem removalsOf_task {c c' : ConnId} {task : Task} (h : task ≠ .removeConnectionInLoop) :
    removalsOf c' [⟨c, task⟩] = 0 := by
  simp [removalsOf, List.count_eq_zero, Ne.symm h]

theorem removalsOf_singleton_of_ne {c c' : ConnId} (h : c' ≠ c) (task : Task) :
    removalsOf c' [⟨c, task⟩] = 0 := by
  simp [removalsOf, List.count_eq_zero, h]

theorem view_eq_none_iff {s : System} {c : ConnId} : s.view c = none ↔ s.loopOf c = none := by
  simp [view, loopOf]

theorem conn_of_view {s : System} {c : ConnId} {v : Lifeline} (h : s.view c = some v) :
    s.conns c = some v.conn := by
  obtain ⟨conn, hconn, rfl⟩ := Option.map_eq_some_iff.mp h
  exact hconn

theorem conn_eq_ok_iff {s : System} {c : ConnId} {conn : TcpConnection} :
    s.conn c = .ok conn ↔ s.conns c = some conn := by
  unfold System.conn
  cases s.conns c with
  | none => simp [throw, throwThe, MonadExceptOf.throw]
  | some conn' => simp

theorem loopOf_of_view {s : System} {c : ConnId} {v : Lifeline} (h : s.view c = some v) :
    s.loopOf c = some v.conn.loop_ := by
  simp [loopOf, conn_of_view h]

/-- The parts of a system that the view of connection `c` on loop `loop` looks at,
    the connection itself apart. -/
def surroundings (c : ConnId) (s : System) (name : Name) (loop : LoopId) :=
  (s.server.connects_ name == some c, s.polled c, tasksOf c (s.loops loop).queued,
    removalsOf c (s.loops baseLoop).queued, handlersFor c (s.callbacks loop),
    fun t => callOf c (s.threads t))

theorem view_congr {s s' : System} {c : ConnId} (hconn : s'.conns c = s.conns c)
    (hsame : ∀ name loop, s.nameOf c = some name → s.loopOf c = some loop →
      surroundings c s' name loop = surroundings c s name loop) :
    s'.view c = s.view c := by
  cases hcase : s.conns c with
  | none => simp [view, hconn, hcase]
  | some conn =>
    have hsame := hsame conn.name_ conn.loop_ (by simp [nameOf, hcase]) (by simp [loopOf, hcase])
    simp only [surroundings, Prod.mk.injEq] at hsame
    obtain ⟨hmapped, hpolled, hqueue, hremovals, htodo, hthreads⟩ := hsame
    simp only [view, hconn, hcase, Option.map_some, hmapped, hpolled, hqueue, hremovals, htodo,
      hthreads]

/-- `s'` differs from `s` in what the connections hold, in entries that left
    `connects_`, in functors queued where they belong, and in calls of threads. -/
structure Steady (s s' : System) : Prop where
  name : s'.server.name_ = s.server.name_
  next : s'.server.nextConnId_ = s.server.nextConnId_
  connects : ∀ name c, s'.server.connects_ name = some c → s.server.connects_ name = some c
  loopOf : s'.loopOf = s.loopOf
  nameOf : s'.nameOf = s.nameOf
  callbacks : s'.callbacks = s.callbacks
  phase : ∀ l, (s'.loops l).phase = (s.loops l).phase
  batch : ∀ l, (s'.loops l).functors = (s.loops l).functors
  queued : ∀ l cb, cb ∈ (s'.loops l).queued → cb ∈ (s.loops l).queued ∨ s.Placed l cb
  threads : ∀ t c call, s'.threads t = some (c, call) →
    s.threads t = some (c, call) ∨ ∃ loop, s.loopOf c = some loop ∧ t ≠ loop
  polled : ∀ c, s'.polled c = true → s.polled c = true ∨ (s.loopOf c).isSome

theorem WellFormed.of_steady {s s' : System} (hwf : s.WellFormed) (h : Steady s s') :
    s'.WellFormed where
  named := by
    rw [h.nameOf, h.name]
    exact hwf.named
  fresh := by
    rw [h.next, h.loopOf]
    exact hwf.fresh
  keyed := by
    intro name c hentry
    rw [h.name, h.loopOf]
    exact hwf.keyed name c (h.connects name c hentry)
  quiet := by
    intro l hphase
    rw [h.phase] at hphase
    rw [h.callbacks]
    exact hwf.quiet l hphase
  whole := by
    intro l hphase
    rw [h.phase] at hphase
    rw [h.batch]
    exact hwf.whole l hphase
  handlers := by
    rw [h.callbacks, h.loopOf]
    exact hwf.handlers
  functors := by
    intro l cb hcb
    have hplaced : s.Placed l cb := (h.queued l cb hcb).elim (hwf.functors l cb) id
    rw [Placed, h.loopOf]
    exact hplaced
  threads := by
    intro t c call hcall
    rw [h.loopOf]
    exact (h.threads t c call hcall).elim (hwf.threads t c call) id
  polled := by
    intro c hpolled
    rw [h.loopOf]
    exact (h.polled c hpolled).elim (hwf.polled c) id

/-- A part of a step that concerns connection `c` alone: it takes the view of `c`
    to `v'` with the events `ces`, and no other connection sees anything of it. -/
structure ActsOn (c : ConnId) (s s' : System) (es : List Event) (v' : Lifeline)
    (ces : List ConnEvent) : Prop where
  steady : Steady s s'
  own : s'.view c = some v'
  events : eventsOf c es = ces
  others : ∀ c' ≠ c, s'.view c' = s.view c' ∧ eventsOf c' es = []

theorem Steady.trans {s s' s'' : System} (h : Steady s s') (h' : Steady s' s'') :
    Steady s s'' where
  name := h'.name.trans h.name
  next := h'.next.trans h.next
  connects := fun name c hentry => h.connects name c (h'.connects name c hentry)
  loopOf := h'.loopOf.trans h.loopOf
  nameOf := h'.nameOf.trans h.nameOf
  callbacks := h'.callbacks.trans h.callbacks
  phase := fun l => (h'.phase l).trans (h.phase l)
  batch := fun l => (h'.batch l).trans (h.batch l)
  queued := by
    intro l cb hcb
    rcases h'.queued l cb hcb with hcb | hplaced
    · exact h.queued l cb hcb
    · rw [Placed, h.loopOf] at hplaced
      exact .inr hplaced
  threads := by
    intro t c call hcall
    rcases h'.threads t c call hcall with hcall | hplaced
    · exact h.threads t c call hcall
    · rw [h.loopOf] at hplaced
      exact .inr hplaced
  polled := by
    intro c hpolled
    rcases h'.polled c hpolled with hpolled | hknown
    · exact h.polled c hpolled
    · rw [h.loopOf] at hknown
      exact .inr hknown

theorem Steady.refl (s : System) : Steady s s where
  name := rfl
  next := rfl
  connects := fun _ _ h => h
  loopOf := rfl
  nameOf := rfl
  callbacks := rfl
  phase := fun _ => rfl
  batch := fun _ => rfl
  queued := fun _ _ h => .inl h
  threads := fun _ _ _ h => .inl h
  polled := fun _ h => .inl h

theorem ActsOn.refl {c : ConnId} {s : System} {v : Lifeline} (h : s.view c = some v) :
    ActsOn c s s [] v [] :=
  ⟨.refl s, h, rfl, fun _ _ => ⟨rfl, rfl⟩⟩

theorem ActsOn.trans {c : ConnId} {s s' s'' : System} {es es' : List Event} {v' v'' : Lifeline}
    {ces ces' : List ConnEvent} (h : ActsOn c s s' es v' ces) (h' : ActsOn c s' s'' es' v'' ces') :
    ActsOn c s s'' (es ++ es') v'' (ces ++ ces') where
  steady := h.steady.trans h'.steady
  own := h'.own
  events := by rw [eventsOf_append, h.events, h'.events]
  others := by
    intro c' hne
    obtain ⟨hview, hquiet⟩ := h.others c' hne
    obtain ⟨hview', hquiet'⟩ := h'.others c' hne
    exact ⟨hview'.trans hview, by rw [eventsOf_append, hquiet, hquiet', List.append_nil]⟩

theorem ActsOn.emit {c : ConnId} {s s' : System} {es : List Event} {v' : Lifeline}
    {ces : List ConnEvent} (h : ActsOn c s s' es v' ces) (first : List ConnEvent) :
    ActsOn c s s' (first.map (c, ·) ++ es) v' (first ++ ces) where
  steady := h.steady
  own := h.own
  events := by rw [eventsOf_append, eventsOf_tagged_self, h.events]
  others := by
    intro c' hne
    obtain ⟨hview, hquiet⟩ := h.others c' hne
    exact ⟨hview, by rw [eventsOf_append, eventsOf_tagged_of_ne hne, hquiet, List.append_nil]⟩

section Parts

variable {c : ConnId} {s : System} {v : Lifeline}

theorem actsOn_setConn (hview : s.view c = some v) {conn : TcpConnection}
    (hloop : conn.loop_ = v.conn.loop_) (hname : conn.name_ = v.conn.name_) :
    ActsOn c s (s.setConn c conn) [] { v with conn := conn } [] := by
  have hconn := conn_of_view hview
  refine ⟨{ Steady.refl s with
    loopOf := ?_, nameOf := ?_, queued := ?_, threads := ?_, polled := ?_ }, ?_, rfl, ?_⟩
  · funext c'
    by_cases hne : c' = c
    · subst hne
      simp [loopOf, setConn, hconn, hloop]
    · simp [loopOf, setConn, hne]
  · funext c'
    by_cases hne : c' = c
    · subst hne
      simp [nameOf, setConn, hconn, hname]
    · simp [nameOf, setConn, hne]
  · exact fun _ _ h => .inl h
  · exact fun _ _ _ h => .inl h
  · exact fun _ h => .inl h
  · obtain ⟨_, hold, rfl⟩ := Option.map_eq_some_iff.mp hview
    simp only at hloop hname
    simp [view, setConn, hloop, hname]
  · intro c' hne
    exact ⟨by simp [view, setConn, hne], rfl⟩

theorem actsOn_setPolled (hview : s.view c = some v) (polled : Bool) :
    ActsOn c s (s.setPolled c polled) [] { v with polled := polled } [] := by
  refine ⟨{ Steady.refl s with polled := ?_ }, ?_, rfl, ?_⟩
  · intro c' hpolled
    by_cases hne : c' = c
    · subst hne
      exact .inr (by simp [loopOf_of_view hview])
    · simp only [setPolled, Function.update_of_ne hne] at hpolled
      exact .inl hpolled
  · obtain ⟨_, hold, rfl⟩ := Option.map_eq_some_iff.mp hview
    simp [view, setPolled, hold]
  · intro c' hne
    exact ⟨by simp [view, setPolled, hne], rfl⟩

/-- What a queued functor adds to the view of its own connection. -/
theorem actsOn_pushBack (hview : s.view c = some v) {l : LoopId} {task : Task}
    (hplaced : s.Placed l ⟨c, task⟩) :
    ActsOn c s (s.pushBack l ⟨c, task⟩) []
      { v with
        queue := v.queue ++ tasksOf c [⟨c, task⟩]
        removals := v.removals + removalsOf c [⟨c, task⟩] } [] := by
  have hqueued : ∀ l', ((s.pushBack l ⟨c, task⟩).loops l').queued =
      (s.loops l').queued ++ if l' = l then [⟨c, task⟩] else [] := by
    intro l'
    by_cases hl : l' = l
    · subst hl
      simp [pushBack, setLoop]
    · simp [pushBack, setLoop, hl]
  obtain ⟨loop, hloop, hl⟩ := hplaced
  have hsteady : Steady s (s.pushBack l ⟨c, task⟩) := by
    refine { Steady.refl s with phase := ?_, batch := ?_, queued := ?_ }
    · intro l'
      by_cases hl : l' = l
      · subst hl
        simp [pushBack, setLoop]
      · simp [pushBack, setLoop, hl]
    · intro l'
      by_cases hl : l' = l
      · subst hl
        simp [pushBack, setLoop]
      · simp [pushBack, setLoop, hl]
    · intro l' cb hcb
      rw [hqueued, List.mem_append] at hcb
      rcases hcb with hcb | hcb
      · exact .inl hcb
      · by_cases hl' : l' = l
        · rw [if_pos hl', List.mem_singleton] at hcb
          rw [hcb, hl']
          exact .inr ⟨loop, hloop, hl⟩
        · simp [hl'] at hcb
  refine ⟨hsteady, ?_, rfl, ?_⟩
  · obtain ⟨conn, hold, rfl⟩ := Option.map_eq_some_iff.mp hview
    have hloopIs : conn.loop_ = loop := by simpa [loopOf, hold] using hloop
    have hqueue : tasksOf c ((s.pushBack l ⟨c, task⟩).loops conn.loop_).queued =
        tasksOf c (s.loops conn.loop_).queued ++ tasksOf c [⟨c, task⟩] := by
      rw [hqueued, tasksOf_append]
      by_cases hremoval : task = .removeConnectionInLoop
      · subst hremoval
        by_cases hown : conn.loop_ = l <;> simp [hown, tasksOf]
      · rw [if_neg hremoval] at hl
        rw [if_pos (hloopIs.trans hl.symm)]
    have hremovals : removalsOf c ((s.pushBack l ⟨c, task⟩).loops baseLoop).queued =
        removalsOf c (s.loops baseLoop).queued + removalsOf c [⟨c, task⟩] := by
      rw [hqueued, removalsOf_append]
      by_cases hremoval : task = .removeConnectionInLoop
      · rw [if_pos hremoval] at hl
        rw [if_pos hl.symm]
      · by_cases hbase : baseLoop = l
        · rw [if_pos hbase]
        · rw [if_neg hbase, removalsOf_task hremoval]
          simp [removalsOf]
    have hconns : (s.pushBack l ⟨c, task⟩).conns c = some conn := hold
    simp only [view, hconns, Option.map_some, hqueue, hremovals]
    rfl
  · intro c' hne
    refine ⟨view_congr rfl ?_, rfl⟩
    intro name loop' _ _
    have hqueue : tasksOf c' ((s.pushBack l ⟨c, task⟩).loops loop').queued =
        tasksOf c' (s.loops loop').queued := by
      rw [hqueued, tasksOf_append]
      by_cases hown : loop' = l <;> simp [hown, tasksOf, hne.symm]
    have hremovals : removalsOf c' ((s.pushBack l ⟨c, task⟩).loops baseLoop).queued =
        removalsOf c' (s.loops baseLoop).queued := by
      rw [hqueued, removalsOf_append]
      by_cases hown : baseLoop = l
      · rw [if_pos hown, removalsOf_singleton_of_ne hne, Nat.add_zero]
      · simp [hown, removalsOf]
    simp only [surroundings, hqueue, hremovals]
    rfl

/-- No connection sees that a loop is woken up. -/
theorem actsOn_wakeupIfNeeded (hview : s.view c = some v) (here : ThreadId) (l : LoopId) :
    ActsOn c s (s.wakeupIfNeeded here l) [] v [] := by
  have hloop : ∀ l', ((s.wakeupIfNeeded here l).loops l').phase = (s.loops l').phase ∧
      ((s.wakeupIfNeeded here l).loops l').functors = (s.loops l').functors ∧
      ((s.wakeupIfNeeded here l).loops l').queued = (s.loops l').queued := by
    intro l'
    by_cases hl : l' = l
    · subst hl
      simp [wakeupIfNeeded, setLoop]
    · simp [wakeupIfNeeded, setLoop, hl]
  have hviews : ∀ c', (s.wakeupIfNeeded here l).view c' = s.view c' := by
    intro c'
    refine view_congr rfl (fun name loop _ _ => ?_)
    simp only [surroundings, (hloop _).2.2]
    rfl
  refine ⟨{ Steady.refl s with phase := ?_, batch := ?_, queued := ?_ }, ?_, rfl, ?_⟩
  · exact fun l' => (hloop l').1
  · exact fun l' => (hloop l').2.1
  · intro l' cb hcb
    rw [(hloop l').2.2] at hcb
    exact .inl hcb
  · rw [hviews]
    exact hview
  · exact fun c' _ => ⟨hviews c', rfl⟩

theorem queueInloop_eq (s : System) (here : ThreadId) (l : LoopId) (cb : Functor) :
    s.queueInloop here l cb = (s.pushBack l cb).wakeupIfNeeded here l := by
  simp [queueInloop, pushBack, wakeupIfNeeded, setLoop, EventLoop.queueInloop]

theorem actsOn_queueInloop (hview : s.view c = some v) (here : ThreadId) {l : LoopId} {task : Task}
    (hplaced : s.Placed l ⟨c, task⟩) :
    ActsOn c s (s.queueInloop here l ⟨c, task⟩) []
      { v with
        queue := v.queue ++ tasksOf c [⟨c, task⟩]
        removals := v.removals + removalsOf c [⟨c, task⟩] } [] := by
  have hpush := actsOn_pushBack hview hplaced
  rw [queueInloop_eq]
  exact hpush.trans (actsOn_wakeupIfNeeded hpush.own here l)

/-- The same for a functor that is no removal, on the loop of its connection. -/
theorem actsOn_pushTask (hview : s.view c = some v) {task : Task}
    (htask : task ≠ .removeConnectionInLoop) :
    ActsOn c s (s.pushBack v.conn.loop_ ⟨c, task⟩) [] { v with queue := v.queue ++ [task] } [] := by
  have hplaced : s.Placed v.conn.loop_ ⟨c, task⟩ := ⟨_, loopOf_of_view hview, (if_neg htask).symm⟩
  have hacts := actsOn_pushBack hview hplaced
  rw [tasksOf_singleton_self htask, removalsOf_task htask, Nat.add_zero] at hacts
  exact hacts

theorem actsOn_queueTask (hview : s.view c = some v) (here : ThreadId) {task : Task}
    (htask : task ≠ .removeConnectionInLoop) :
    ActsOn c s (s.queueInloop here v.conn.loop_ ⟨c, task⟩) [] { v with queue := v.queue ++ [task] }
      [] := by
  have hpush := actsOn_pushTask hview htask
  rw [queueInloop_eq]
  exact hpush.trans (actsOn_wakeupIfNeeded hpush.own here v.conn.loop_)

theorem actsOn_queueRemoval (hview : s.view c = some v) (here : ThreadId) :
    ActsOn c s (s.queueInloop here baseLoop ⟨c, .removeConnectionInLoop⟩) []
      { v with removals := v.removals + 1 } [] := by
  have hplaced : s.Placed baseLoop ⟨c, .removeConnectionInLoop⟩ :=
    ⟨_, loopOf_of_view hview, (if_pos rfl).symm⟩
  have hacts := actsOn_queueInloop hview here hplaced
  rw [tasksOf_removal, removalsOf_removal_self, List.append_nil] at hacts
  exact hacts

/-- A thread that is idle, or in a call on `c`, moves on in a call on `c` or ends it. -/
theorem actsOn_setThread (hview : s.view c = some v) {t : ThreadId} (call : Option Call)
    (hold : ∀ c' call, s.threads t = some (c', call) → c' = c)
    (hforeign : call ≠ none → t ≠ v.conn.loop_) :
    ActsOn c s (s.setThread t (call.map (c, ·))) [] (v.setThread t call) [] := by
  refine ⟨{ Steady.refl s with threads := ?_ }, ?_, rfl, ?_⟩
  · intro t' c' call' hcall
    by_cases ht : t' = t
    · subst ht
      simp only [setThread, Function.update_self, Option.map_eq_some_iff, Prod.mk.injEq] at hcall
      obtain ⟨_, rfl, rfl, _⟩ := hcall
      exact .inr ⟨_, loopOf_of_view hview, hforeign (by simp)⟩
    · simp only [setThread, Function.update_of_ne ht] at hcall
      exact .inl hcall
  · obtain ⟨conn, hconn, rfl⟩ := Option.map_eq_some_iff.mp hview
    have hconns : (s.setThread t (call.map (c, ·))).conns c = some conn := hconn
    have hthreads : (fun t' => callOf c ((s.setThread t (call.map (c, ·))).threads t')) =
        Function.update (fun t' => callOf c (s.threads t')) t call := by
      funext t'
      by_cases ht : t' = t
      · subst ht
        cases call <;> simp [setThread, callOf]
      · simp [setThread, ht]
    simp only [view, hconns, Option.map_some, hthreads]
    rfl
  · intro c' hne
    refine ⟨view_congr rfl ?_, rfl⟩
    intro name loop _ _
    have hthreads : (fun t' => callOf c' ((s.setThread t (call.map (c, ·))).threads t')) =
        fun t' => callOf c' (s.threads t') := by
      funext t'
      by_cases ht : t' = t
      · subst ht
        have hbefore : callOf c' (s.threads t') = none := by
          cases hcase : s.threads t' with
          | none => rfl
          | some entry =>
            have hown := hold entry.1 entry.2 hcase
            simp [callOf, hown, hne.symm]
        rw [hbefore]
        cases call <;> simp [setThread, callOf, hne.symm]
      · simp [setThread, ht]
    simp only [surroundings, hthreads]
    rfl

/-- The entry of `c` leaves `connects_`. No other connection has its name. -/
theorem actsOn_erase (hwf : s.WellFormed) (hview : s.view c = some v) :
    ActsOn c s (s.setConnects v.conn.name_ none) [] { v with mapped := false } [] := by
  have hnameOf : ∀ c' name, s.nameOf c' = some name → name = v.conn.name_ → c' = c := by
    intro c' name hname hsame
    have hown : v.conn.name_ = connName s.server.name_ c :=
      hwf.named c _ (by simp [nameOf, conn_of_view hview])
    exact connName_inj ((hwf.named c' name hname).symm.trans (hsame.trans hown))
  refine ⟨{ Steady.refl s with connects := ?_ }, ?_, rfl, ?_⟩
  · intro name c' hentry
    by_cases hname : name = v.conn.name_
    · subst hname
      simp [setConnects] at hentry
    · simpa [setConnects, hname] using hentry
  · obtain ⟨conn, hold, rfl⟩ := Option.map_eq_some_iff.mp hview
    simp [view, setConnects, hold]
  · intro c' hne
    refine ⟨view_congr rfl ?_, rfl⟩
    intro name loop hname _
    have hother : name ≠ v.conn.name_ := fun hsame => hne (hnameOf c' name hname hsame)
    simp [surroundings, setConnects, hother]

theorem mapped_of_view (hview : s.view c = some v) :
    v.mapped = (s.server.connects_ v.conn.name_ == some c) := by
  obtain ⟨conn, _, rfl⟩ := Option.map_eq_some_iff.mp hview
  rfl

/-- The entry under the name of `c` is `c` itself, if there is one. -/
theorem WellFormed.entry_eq (hwf : s.WellFormed) (hview : s.view c = some v) {c' : ConnId}
    (hentry : s.server.connects_ v.conn.name_ = some c') : c' = c := by
  have hname : v.conn.name_ = connName s.server.name_ c :=
    hwf.named c _ (by simp [nameOf, conn_of_view hview])
  exact connName_inj ((hwf.keyed _ c' hentry).1.symm.trans hname)

theorem removeConnectionInLoop_acts (hwf : s.WellFormed) (hview : s.view c = some v)
    {here : ThreadId} {s' : System} {es : List Event}
    (h : s.removeConnectionInLoop here c = .ok (s', es)) :
    ActsOn c s s' es v.removeConnectionInLoop.1 v.removeConnectionInLoop.2 := by
  simp only [removeConnectionInLoop, bind_eq_ok_iff, require_eq_ok_iff] at h
  obtain ⟨_, _, conn, hconn, h⟩ := h
  have hsame : conn = v.conn :=
    Option.some.inj ((conn_eq_ok_iff.mp hconn).symm.trans (conn_of_view hview))
  subst hsame
  have hmapped := mapped_of_view hview
  cases hentry : s.server.connects_ v.conn.name_ with
  | none =>
    rw [hentry] at h hmapped
    simp only [pure_eq_ok_iff, Prod.mk.injEq] at h
    obtain ⟨rfl, rfl⟩ := h
    have hunmapped : v.mapped = false := by simpa using hmapped
    simp only [Lifeline.removeConnectionInLoop, hunmapped, Bool.false_eq_true, if_false]
    exact .refl hview
  | some erased =>
    have hself := hwf.entry_eq hview hentry
    subst hself
    rw [hentry] at h hmapped
    simp only [pure_eq_ok_iff, Prod.mk.injEq] at h
    obtain ⟨rfl, rfl⟩ := h
    have hknown : v.mapped = true := by simpa using hmapped
    have herase := actsOn_erase hwf hview
    have htask : Task.connectDestory ≠ .removeConnectionInLoop := by simp
    have hqueue := actsOn_queueTask herase.own here htask
    have hacts := (herase.trans hqueue).emit [.erased, .destroyQueued]
    simp only [Lifeline.removeConnectionInLoop, hknown, if_true]
    exact hacts

theorem removeConnection_acts (hwf : s.WellFormed) (hview : s.view c = some v)
    {here : ThreadId} {s' : System} {es : List Event}
    (h : s.removeConnection here c = .ok (s', es)) :
    ActsOn c s s' es (v.performOne here .closeCallBack).1 (v.performOne here .closeCallBack).2 := by
  unfold removeConnection at h
  simp only [Lifeline.performOne]
  by_cases hbase : here = baseLoop
  · rw [if_pos hbase] at h ⊢
    exact removeConnectionInLoop_acts hwf hview h
  · rw [if_neg hbase, pure_eq_ok_iff, Prod.mk.injEq] at h
    obtain ⟨rfl, rfl⟩ := h
    rw [if_neg hbase]
    exact actsOn_queueRemoval hview here

theorem performOne_acts (hwf : s.WellFormed) (hview : s.view c = some v) {here : ThreadId}
    {effect : Effect} {s' : System} {es : List Event}
    (h : s.performOne here c effect = .ok (s', es)) :
    ActsOn c s s' es (v.performOne here effect).1 (v.performOne here effect).2 := by
  cases effect with
  | updateChannel =>
    simp only [performOne, pure_eq_ok_iff, Prod.mk.injEq] at h
    obtain ⟨rfl, rfl⟩ := h
    exact actsOn_setPolled hview true
  | removeChannel =>
    simp only [performOne, pure_eq_ok_iff, Prod.mk.injEq] at h
    obtain ⟨rfl, rfl⟩ := h
    exact actsOn_setPolled hview false
  | closeCallBack => exact removeConnection_acts hwf hview h
  | written _ | shutdownWrite | connectionCallBack _ | messageCallBack =>
    simp only [performOne, pure_eq_ok_iff, Prod.mk.injEq] at h
    obtain ⟨rfl, rfl⟩ := h
    exact .refl hview

theorem perform_acts {effects : List Effect} {here : ThreadId} {s s' : System} {v : Lifeline}
    {es : List Event} (hwf : s.WellFormed) (hview : s.view c = some v)
    (h : s.perform here c effects = .ok (s', es)) :
    ActsOn c s s' es (v.perform here effects).1 (v.perform here effects).2 := by
  induction effects generalizing s v es with
  | nil =>
    simp only [perform, pure_eq_ok_iff, Prod.mk.injEq] at h
    obtain ⟨rfl, rfl⟩ := h
    exact .refl hview
  | cons effect rest ih =>
    simp only [perform, bind_eq_ok_iff, pure_eq_ok_iff, Prod.exists, Prod.mk.injEq] at h
    obtain ⟨s₁, first, hfirst, s₂, others, hrest, rfl, rfl⟩ := h
    have hone := performOne_acts hwf hview hfirst
    have hothers := ih (hwf.of_steady hone.steady) hone.own hrest
    exact (hone.trans hothers).emit [.effect effect]

/-- A call into connection `c`, seen from `c`. -/
theorem callAfter_acts (hwf : s.WellFormed) (hview : s.view c = some v) {here : ThreadId}
    {first : List ConnEvent} {f : TcpConnection → Except Stop (TcpConnection × List Effect)}
    (hkeeps : ∀ conn conn' effects, f conn = .ok (conn', effects) →
      conn.Same conn')
    {s' : System} {es : List Event} (h : s.callAfter here c first f = .ok (s', es)) :
    ∃ conn effects v' ces, f v.conn = .ok (conn, effects) ∧
      { v with conn := conn }.perform here effects = (v', ces) ∧
      ActsOn c s s' es v' (first ++ ces) := by
  simp only [callAfter, call, bind_eq_ok_iff, pure_eq_ok_iff, Prod.exists, Prod.mk.injEq] at h
  obtain ⟨s₁, others, ⟨conn, hconn, conn', effects, hrun, hperform⟩, rfl, rfl⟩ := h
  have hsame : conn = v.conn :=
    Option.some.inj ((conn_eq_ok_iff.mp hconn).symm.trans (conn_of_view hview))
  subst hsame
  obtain ⟨hloop, hname⟩ := hkeeps _ _ _ hrun
  have hset := actsOn_setConn hview hloop hname
  have hacts := perform_acts (hwf.of_steady hset.steady) hset.own hperform
  exact ⟨conn', effects, _, _, hrun, rfl, (hset.trans hacts).emit first⟩

end Parts

end System

end TcpNet
