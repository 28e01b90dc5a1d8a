import TcpNet.Library.Handshake
import TcpNet.TcpServer

open Transition

namespace TcpNet

/-- Where `EventLoopThreadPool::start` is: at the head of its loop, or in the `startLoop` of the
    thread that it has just made. -/
inductive StartPhase where
  | looping (i : Nat)
  | starting (i : Nat)
  | returned
  deriving DecidableEq, Repr

/-- A pool and its threads while `start` is running. In an `EventLoopThread`, `startLoop` takes
    the `loop_` that `threadFunc` gives. -/
structure PoolStart where
  numThreads_ : Nat
  threads_ : List (Handshake LoopId)
  loops_ : List LoopId
  phase : StartPhase

/-- A step of the thread that runs `start`, a step of `threadFunc` in the `k`-th thread up to
    `loop.loop()`, and a return of `cond_.wait` that nobody asked for. -/
inductive StartAction where
  | start
  | threadFunc (k : Nat)
  | wakeUp
  deriving DecidableEq, Repr

namespace PoolStart

/-- The loop that the `k`-th thread makes, which goes by the number of its thread. -/
def loopOfThread (k : Nat) : LoopId := k + 1

/-- `new EventLoopThread`, and the start of its thread. -/
def spawn (s : PoolStart) (i : Nat) : PoolStart :=
  { s with threads_ := s.threads_ ++ [Handshake.new], phase := .starting i }

def setThread (s : PoolStart) (k : Nat) (t : Handshake LoopId) : PoolStart :=
  { s with threads_ := s.threads_.set k t }

def thread (s : PoolStart) (k : Nat) : Except Stop (Handshake LoopId) :=
  match s.threads_[k]? with
  | some t => return t
  | none => throw .disabled

/-- A null pointer must not get into `loops_`. -/
def startLoop (s : PoolStart) (i : Nat) (t : Handshake LoopId) : Except Stop PoolStart :=
  if t.taker = .done then
    match t.value with
    | none => throw .assertion
    | some loop => return { s with loops_ := s.loops_ ++ [loop], phase := .looping (i + 1) }
  else do
    let t ← t.takerStep
    return s.setThread i t

def act (s : PoolStart) : StartAction → Except Stop PoolStart
  | .start =>
    match s.phase with
    | .looping i => return if i < s.numThreads_ then s.spawn i else { s with phase := .returned }
    | .starting i => do
      let t ← s.thread i
      s.startLoop i t
    | .returned => throw .disabled
  | .threadFunc k => do
    let t ← s.thread k
    let t ← t.giverStep (loopOfThread k)
    return s.setThread k t
  | .wakeUp =>
    match s.phase with
    | .starting i => do
      let t ← s.thread i
      let t ← t.wakeUp
      return s.setThread i t
    | _ => throw .disabled

/-- The pool from the beginning of `start`. The trace holds the steps that were taken. -/
def machine : Machine PoolStart StartAction StartAction where
  init s := s.threads_ = [] ∧ s.loops_ = [] ∧ s.phase = .looping 0
  step s a := do
    let s ← s.act a
    return (s, [a])

/-- What a pool with `n` threads is while it starts. -/
structure Starts (n : Nat) (s : PoolStart) : Prop where
  number : s.numThreads_ = n
  sound : ∀ (k : Nat) t, s.threads_[k]? = some t → t.Sound
  made : ∀ (k : Nat) t, s.threads_[k]? = some t → ∀ loop, t.made = some loop → loop = loopOfThread k
  done : ∀ (k : Nat) t, s.threads_[k]? = some t → k < s.loops_.length → t.taker = .done
  loops : s.loops_ = (List.range s.loops_.length).map loopOfThread
  phase : match s.phase with
    | .looping i => i = s.loops_.length ∧ i = s.threads_.length ∧ i ≤ n
    | .starting i => i = s.loops_.length ∧ i + 1 = s.threads_.length ∧ i < n
    | .returned => n = s.loops_.length ∧ n = s.threads_.length

/-- The steps of `start` that are left, less those of the threads. -/
def StartPhase.rank (n : Nat) : StartPhase → Nat
  | .looping i => 21 * (n - i) + 1
  | .starting i => 21 * (n - (i + 1)) + 2
  | .returned => 0

/-- The steps that are left at most, wake-ups apart. -/
def rank (s : PoolStart) : Nat :=
  StartPhase.rank s.numThreads_ s.phase + (s.threads_.map Handshake.rank).sum

variable {s s' : PoolStart} {n k : Nat} {t t' : Handshake LoopId} {a : StartAction}
  {tr es : List StartAction}

theorem thread_eq_ok_iff : s.thread k = .ok t ↔ s.threads_[k]? = some t := by
  rw [thread]
  cases s.threads_[k]? with
  | none => simp [throw, throwThe, MonadExceptOf.throw]
  | some t' => simp

theorem sum_rank_set {threads : List (Handshake LoopId)} (h : threads[k]? = some t)
    (t' : Handshake LoopId) :
    ((threads.set k t').map Handshake.rank).sum + t.rank =
      (threads.map Handshake.rank).sum + t'.rank := by
  induction threads generalizing k with
  | nil => cases h
  | cons first rest ih =>
    cases k with
    | zero =>
      obtain rfl := Option.some.inj h
      simp only [List.set_cons_zero, List.map_cons, List.sum_cons]
      omega
    | succ k =>
      have hrest := ih h
      simp only [List.set_cons_succ, List.map_cons, List.sum_cons]
      omega

/-- What one step does. -/
inductive Step (s : PoolStart) : StartAction → PoolStart → Prop
  | spawned {i : Nat} (hphase : s.phase = .looping i) (hmore : i < s.numThreads_) :
      Step s .start (s.spawn i)
  | returned {i : Nat} (hphase : s.phase = .looping i) (hall : s.numThreads_ ≤ i) :
      Step s .start { s with phase := .returned }
  | started {i : Nat} {t : Handshake LoopId} {loop : LoopId} (hphase : s.phase = .starting i)
      (hthread : s.threads_[i]? = some t) (hdone : t.taker = .done) (hvalue : t.value = some loop) :
      Step s .start { s with loops_ := s.loops_ ++ [loop], phase := .looping (i + 1) }
  | looked {i : Nat} {t t' : Handshake LoopId} (hphase : s.phase = .starting i)
      (hthread : s.threads_[i]? = some t) (hgo : t.takerStep = .ok t') :
      Step s .start (s.setThread i t')
  | threadFunc {k : Nat} {t t' : Handshake LoopId} (hthread : s.threads_[k]? = some t)
      (hgo : t.giverStep (loopOfThread k) = .ok t') : Step s (.threadFunc k) (s.setThread k t')
  | woken {i : Nat} {t t' : Handshake LoopId} (hphase : s.phase = .starting i)
      (hthread : s.threads_[i]? = some t) (hgo : t.wakeUp = .ok t') :
      Step s .wakeUp (s.setThread i t')

theorem act_eq_ok (h : s.act a = .ok s') : Step s a s' := by
  cases a with
  | start =>
    cases hphase : s.phase with
    | looping i =>
      simp only [act, hphase, pure_eq_ok_iff] at h
      split at h
      · rename_i hmore
        exact h ▸ .spawned hphase hmore
      · rename_i hall
        exact h ▸ .returned hphase (Nat.le_of_not_lt hall)
    | starting i =>
      simp only [act, hphase, bind_eq_ok_iff, thread_eq_ok_iff, startLoop] at h
      obtain ⟨t, hthread, h⟩ := h
      split at h
      · rename_i hdone
        split at h
        · cases h
        · rename_i loop hvalue
          obtain rfl := pure_eq_ok_iff.mp h
          exact .started hphase hthread hdone hvalue
      · simp only [bind_eq_ok_iff, pure_eq_ok_iff] at h
        obtain ⟨t', hgo, rfl⟩ := h
        exact .looked hphase hthread hgo
    | returned =>
      simp only [act, hphase] at h
      cases h
  | threadFunc k =>
    simp only [act, bind_eq_ok_iff, thread_eq_ok_iff, pure_eq_ok_iff] at h
    obtain ⟨t, hthread, t', hgo, rfl⟩ := h
    exact .threadFunc hthread hgo
  | wakeUp =>
    cases hphase : s.phase with
    | starting i =>
      simp only [act, hphase, bind_eq_ok_iff, thread_eq_ok_iff, pure_eq_ok_iff] at h
      obtain ⟨t, hthread, t', hgo, rfl⟩ := h
      exact .woken hphase hthread hgo
    | looping i | returned =>
      simp only [act, hphase] at h
      cases h

/-- A thread may be replaced by what it has become. -/
theorem Starts.setThread (h : Starts n s) (hsound : t'.Sound)
    (hmade : ∀ loop, t'.made = some loop → loop = loopOfThread k)
    (hdone : k < s.loops_.length → t'.taker = .done) : Starts n (s.setThread k t') where
  number := h.number
  sound := by
    intro l u hu
    rw [PoolStart.setThread, List.getElem?_set] at hu
    split at hu
    · split at hu
      · exact Option.some.inj hu ▸ hsound
      · cases hu
    · exact h.sound l u hu
  made := by
    intro l u hu
    rw [PoolStart.setThread, List.getElem?_set] at hu
    split at hu
    · rename_i heq
      split at hu
      · exact Option.some.inj hu ▸ heq ▸ hmade
      · cases hu
    · exact h.made l u hu
  done := by
    intro l u hu hl
    rw [PoolStart.setThread, List.getElem?_set] at hu
    split at hu
    · rename_i heq
      split at hu
      · exact Option.some.inj hu ▸ hdone (heq ▸ hl)
      · cases hu
    · exact h.done l u hu hl
  loops := h.loops
  phase := by
    have hphase := h.phase
    simp only [PoolStart.setThread, List.length_set]
    exact hphase

theorem rank_setThread (hthread : s.threads_[k]? = some t) (t' : Handshake LoopId) :
    (s.setThread k t').rank + t.rank = s.rank + t'.rank := by
  have hsum := sum_rank_set hthread t'
  simp only [rank, PoolStart.setThread]
  omega

theorem Starts.step (h : Starts n s) (hstep : Step s a s') :
    Starts n s' ∧ if a = .wakeUp then s'.rank = s.rank + 2 else s'.rank + 1 ≤ s.rank := by
  have hphase := h.phase
  have hnumber := h.number
  cases hstep with
  | @spawned i hloop hmore =>
    rw [hloop] at hphase
    obtain ⟨hloops, hthreads, _⟩ := hphase
    have hcases : ∀ {k : Nat} {t}, (s.threads_ ++ [Handshake.new])[k]? = some t →
        s.threads_[k]? = some t ∨ k = s.threads_.length ∧ t = Handshake.new := by
      intro k t ht
      rw [List.getElem?_append] at ht
      split at ht
      · exact .inl ht
      · rw [List.getElem?_singleton] at ht
        split at ht
        · exact .inr ⟨by omega, (Option.some.inj ht).symm⟩
        · cases ht
    refine ⟨⟨hnumber, ?_, ?_, ?_, h.loops, ?_⟩, ?_⟩
    · intro k t ht
      obtain ht | ⟨_, rfl⟩ := hcases ht
      · exact h.sound k t ht
      · exact Handshake.sound_new
    · intro k t ht
      obtain ht | ⟨_, rfl⟩ := hcases ht
      · exact h.made k t ht
      · nofun
    · intro k t ht hk
      have hk : k < s.loops_.length := hk
      obtain ht | ⟨hlast, _⟩ := hcases ht
      · exact h.done k t ht hk
      · omega
    · simp only [spawn, List.length_append, List.length_singleton]
      omega
    · have hnew : (Handshake.new : Handshake LoopId).rank = 19 := rfl
      simp only [reduceCtorEq, if_false, rank, spawn, hloop, StartPhase.rank, List.map_append,
        List.map_singleton, List.sum_append, List.sum_singleton, hnew]
      omega
  | @returned i hloop hall =>
    rw [hloop] at hphase
    obtain ⟨hloops, hthreads, hle⟩ := hphase
    refine ⟨⟨hnumber, h.sound, h.made, h.done, h.loops, ?_⟩, ?_⟩
    · show n = s.loops_.length ∧ n = s.threads_.length
      omega
    · simp only [reduceCtorEq, if_false, rank, hloop, StartPhase.rank]
      omega
  | @started i t loop hstarting hthread hdone hvalue =>
    rw [hstarting] at hphase
    obtain ⟨hloops, hthreads, hless⟩ := hphase
    have hloop : loop = loopOfThread i :=
      h.made i t hthread loop ((h.sound i t hthread).made_of_value hvalue)
    refine ⟨⟨hnumber, h.sound, h.made, ?_, ?_, ?_⟩, ?_⟩
    · intro k u hu hk
      have hk : k < (s.loops_ ++ [loop]).length := hk
      rw [List.length_append, List.length_singleton] at hk
      by_cases hlast : k = i
      · rw [hlast, hthread] at hu
        exact Option.some.inj hu ▸ hdone
      · exact h.done k u hu (by omega)
    · show s.loops_ ++ [loop] = (List.range (s.loops_ ++ [loop]).length).map loopOfThread
      rw [List.length_append, List.length_singleton, List.range_succ, List.map_append, ← h.loops,
        hloop, hloops]
      rfl
    · simp only [List.length_append, List.length_singleton]
      omega
    · simp only [reduceCtorEq, if_false, rank, hstarting, StartPhase.rank]
      omega
  | @looked i t t' hstarting hthread hgo =>
    rw [hstarting] at hphase
    obtain ⟨hsound, hrank, hmade⟩ := (h.sound i t hthread).takerStep hgo
    refine ⟨h.setThread hsound (hmade ▸ h.made i t hthread) (by omega), ?_⟩
    have hset := rank_setThread hthread t'
    simp only [reduceCtorEq, if_false]
    omega
  | @threadFunc k t t' hthread hgo =>
    have hgives := (h.sound k t hthread).giverStep hgo
    refine ⟨h.setThread hgives.sound ?_ fun hk => hgives.done (h.done k t hthread hk), ?_⟩
    · exact fun loop hloop => (hgives.made loop hloop).elim (h.made k t hthread loop) id
    · have hset := rank_setThread hthread t'
      have hrank := hgives.rank
      simp only [reduceCtorEq, if_false]
      omega
  | @woken i t t' hstarting hthread hgo =>
    rw [hstarting] at hphase
    obtain ⟨hsound, hrank, hmade, _⟩ := (h.sound i t hthread).wakeUp hgo
    refine ⟨h.setThread hsound (hmade ▸ h.made i t hthread) (by omega), ?_⟩
    have hset := rank_setThread hthread t'
    rw [if_pos rfl]
    omega

/-- The steps that a run has taken and those that are left: a wake-up that nobody asked for
    costs two more. -/
theorem reach_starts (h : machine.Reach anyStep tr s) :
    ∃ n, Starts n s ∧ tr.length + s.rank ≤ 21 * n + 1 + 3 * tr.count .wakeUp := by
  refine h.invariant (I := fun tr s =>
    ∃ n, Starts n s ∧ tr.length + s.rank ≤ 21 * n + 1 + 3 * tr.count .wakeUp) ?_ ?_
  · rintro s ⟨hthreads, hloops, hphase⟩
    refine ⟨s.numThreads_, ⟨rfl, ?_, ?_, ?_, ?_, ?_⟩, ?_⟩
    · simp [hthreads]
    · simp [hthreads]
    · simp [hthreads]
    · simp [hloops]
    · simp [hphase, hloops, hthreads]
    · simp [rank, hphase, hthreads, StartPhase.rank]
  · rintro tr s a s' es _ ⟨n, hstarts, hcount⟩ _ hstep
    simp only [machine, bind_eq_ok_iff, pure_eq_ok_iff, Prod.mk.injEq] at hstep
    obtain ⟨_, hact, rfl, rfl⟩ := hstep
    obtain ⟨hstarts', hrank⟩ := hstarts.step (act_eq_ok hact)
    refine ⟨n, hstarts', ?_⟩
    rw [List.length_append, List.length_singleton, List.count_append]
    split at hrank
    · rename_i hwake
      rw [hwake, List.count_singleton_self]
      omega
    · omega

theorem Starts.thread (h : Starts n s) (hk : k < s.threads_.length) :
    ∃ t, s.threads_[k]? = some t ∧ s.thread k = .ok t ∧ t.Sound := by
  have ht : s.threads_[k]? = some s.threads_[k] := List.getElem?_eq_getElem hk
  exact ⟨_, ht, thread_eq_ok_iff.mpr ht, h.sound k _ ht⟩

/-- Behind `startLoop`, its thread has made the loop that was taken. -/
theorem Starts.value (h : Starts n s) (hthread : s.threads_[k]? = some t)
    (hdone : t.taker = .done) : t.value = some (loopOfThread k) := by
  have hsound := h.sound k t hthread
  obtain ⟨loop, hvalue⟩ := Option.isSome_iff_exists.mp
    (hsound.isSome_iff.mpr (hsound.seen (.inr hdone)))
  rw [hvalue, h.made k t hthread loop (hsound.made_of_value hvalue)]

/-- No null pointer gets into `loops_`. -/
theorem Starts.act_ne_assertion (h : Starts n s) (a : StartAction) :
    s.act a ≠ .error .assertion := by
  have hthread : ∀ k, s.thread k ≠ .error .assertion := by
    intro k hgo
    rw [PoolStart.thread] at hgo
    split at hgo <;> cases hgo
  intro hact
  cases a with
  | start =>
    cases hcase : s.phase with
    | looping i =>
      simp only [act, hcase] at hact
      cases hact
    | starting i =>
      simp only [act, hcase, bind_eq_error_iff, hthread, false_or, thread_eq_ok_iff,
        startLoop] at hact
      obtain ⟨t, hmine, hact⟩ := hact
      split at hact
      · rename_i hdone
        rw [h.value hmine hdone] at hact
        cases hact
      · simp only [bind_eq_error_iff, Handshake.takerStep_ne_assertion, pure_ne_error, false_or,
          and_false, exists_false] at hact
    | returned =>
      simp only [act, hcase] at hact
      cases hact
  | threadFunc k =>
    simp only [act, bind_eq_error_iff, hthread, Handshake.giverStep_ne_assertion, pure_ne_error,
      false_or, and_false, exists_false] at hact
  | wakeUp =>
    cases hcase : s.phase with
    | starting i =>
      simp only [act, hcase, bind_eq_error_iff, hthread, Handshake.wakeUp, enabled_ne_assertion,
        pure_ne_error, false_or, and_false, exists_false] at hact
    | looping i | returned =>
      simp only [act, hcase] at hact
      cases hact

theorem Starts.progress (h : Starts n s) (hmore : s.phase ≠ .returned) :
    ∃ a s', a ≠ .wakeUp ∧ s.act a = .ok s' := by
  have hphase := h.phase
  cases hcase : s.phase with
  | looping i => exact ⟨.start, _, nofun, by simp only [act, hcase]; rfl⟩
  | starting i =>
    rw [hcase] at hphase
    obtain ⟨t, hthread, hgo, hsound⟩ := h.thread (k := i) (by omega)
    by_cases hdone : t.taker = .done
    · refine ⟨.start, { s with loops_ := s.loops_ ++ [loopOfThread i], phase := .looping (i + 1) },
        nofun, ?_⟩
      simp only [act, hcase, hgo, ok_bind, startLoop, if_pos hdone, h.value hthread hdone]
      rfl
    · rcases hsound.progress hdone with ⟨t', ht'⟩ | hgiver
      · refine ⟨.start, s.setThread i t', nofun, ?_⟩
        simp only [act, hcase, hgo, ok_bind, startLoop, if_neg hdone, ht']
        rfl
      · obtain ⟨t', ht'⟩ := hgiver (loopOfThread i)
        refine ⟨.threadFunc i, s.setThread i t', nofun, ?_⟩
        simp only [act, hgo, ok_bind, ht']
        rfl
  | returned => exact absurd hcase hmore

/-- Once its loop is in `loops_`, a thread gets to `loop.loop()` without waiting. -/
theorem Starts.thread_goes_on (h : Starts n s) (hthread : s.threads_[k]? = some t)
    (hk : k < s.loops_.length) (hmore : t.giver ≠ .done) :
    ∃ s', s.act (.threadFunc k) = .ok s' := by
  have hsound := h.sound k t hthread
  obtain ⟨t', ht'⟩ := hsound.giver_goes_on (h.done k t hthread hk) hmore (loopOfThread k)
  refine ⟨s.setThread k t', ?_⟩
  simp only [act, thread_eq_ok_iff.mpr hthread, ok_bind, ht']
  rfl

/-- However the threads take turns and however often a wait returns for nothing, a pool comes
    up: the steps of a run are bounded by the threads and these wake-ups, somebody can go on as
    long as `start` has not returned, no null pointer gets into `loops_`, and in the end each
    thread has made its loop, which are the loops of a started pool. -/
theorem start_completes (h : machine.Reach anyStep tr s) :
    tr.length ≤ 21 * s.numThreads_ + 1 + 3 * tr.count .wakeUp ∧
    (∀ a, s.act a ≠ .error .assertion) ∧
    (s.phase ≠ .returned → ∃ a s', a ≠ .wakeUp ∧ s.act a = .ok s') ∧
    (∀ (k : Nat) t, s.threads_[k]? = some t → k < s.loops_.length → t.giver ≠ .done →
      ∃ s', s.act (.threadFunc k) = .ok s') ∧
    s.loops_ <+: (EventLoopThreadPool.start s.numThreads_).loops_ ∧
    (s.phase = .returned → s.loops_ = (EventLoopThreadPool.start s.numThreads_).loops_ ∧
      s.threads_.length = s.numThreads_ ∧
      ∀ (k : Nat) t, s.threads_[k]? = some t → t.made = s.loops_[k]?) := by
  obtain ⟨n, hstarts, hcount⟩ := reach_starts h
  have hnumber := hstarts.number
  have hphase := hstarts.phase
  subst hnumber
  have hle : s.loops_.length ≤ s.numThreads_ := by
    split at hphase <;> omega
  refine ⟨by omega, hstarts.act_ne_assertion, hstarts.progress,
    fun k t => hstarts.thread_goes_on, ?_, fun hreturned => ?_⟩
  · obtain ⟨more, hmore⟩ := Nat.exists_eq_add_of_le hle
    have hsplit : (EventLoopThreadPool.start s.numThreads_).loops_ =
        (List.range (s.loops_.length + more)).map loopOfThread := by
      rw [← hmore]
      rfl
    rw [hsplit, List.range_add, List.map_append, ← hstarts.loops]
    exact List.prefix_append _ _
  · rw [hreturned] at hphase
    obtain ⟨hloops, hthreads⟩ := hphase
    have hall := hstarts.loops
    refine ⟨?_, hthreads.symm, fun k t hthread => ?_⟩
    · rw [hall, ← hloops]
      rfl
    · have hk : k < s.loops_.length := by
        rw [← hloops, hthreads]
        exact (List.getElem?_eq_some_iff.mp hthread).1
      have hmade := (hstarts.sound k t hthread).made_of_value
        (hstarts.value hthread (hstarts.done k t hthread hk))
      rw [hmade, hall, List.getElem?_map, List.getElem?_range hk]
      rfl

/-- Two threads: `startLoop` waits for the first one, and wakes up for nothing once; the second
    one has notified before anybody waits. -/
theorem start_completes_two : ∃ tr s, machine.Reach anyStep tr s ∧ s.phase = .returned ∧
    tr.count .wakeUp = 1 ∧ s.loops_ = [1, 2] ∧
    tr.length ≤ 21 * s.numThreads_ + 1 + 3 * tr.count .wakeUp ∧
    (∀ a, s.act a ≠ .error .assertion) ∧
    (s.phase ≠ .returned → ∃ a s', a ≠ .wakeUp ∧ s.act a = .ok s') ∧
    (∀ (k : Nat) t, s.threads_[k]? = some t → k < s.loops_.length → t.giver ≠ .done →
      ∃ s', s.act (.threadFunc k) = .ok s') ∧
    s.loops_ <+: (EventLoopThreadPool.start s.numThreads_).loops_ ∧
    (s.phase = .returned → s.loops_ = (EventLoopThreadPool.start s.numThreads_).loops_ ∧
      s.threads_.length = s.numThreads_ ∧
      ∀ (k : Nat) t, s.threads_[k]? = some t → t.made = s.loops_[k]?) := by
  have hruns : machine.runs ⟨2, [], [], .looping 0⟩
      ([.start, .start, .start, .wakeUp, .start, .start] ++ List.replicate 5 (.threadFunc 0) ++
        List.replicate 5 .start ++ List.replicate 5 (.threadFunc 1) ++ List.replicate 5 .start)
      (fun tr s => s.phase = .returned ∧ tr.count .wakeUp = 1 ∧ s.loops_ = [1, 2]) = true := by
    decide
  obtain ⟨tr, s, hreach, htest⟩ :=
    Machine.exists_reach (M := machine) ⟨rfl, rfl, rfl⟩ hruns
  obtain ⟨hphase, hwakeUps, hloops⟩ := of_decide_eq_true htest
  exact ⟨tr, s, hreach, hphase, hwakeUps, hloops, start_completes hreach⟩

end PoolStart

end TcpNet
