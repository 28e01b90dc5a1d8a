import TcpNet.TcpServer.Runs
import Mathlib.Data.Int.CardIntervalMod

open Transition

namespace TcpNet

namespace System

/-- Nothing has been accepted. -/
structure Kept (s s' : System) : Prop where
  pool : s'.server.threadpoll_ = s.server.threadpoll_
  next : s'.server.nextConnId_ = s.server.nextConnId_
  loopOf : s'.loopOf = s.loopOf

variable {s s' s'' : System} {es : List Event} {here : ThreadId} {c : ConnId}

theorem Kept.refl (s : System) : Kept s s := ⟨rfl, rfl, rfl⟩

theorem Kept.trans (h : Kept s s') (h' : Kept s' s'') : Kept s s'' :=
  ⟨h'.pool.trans h.pool, h'.next.trans h.next, h'.loopOf.trans h.loopOf⟩

theorem kept_setConn {conn conn' : TcpConnection} (hconn : s.conn c = .ok conn)
    (hloop : conn'.loop_ = conn.loop_) : Kept s (s.setConn c conn') := by
  refine ⟨rfl, rfl, ?_⟩
  funext c'
  by_cases hc : c' = c
  · subst hc
    simp [loopOf, setConn, conn_eq_ok_iff.mp hconn, hloop]
  · simp [loopOf, setConn, hc]

theorem removeConnectionInLoop_kept
    (h : s.removeConnectionInLoop here c = .ok (s', es)) : Kept s s' := by
  simp only [removeConnectionInLoop, bind_eq_ok_iff, require_eq_ok_iff] at h
  obtain ⟨_, _, conn, _, h⟩ := h
  split at h
  · obtain ⟨rfl, rfl⟩ := Prod.mk.inj (pure_eq_ok_iff.mp h)
    exact .refl s
  · obtain ⟨rfl, rfl⟩ := Prod.mk.inj (pure_eq_ok_iff.mp h)
    exact ⟨rfl, rfl, rfl⟩

theorem performOne_kept {effect : Effect} (h : s.performOne here c effect = .ok (s', es)) :
    Kept s s' := by
  cases effect with
  | closeCallBack =>
    simp only [performOne, removeConnection] at h
    split at h
    · exact removeConnectionInLoop_kept h
    · obtain ⟨rfl, rfl⟩ := Prod.mk.inj (pure_eq_ok_iff.mp h)
      exact ⟨rfl, rfl, rfl⟩
  | _ =>
    obtain ⟨rfl, rfl⟩ := Prod.mk.inj (pure_eq_ok_iff.mp h)
    exact ⟨rfl, rfl, rfl⟩

theorem perform_kept {effects : List Effect} (h : s.perform here c effects = .ok (s', es)) :
    Kept s s' := by
  induction effects generalizing s es with
  | nil =>
    obtain ⟨rfl, rfl⟩ := Prod.mk.inj (pure_eq_ok_iff.mp h)
    exact .refl s
  | cons effect rest ih =>
    simp only [perform, bind_eq_ok_iff, pure_eq_ok_iff, Prod.exists, Prod.mk.injEq] at h
    obtain ⟨s₁, first, hfirst, s₂, others, hrest, rfl, rfl⟩ := h
    exact (performOne_kept hfirst).trans (ih hrest)

theorem callAfter_kept {first : List ConnEvent}
    {f : TcpConnection → Except Stop (TcpConnection × List Effect)}
    (hsame : ∀ conn conn' effects, f conn = .ok (conn', effects) → conn.Same conn')
    (h : s.callAfter here c first f = .ok (s', es)) : Kept s s' := by
  simp only [callAfter, call, bind_eq_ok_iff, pure_eq_ok_iff, Prod.exists, Prod.mk.injEq] at h
  obtain ⟨s₁, others, ⟨conn, hconn, conn', effects, hrun, hperform⟩, rfl, rfl⟩ := h
  exact (kept_setConn hconn (hsame _ _ _ hrun).loop).trans (perform_kept hperform)

theorem runFunctor_kept {cb : Functor} {io : WriteResult}
    (h : s.runFunctor here cb io = .ok (s', es)) : Kept s s' := by
  obtain ⟨c, task⟩ := cb
  by_cases htask : task = .removeConnectionInLoop
  · subst htask
    exact removeConnectionInLoop_kept h
  · rw [runFunctor_task htask] at h
    exact callAfter_kept (fun _ _ _ => run_same) h

/-- A step that accepts nothing leaves the pool and the connections where they are. -/
theorem step_kept {a : Action} (ha : ∀ sockfd, a ≠ .accept sockfd)
    (h : s.step a = .ok (s', es)) : Kept s s' := by
  cases a with
  | accept sockfd => exact absurd rfl (ha sockfd)
  | loop l | swapPending l | leavePending l =>
    simp only [step, bind_eq_ok_iff, pure_eq_ok_iff, Prod.mk.injEq] at h
    obtain ⟨loop, _, rfl, rfl⟩ := h
    exact ⟨rfl, rfl, rfl⟩
  | handleWakeup l =>
    simp only [step, bind_eq_ok_iff, pure_eq_ok_iff, Prod.mk.injEq] at h
    obtain ⟨_, _, rfl, rfl⟩ := h
    exact ⟨rfl, rfl, rfl⟩
  | pollReturns l active =>
    simp only [step, bind_eq_ok_iff, pure_eq_ok_iff, Prod.mk.injEq] at h
    obtain ⟨_, _, _, _, rfl, rfl⟩ := h
    exact ⟨rfl, rfl, rfl⟩
  | enterPending l =>
    simp only [step, bind_eq_ok_iff, pure_eq_ok_iff, Prod.mk.injEq] at h
    obtain ⟨_, _, _, _, rfl, rfl⟩ := h
    exact ⟨rfl, rfl, rfl⟩
  | handleEvent l io =>
    simp only [step] at h
    split at h
    · cases h
    · have hkept := callAfter_kept (fun _ _ _ hrun => (TcpConnection.callBack_same hrun).1) h
      exact ⟨hkept.pool, hkept.next, hkept.loopOf⟩
  | callFunctor l io =>
    simp only [step, bind_eq_ok_iff, Prod.exists] at h
    obtain ⟨cb, loop, _, h⟩ := h
    have hkept := runFunctor_kept h
    exact ⟨hkept.pool, hkept.next, hkept.loopOf⟩
  | send t c message io =>
    simp only [step, send, bind_eq_ok_iff, enabled_eq_ok_iff] at h
    obtain ⟨_, _, conn, hconn, h⟩ := h
    split at h
    · split at h
      · simp only [bind_eq_ok_iff, pure_eq_ok_iff, Prod.exists, Prod.mk.injEq] at h
        obtain ⟨s', es, hcall, rfl, rfl⟩ := h
        exact callAfter_kept (fun _ _ _ hrun => (TcpConnection.sendInloop_same hrun).1) hcall
      · obtain ⟨rfl, rfl⟩ := Prod.mk.inj (pure_eq_ok_iff.mp h)
        exact ⟨rfl, rfl, rfl⟩
    · obtain ⟨rfl, rfl⟩ := Prod.mk.inj (pure_eq_ok_iff.mp h)
      exact .refl s
  | queueSend t | wakeupSend t =>
    simp only [step] at h
    split at h
    · simp only [bind_eq_ok_iff, pure_eq_ok_iff, Prod.mk.injEq] at h
      obtain ⟨conn, _, rfl, rfl⟩ := h
      exact ⟨rfl, rfl, rfl⟩
    · cases h
  | returnSend t =>
    simp only [step] at h
    split at h
    · obtain ⟨rfl, rfl⟩ := Prod.mk.inj (pure_eq_ok_iff.mp h)
      exact ⟨rfl, rfl, rfl⟩
    · cases h
  | shutdown t c =>
    simp only [step, shutdown, bind_eq_ok_iff, enabled_eq_ok_iff] at h
    obtain ⟨_, _, conn, hconn, h⟩ := h
    split at h
    · split at h
      · refine callAfter_kept (fun conn conn' effects hrun => ?_) h
        obtain ⟨_, rfl, _⟩ := TcpConnection.shutdownInloop_eq_ok hrun
        exact ⟨rfl, rfl⟩
      · obtain ⟨rfl, rfl⟩ := Prod.mk.inj (pure_eq_ok_iff.mp h)
        exact ⟨rfl, rfl, rfl⟩
    · obtain ⟨rfl, rfl⟩ := Prod.mk.inj (pure_eq_ok_iff.mp h)
      exact .refl s
  | setDisconnecting t =>
    simp only [step] at h
    split at h
    · simp only [bind_eq_ok_iff, pure_eq_ok_iff, Prod.mk.injEq] at h
      obtain ⟨conn, hconn, rfl, rfl⟩ := h
      have hkept : Kept s (s.setConn _ { conn with state_ := .kDisconnecting }) :=
        kept_setConn hconn rfl
      exact ⟨hkept.pool, hkept.next, hkept.loopOf⟩
    · cases h
  | queueShutdown t | wakeupShutdown t =>
    simp only [step] at h
    split at h
    · simp only [bind_eq_ok_iff, pure_eq_ok_iff, Prod.mk.injEq] at h
      obtain ⟨conn, _, rfl, rfl⟩ := h
      exact ⟨rfl, rfl, rfl⟩
    · cases h
  | retrieve c len =>
    simp only [step, bind_eq_ok_iff, pure_eq_ok_iff, Prod.mk.injEq] at h
    obtain ⟨conn, hconn, _, _, _, _, rfl, rfl⟩ := h
    exact kept_setConn hconn rfl

/-- The loop of the connection with a number, with `numThreads` io loops. -/
def loopFor (numThreads : Nat) (c : ConnId) : LoopId :=
  if numThreads = 0 then baseLoop else (c - 1) % numThreads + 1

theorem next_mod {n : Nat} (k : Nat) (hn : 0 < n) :
    (if n ≤ k % n + 1 then 0 else k % n + 1) = (k + 1) % n := by
  have hlt := Nat.mod_lt k hn
  rw [← Nat.mod_add_mod]
  split
  · have hfull : k % n + 1 = n := by omega
    rw [hfull, Nat.mod_self]
  · exact (Nat.mod_eq_of_lt (by omega)).symm

/-- `getNextLoop` goes through the loops of the pool in turn. -/
theorem getNextLoop_spec {pool : EventLoopThreadPool} {numThreads k : Nat}
    (hloops : pool.loops_ = (List.range numThreads).map (· + 1))
    (hnext : numThreads ≠ 0 → pool.next_ = k % numThreads) :
    pool.getNextLoop.1 = loopFor numThreads (k + 1) ∧
      pool.getNextLoop.2.loops_ = pool.loops_ ∧
      (numThreads ≠ 0 → pool.getNextLoop.2.next_ = (k + 1) % numThreads) := by
  have hlength : pool.loops_.length = numThreads := by
    rw [hloops, List.length_map, List.length_range]
  by_cases hempty : pool.loops_ = []
  · have hnone : numThreads = 0 := by
      rw [← hlength, hempty]
      rfl
    simp [EventLoopThreadPool.getNextLoop, hempty, loopFor, hnone]
  · have hsome : numThreads ≠ 0 := by
      rw [← hlength]
      exact fun hzero => hempty (List.length_eq_zero_iff.mp hzero)
    simp only [EventLoopThreadPool.getNextLoop, dif_neg hempty, hnext hsome, hlength]
    refine ⟨?_, trivial, fun _ => next_mod k (Nat.pos_of_ne_zero hsome)⟩
    simp [hloops, loopFor, hsome]

/-- The pool and the connections that were accepted so far. -/
structure Spread (numThreads : Nat) (s : System) : Prop where
  loops : s.server.threadpoll_.loops_ = (List.range numThreads).map (· + 1)
  first : 1 ≤ s.server.nextConnId_
  next : numThreads ≠ 0 → s.server.threadpoll_.next_ = (s.server.nextConnId_ - 1) % numThreads
  loopOf : ∀ c, s.loopOf c =
    if 1 ≤ c ∧ c < s.server.nextConnId_ then some (loopFor numThreads c) else none

variable {numThreads : Nat}

theorem Spread.kept (h : Spread numThreads s) (hkept : Kept s s') : Spread numThreads s' where
  loops := by rw [hkept.pool, h.loops]
  first := by rw [hkept.next]; exact h.first
  next := by rw [hkept.pool, hkept.next]; exact h.next
  loopOf := by rw [hkept.loopOf, hkept.next]; exact h.loopOf

theorem Spread.enrolled (h : Spread numThreads s) (sockfd : Int) :
    Spread numThreads (s.enrolled s.server.threadpoll_.getNextLoop.1
      s.server.threadpoll_.getNextLoop.2 sockfd) := by
  obtain ⟨hloop, hloops, hnext⟩ := getNextLoop_spec h.loops h.next
  have hfirst := h.first
  refine ⟨hloops.trans h.loops, Nat.le_add_left .., fun hsome => ?_, fun c => ?_⟩
  · refine (hnext hsome).trans ?_
    rw [Nat.sub_add_cancel hfirst]
    rfl
  · by_cases hc : c = s.server.nextConnId_
    · subst hc
      rw [Nat.sub_add_cancel hfirst] at hloop
      simp [System.loopOf, System.enrolled, TcpConnection.new, hloop, hfirst]
    · have hold := h.loopOf c
      have hsame : (s.enrolled s.server.threadpoll_.getNextLoop.1
          s.server.threadpoll_.getNextLoop.2 sockfd).loopOf c = s.loopOf c := by
        simp [System.loopOf, System.enrolled, hc]
      have hrange : ∀ c next : Nat, c ≠ next → (1 ≤ c ∧ c < next ↔ 1 ≤ c ∧ c < next + 1) := by
        omega
      rw [hsame, hold]
      exact if_congr (hrange c s.server.nextConnId_ hc) rfl rfl

theorem accept_kept {sockfd : Int} (h : s.step (.accept sockfd) = .ok (s', es)) :
    Kept (s.enrolled s.server.threadpoll_.getNextLoop.1 s.server.threadpoll_.getNextLoop.2 sockfd)
      s' := by
  simp only [step, newConnection, bind_eq_ok_iff, enabled_eq_ok_iff, require_eq_ok_iff] at h
  obtain ⟨_, _, _, _, _, _, h⟩ := h
  split at h
  · refine callAfter_kept (fun conn conn' effects hrun => ?_) h
    obtain ⟨_, _, rfl, _⟩ := TcpConnection.connectEestablished_eq_ok hrun
    exact ⟨rfl, rfl⟩
  · obtain ⟨rfl, rfl⟩ := Prod.mk.inj (pure_eq_ok_iff.mp h)
    exact ⟨rfl, rfl, rfl⟩

theorem Spread.step (h : Spread numThreads s) {a : Action} (hstep : s.step a = .ok (s', es)) :
    Spread numThreads s' := by
  by_cases haccept : ∃ sockfd, a = .accept sockfd
  · obtain ⟨sockfd, rfl⟩ := haccept
    exact (h.enrolled sockfd).kept (accept_kept hstep)
  · exact h.kept (step_kept (fun sockfd ha => haccept ⟨sockfd, ha⟩) hstep)

theorem spread_started (h : Started s) : Spread s.server.threadpoll_.loops_.length s := by
  obtain ⟨name, numThreads, hserver⟩ := h.server
  have hlength : s.server.threadpoll_.loops_.length = numThreads := by
    rw [hserver, EventLoopThreadPool.start, List.length_map, List.length_range]
  rw [hlength]
  constructor
  · rw [hserver]
    rfl
  · rw [hserver]
  · intro _
    rw [hserver]
    exact (Nat.zero_mod numThreads).symm
  · intro c
    have hnone : s.loopOf c = none := by simp [System.loopOf, h.conns]
    rw [hnone, hserver, if_neg]
    rintro ⟨hfirst, hlast⟩
    exact absurd hlast (Nat.not_lt.mpr hfirst)

theorem reach_spread {s₀ : System} (hstarted : Started s₀) {tr : List Event}
    (h : (machine.after s₀).Reach anyStep tr s) :
    Spread s₀.server.threadpoll_.loops_.length s := by
  refine h.invariant (I := fun _ s => Spread s₀.server.threadpoll_.loops_.length s) ?_ ?_
  · rintro s rfl
    exact spread_started hstarted
  · intro tr s a s' es _ hspread _ hstep
    exact hspread.step hstep

/-- The number of the connections that were given to a loop. -/
def load (s : System) (l : LoopId) : Nat :=
  (List.range s.server.nextConnId_).countP (s.loopOf · = some l)

theorem Spread.loopOf_zero (h : Spread numThreads s) : s.loopOf 0 = none :=
  (h.loopOf 0).trans (if_neg fun hboth => Nat.not_succ_le_zero 0 hboth.1)

theorem Spread.loopOf_succ (h : Spread numThreads s) {i k : Nat}
    (hnext : s.server.nextConnId_ = k + 1) (hi : i ∈ List.range k) :
    s.loopOf (i + 1) = some (loopFor numThreads (i + 1)) := by
  refine (h.loopOf (i + 1)).trans (if_pos ⟨Nat.le_add_left 1 i, ?_⟩)
  rw [hnext]
  exact Nat.succ_lt_succ (List.mem_range.mp hi)

/-- A loop of the pool has every `numThreads`th connection. -/
theorem Spread.load_eq (h : Spread numThreads s) (hsome : numThreads ≠ 0) {r : Nat}
    (hr : r < numThreads) :
    s.load (r + 1) = (s.server.nextConnId_ - 1) / numThreads +
      if r < (s.server.nextConnId_ - 1) % numThreads then 1 else 0 := by
  obtain ⟨k, hk⟩ := Nat.exists_eq_add_of_le' h.first
  have hown : ∀ i ∈ List.range k, (s.loopOf (i + 1) = some (r + 1) ↔ i ≡ r [MOD numThreads]) := by
    intro i hi
    rw [h.loopOf_succ hk hi, loopFor, if_neg hsome, Nat.add_sub_cancel, Option.some.injEq,
      Nat.add_right_cancel_iff, Nat.ModEq, Nat.mod_eq_of_lt hr]
  have hcount := Nat.count_modEq_card k (Nat.pos_of_ne_zero hsome) r
  rw [Nat.mod_eq_of_lt hr] at hcount
  rw [load, hk, Nat.add_sub_cancel, ← hcount, List.range_succ_eq_map, List.countP_cons_of_neg,
    List.countP_map, Nat.count]
  · refine List.countP_congr fun i hi => ?_
    simpa using hown i hi
  · simp [h.loopOf_zero]

theorem Spread.load_base (h : Spread numThreads s) (hsome : numThreads ≠ 0) :
    s.load baseLoop = 0 := by
  rw [load, List.countP_eq_zero]
  intro c _
  rw [h.loopOf, loopFor, if_neg hsome, baseLoop]
  split <;> simp

/-- Whatever the threads of a server do that was started with `n` io loops, the connections are
    spread over these in turn: the one with the number `c` belongs to loop `(c - 1) % n + 1` for
    good, so that two io loops have been given the same number of them, or one more, and the loop
    of the acceptor none. Where there are no io loops, the loop of the acceptor has them all. -/
theorem round_robin {s₀ : System} (hstarted : Started s₀) {n : Nat}
    (hn : s₀.server.threadpoll_.loops_.length = n) {tr : List Event}
    (h : (machine.after s₀).Reach anyStep tr s) :
    s.server.threadpoll_.loops_ = (List.range n).map (· + 1) ∧
      (∀ c, s.loopOf c = if 1 ≤ c ∧ c < s.server.nextConnId_ then some (loopFor n c) else none) ∧
      (∀ l ∈ s.server.threadpoll_.loops_, ∀ l' ∈ s.server.threadpoll_.loops_,
        s.load l ≤ s.load l' + 1) ∧
      (n ≠ 0 → s.load baseLoop = 0) ∧
      (n = 0 → s.load baseLoop = s.server.nextConnId_ - 1) := by
  have hspread := reach_spread hstarted h
  rw [hn] at hspread
  refine ⟨hspread.loops, hspread.loopOf, ?_, hspread.load_base, fun hnone => ?_⟩
  · rw [hspread.loops]
    intro l hl l' hl'
    obtain ⟨r, hr, rfl⟩ := List.mem_map.mp hl
    obtain ⟨r', hr', rfl⟩ := List.mem_map.mp hl'
    rw [List.mem_range] at hr hr'
    have hsome : n ≠ 0 := by omega
    rw [hspread.load_eq hsome hr, hspread.load_eq hsome hr']
    split <;> split <;> omega
  · obtain ⟨k, hk⟩ := Nat.exists_eq_add_of_le' hspread.first
    have hall : (List.range k).countP (fun i => decide (s.loopOf (i + 1) = some baseLoop)) =
        (List.range k).length := by
      rw [List.countP_eq_length]
      intro i hi
      rw [hspread.loopOf_succ hk hi, loopFor, if_pos hnone]
      exact decide_eq_true rfl
    rw [List.length_range] at hall
    rw [load, hk, Nat.add_sub_cancel, List.range_succ_eq_map, List.countP_cons_of_neg,
      List.countP_map]
    · exact hall
    · simp [hspread.loopOf_zero]

/-- Three connections for two loops. -/
theorem round_robin_three : ∃ tr s, (machine.after (start ['s'] 2)).Reach anyStep tr s ∧
    s.load 1 = 2 ∧ s.load 2 = 1 ∧ s.server.threadpoll_.loops_ = [1, 2] ∧
    s.loopOf 3 = some (loopFor 2 3) := by
  have hruns : (machine.after (start ['s'] 2)).runs (start ['s'] 2)
      [.loop 0, .pollReturns 0 [], .accept 5, .accept 6, .accept 7]
      (fun _ s => s.load 1 = 2 ∧ s.load 2 = 1 ∧ s.server.nextConnId_ = 4) = true := by
    decide +kernel
  obtain ⟨tr, s, hreach, htest⟩ := Machine.exists_reach (M := machine.after _) rfl hruns
  obtain ⟨hfirst, hsecond, hnext⟩ := of_decide_eq_true htest
  obtain ⟨hloops, hloopOf, _⟩ := round_robin (started_start ['s'] 2) rfl hreach
  refine ⟨tr, s, hreach, hfirst, hsecond, hloops, (hloopOf 3).trans (if_pos ?_)⟩
  rw [hnext]
  exact ⟨by decide, by decide⟩

end System

end TcpNet
