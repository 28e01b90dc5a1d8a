import TcpNet.TimerQueue.Spec

open Transition

namespace TcpNet

/-- The entries that `handleRead` holds on to. -/
def Phase.held : Phase → List Entry
  | .idle => []
  | .expiring _ _ expired => expired
  | .running _ _ expired => expired
  | .resetting _ todo => todo
  | .restarting _ entry todo => entry :: todo

/-- The expired entries that are still in `activeTiemrs_`. -/
def Phase.unerased : Phase → List Entry
  | .expiring _ todo _ => todo
  | _ => []

namespace TimerSystem

/-- The timers that queued functors will insert. -/
def adds (functors : List TimerFunctor) : List Addr :=
  functors.filterMap fun
    | .addTimerInloop timer => some timer
    | .cancelInLoop _ => none

/-- The pointers of a list of entries. -/
def pointers (entries : List Entry) : List Addr := entries.map (·.second)

@[simp] theorem pointers_append (entries entries' : List Entry) :
    pointers (entries ++ entries') = pointers entries ++ pointers entries' :=
  List.map_append

@[simp] theorem pointers_cons (entry : Entry) (entries : List Entry) :
    pointers (entry :: entries) = entry.second :: pointers entries := rfl

theorem mem_pointers {entry : Entry} {entries : List Entry} (h : entry ∈ entries) :
    entry.second ∈ pointers entries :=
  List.mem_map_of_mem h

/-- Every pointer through which the loop may delete or use a timer. -/
def owned (s : TimerSystem) : List Addr :=
  adds s.functors ++ pointers s.queue.timers_.elems ++ pointers s.phase.held

/-- Every timer has at most one owner: a functor, `timers_`, `handleRead`, or the
    call of `addTimer` that made it. -/
structure Ownership (owned : List Addr) (calls : ThreadId → Option AddTimer)
    (timers : Addr → Option Timer) : Prop where
  nodup : owned.Nodup
  live : ∀ a ∈ owned, ∃ timer, timers a = some timer
  made : ∀ t a k, calls t = some (.created a k) →
    ∃ timer, timers a = some timer ∧ timer.sequence_ = k
  apart : ∀ t a k, calls t = some (.created a k) → a ∉ owned
  alone : ∀ t t' a k k', calls t = some (.created a k) → calls t' = some (.created a k') → t = t'

namespace Ownership

variable {owned owned' : List Addr} {calls : ThreadId → Option AddTimer}
  {timers : Addr → Option Timer} {t : ThreadId} {a : Addr} {timer : Timer}

theorem perm (h : Ownership owned calls timers) (hperm : List.Perm owned' owned) :
    Ownership owned' calls timers where
  nodup := hperm.nodup_iff.mpr h.nodup
  live := fun a ha => h.live a (hperm.mem_iff.mp ha)
  made := h.made
  apart := fun t a k hcall ha => h.apart t a k hcall (hperm.mem_iff.mp ha)
  alone := h.alone

/-- `new` gives a thread a timer of its own. -/
theorem create (h : Ownership owned calls timers) (hfree : timers a = none) :
    Ownership owned (Function.update calls t (some (.created a timer.sequence_)))
      (Function.update timers a (some timer)) where
  nodup := h.nodup
  live := by
    intro b hb
    obtain ⟨timer', hlive⟩ := h.live b hb
    have hother : b ≠ a := by
      rintro rfl
      rw [hfree] at hlive
      cases hlive
    exact ⟨timer', by rw [Function.update_of_ne hother, hlive]⟩
  made := by
    intro t' b k hcall
    by_cases ht : t' = t
    · subst ht
      rw [Function.update_self, Option.some.injEq, AddTimer.created.injEq] at hcall
      obtain ⟨rfl, rfl⟩ := hcall
      exact ⟨timer, Function.update_self .., rfl⟩
    · rw [Function.update_of_ne ht] at hcall
      obtain ⟨timer', hlive, hk⟩ := h.made t' b k hcall
      have hother : b ≠ a := by
        rintro rfl
        rw [hfree] at hlive
        cases hlive
      exact ⟨timer', by rw [Function.update_of_ne hother, hlive], hk⟩
  apart := by
    intro t' b k hcall hb
    by_cases ht : t' = t
    · subst ht
      rw [Function.update_self, Option.some.injEq, AddTimer.created.injEq] at hcall
      obtain ⟨timer', hlive⟩ := h.live b hb
      rw [← hcall.1, hfree] at hlive
      cases hlive
    · rw [Function.update_of_ne ht] at hcall
      exact h.apart t' b k hcall hb
  alone := by
    have hfresh : ∀ t' b k, calls t' = some (.created b k) → b ≠ a := by
      rintro t' b k hcall rfl
      obtain ⟨timer', hlive, _⟩ := h.made t' b k hcall
      rw [hfree] at hlive
      cases hlive
    intro t₁ t₂ b k k' hcall hcall'
    by_cases ht₁ : t₁ = t
    · by_cases ht₂ : t₂ = t
      · rw [ht₁, ht₂]
      · subst ht₁
        rw [Function.update_of_ne ht₂] at hcall'
        rw [Function.update_self, Option.some.injEq, AddTimer.created.injEq] at hcall
        exact absurd hcall.1.symm (hfresh t₂ b k' hcall')
    · rw [Function.update_of_ne ht₁] at hcall
      by_cases ht₂ : t₂ = t
      · subst ht₂
        rw [Function.update_self, Option.some.injEq, AddTimer.created.injEq] at hcall'
        exact absurd hcall'.1.symm (hfresh t₁ b k hcall)
      · rw [Function.update_of_ne ht₂] at hcall'
        exact h.alone t₁ t₂ b k k' hcall hcall'

/-- A call of `addTimer` moves on to a stage in which it owns nothing. -/
theorem letGo (h : Ownership owned calls timers) (t : ThreadId) (call : Option AddTimer)
    (hcall : ∀ a k, call ≠ some (.created a k)) :
    Ownership owned (Function.update calls t call) timers := by
  have hother : ∀ t' a k, Function.update calls t call t' = some (.created a k) →
      calls t' = some (.created a k) := by
    intro t' a k hcall'
    by_cases ht : t' = t
    · subst ht
      rw [Function.update_self] at hcall'
      exact absurd hcall' (hcall a k)
    · rwa [Function.update_of_ne ht] at hcall'
  exact {
    nodup := h.nodup
    live := h.live
    made := fun t' a k hcall' => h.made t' a k (hother t' a k hcall')
    apart := fun t' a k hcall' => h.apart t' a k (hother t' a k hcall')
    alone := fun t₁ t₂ a k k' hcall₁ hcall₂ =>
      h.alone t₁ t₂ a k k' (hother t₁ a k hcall₁) (hother t₂ a k' hcall₂) }

/-- A call of `addTimer` hands its timer to the loop. -/
theorem handOver (h : Ownership owned calls timers) {k : Nat}
    (hcall : calls t = some (.created a k)) (hperm : List.Perm owned' (a :: owned)) :
    Ownership owned' (Function.update calls t (some (.added a k))) timers := by
  have hletGo := h.letGo t (some (.added a k)) (by simp)
  suffices Ownership (a :: owned) (Function.update calls t (some (.added a k))) timers from
    this.perm hperm
  exact {
    nodup := List.nodup_cons.mpr ⟨h.apart t a k hcall, h.nodup⟩
    live := by
      intro b hb
      rcases List.mem_cons.mp hb with rfl | hb
      · obtain ⟨timer, hlive, _⟩ := h.made t b k hcall
        exact ⟨timer, hlive⟩
      · exact h.live b hb
    made := hletGo.made
    apart := by
      intro t' b k' hcall' hb
      rcases List.mem_cons.mp hb with rfl | hb
      · have ht : t' ≠ t := by
          rintro rfl
          rw [Function.update_self] at hcall'
          cases hcall'
        rw [Function.update_of_ne ht] at hcall'
        exact ht (h.alone t' t b k' k hcall' hcall)
      · exact hletGo.apart t' b k' hcall' hb
    alone := hletGo.alone }

/-- The owner of a timer deletes it. -/
theorem delete (h : Ownership owned calls timers) (hperm : List.Perm owned (a :: owned')) :
    Ownership owned' calls (Function.update timers a none) := by
  have hnodup := List.nodup_cons.mp (hperm.nodup_iff.mp h.nodup)
  have hmem : ∀ b ∈ owned', b ∈ owned := fun b hb => hperm.mem_iff.mpr (List.mem_cons_of_mem a hb)
  exact {
    nodup := hnodup.2
    live := by
      intro b hb
      have hother : b ≠ a := by
        rintro rfl
        exact hnodup.1 hb
      obtain ⟨timer, hlive⟩ := h.live b (hmem b hb)
      exact ⟨timer, by rw [Function.update_of_ne hother, hlive]⟩
    made := by
      intro t b k hcall
      have hother : b ≠ a := by
        rintro rfl
        exact h.apart t b k hcall (hperm.mem_iff.mpr List.mem_cons_self)
      obtain ⟨timer, hlive, hk⟩ := h.made t b k hcall
      exact ⟨timer, by rw [Function.update_of_ne hother, hlive], hk⟩
    apart := fun t b k hcall hb => h.apart t b k hcall (hmem b hb)
    alone := h.alone }

/-- The owner of a timer sets its fields. -/
theorem set (h : Ownership owned calls timers) (timer : Timer) (ha : a ∈ owned) :
    Ownership owned calls (Function.update timers a (some timer)) where
  nodup := h.nodup
  live := by
    intro b hb
    by_cases hba : b = a
    · exact ⟨timer, by rw [hba, Function.update_self]⟩
    · obtain ⟨timer', hlive⟩ := h.live b hb
      exact ⟨timer', by rw [Function.update_of_ne hba, hlive]⟩
  made := by
    intro t b k hcall
    have hother : b ≠ a := by
      rintro rfl
      exact h.apart t b k hcall ha
    obtain ⟨timer', hlive, hk⟩ := h.made t b k hcall
    exact ⟨timer', by rw [Function.update_of_ne hother, hlive], hk⟩
  apart := h.apart
  alone := h.alone

end Ownership

/-- The timers in memory. Their numbers are below the counter, and all differ. -/
structure Objects (timers : Addr → Option Timer) (created : Nat) : Prop where
  addrs : ∀ a timer, timers a = some timer → a < UINTPTR_MAX
  counted : ∀ a timer, timers a = some timer → timer.sequence_ < created
  unique : ∀ a b timer timer', timers a = some timer → timers b = some timer' →
    timer.sequence_ = timer'.sequence_ → a = b

namespace Objects

variable {timers : Addr → Option Timer} {created : Nat} {a : Addr} {timer : Timer}

theorem count (h : Objects timers created) : Objects timers (created + 1) where
  addrs := h.addrs
  counted := fun a timer hlive => Nat.lt_succ_of_lt (h.counted a timer hlive)
  unique := h.unique

theorem create (h : Objects timers created) (ha : a < UINTPTR_MAX)
    (hk : timer.sequence_ = created) :
    Objects (Function.update timers a (some timer)) (created + 1) := by
  have hcases : ∀ b timer', Function.update timers a (some timer) b = some timer' →
      b = a ∧ timer' = timer ∨ timers b = some timer' := by
    intro b timer' hlive
    by_cases hb : b = a
    · rw [hb, Function.update_self, Option.some.injEq] at hlive
      exact .inl ⟨hb, hlive.symm⟩
    · rw [Function.update_of_ne hb] at hlive
      exact .inr hlive
  refine ⟨?_, ?_, ?_⟩
  · intro b timer' hlive
    rcases hcases b timer' hlive with ⟨rfl, _⟩ | hold
    · exact ha
    · exact h.addrs b timer' hold
  · intro b timer' hlive
    rcases hcases b timer' hlive with ⟨_, rfl⟩ | hold
    · omega
    · have hcounted := h.counted b timer' hold
      omega
  · intro b c timer₁ timer₂ hlive₁ hlive₂ hsame
    rcases hcases b timer₁ hlive₁ with ⟨hb, rfl⟩ | hold₁
    · rcases hcases c timer₂ hlive₂ with ⟨hc, _⟩ | hold₂
      · rw [hb, hc]
      · have hcounted := h.counted c timer₂ hold₂
        omega
    · rcases hcases c timer₂ hlive₂ with ⟨_, rfl⟩ | hold₂
      · have hcounted := h.counted b timer₁ hold₁
        omega
      · exact h.unique b c timer₁ timer₂ hold₁ hold₂ hsame

theorem delete (h : Objects timers created) : Objects (Function.update timers a none) created := by
  have hother : ∀ b timer', Function.update timers a none b = some timer' →
      timers b = some timer' := by
    intro b timer' hlive
    have hb : b ≠ a := by
      rintro rfl
      rw [Function.update_self] at hlive
      cases hlive
    rwa [Function.update_of_ne hb] at hlive
  exact ⟨fun b timer' hlive => h.addrs b timer' (hother b timer' hlive),
    fun b timer' hlive => h.counted b timer' (hother b timer' hlive),
    fun b c timer₁ timer₂ hlive₁ hlive₂ =>
      h.unique b c timer₁ timer₂ (hother b timer₁ hlive₁) (hother c timer₂ hlive₂)⟩

/-- Everything but the number of a timer may change. -/
theorem set (h : Objects timers created) {timer' : Timer} (hlive : timers a = some timer)
    (hsame : timer'.sequence_ = timer.sequence_) :
    Objects (Function.update timers a (some timer')) created := by
  have hcases : ∀ b timer₁, Function.update timers a (some timer') b = some timer₁ →
      ∃ timer₂, timers b = some timer₂ ∧ timer₂.sequence_ = timer₁.sequence_ := by
    intro b timer₁ hlive₁
    by_cases hb : b = a
    · rw [hb, Function.update_self, Option.some.injEq] at hlive₁
      exact ⟨timer, by rw [hb, hlive], by rw [← hlive₁, hsame]⟩
    · rw [Function.update_of_ne hb] at hlive₁
      exact ⟨timer₁, hlive₁, rfl⟩
  refine ⟨?_, ?_, ?_⟩
  · intro b timer₁ hlive₁
    obtain ⟨timer₂, hlive₂, _⟩ := hcases b timer₁ hlive₁
    exact h.addrs b timer₂ hlive₂
  · intro b timer₁ hlive₁
    obtain ⟨timer₂, hlive₂, hseq⟩ := hcases b timer₁ hlive₁
    rw [← hseq]
    exact h.counted b timer₂ hlive₂
  · intro b c timer₁ timer₂ hlive₁ hlive₂ hseq
    obtain ⟨timer₃, hlive₃, hseq₃⟩ := hcases b timer₁ hlive₁
    obtain ⟨timer₄, hlive₄, hseq₄⟩ := hcases c timer₂ hlive₂
    exact h.unique b c timer₃ timer₄ hlive₃ hlive₄ (by rw [hseq₃, hseq₄, hseq])

end Objects

end TimerSystem

end TcpNet
