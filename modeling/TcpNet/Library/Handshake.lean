import TcpNet.Library.Transition

open Transition

namespace Handshake

/-- Where a thread is that waits for a value: it takes the mutex, looks, and waits on the
    condition variable until the value is there. `wait` gives the mutex up and takes it again
    before it returns. -/
inductive Taker where
  | outside
  | checking
  | waiting
  | woken
  | leaving
  | done
  deriving DecidableEq, Repr

/-- Where the thread is that makes the value: it takes the mutex, sets the value and notifies. -/
inductive Giver where
  | making
  | entering
  | setting
  | notifying
  | leaving
  | done
  deriving DecidableEq, Repr

/-- The thread has the mutex. -/
def Taker.Holds (taker : Taker) : Prop := taker = .checking ∨ taker = .leaving

instance (taker : Taker) : Decidable taker.Holds := inferInstanceAs (Decidable (_ ∨ _))

def Giver.Holds (giver : Giver) : Prop :=
  giver = .setting ∨ giver = .notifying ∨ giver = .leaving

instance (giver : Giver) : Decidable giver.Holds := inferInstanceAs (Decidable (_ ∨ _ ∨ _))

/-- The steps that are left, without those that follow a look in vain. -/
def Taker.rank : Taker → Nat
  | .outside | .woken => 4
  | .checking => 3
  | .waiting => 2
  | .leaving => 1
  | .done => 0

def Giver.rank : Giver → Nat
  | .making => 5
  | .entering => 4
  | .setting => 3
  | .notifying => 2
  | .leaving => 1
  | .done => 0

end Handshake

/-- Two threads, a mutex, and the value that one of them hands to the other. `made` is what the
    giver has of its own. -/
structure Handshake (V : Type) where
  taker : Handshake.Taker
  giver : Handshake.Giver
  locked : Bool
  made : Option V
  value : Option V
  deriving DecidableEq, Repr

namespace Handshake

variable {V : Type}

def new : Handshake V where
  taker := .outside
  giver := .making
  locked := false
  made := none
  value := none

def takerStep (h : Handshake V) : Except Stop (Handshake V) :=
  match h.taker with
  | .outside | .woken => do
    enabled (h.locked = false)
    return { h with taker := .checking, locked := true }
  | .checking =>
    if h.value.isNone then return { h with taker := .waiting, locked := false }
    else return { h with taker := .leaving }
  | .waiting => throw .disabled
  | .leaving => return { h with taker := .done, locked := false }
  | .done => throw .disabled

/-- One step of the giver, where `v` is what it will make. -/
def giverStep (h : Handshake V) (v : V) : Except Stop (Handshake V) :=
  match h.giver with
  | .making => return { h with giver := .entering, made := some v }
  | .entering => do
    enabled (h.locked = false)
    return { h with giver := .setting, locked := true }
  | .setting => return { h with giver := .notifying, value := h.made }
  | .notifying =>
    -- a notification wakes who waits, and is lost otherwise
    return { h with
      giver := .leaving
      taker := if h.taker = .waiting then .woken else h.taker }
  | .leaving => return { h with giver := .done, locked := false }
  | .done => throw .disabled

/-- `wait` may return without a notification. -/
def wakeUp (h : Handshake V) : Except Stop (Handshake V) := do
  enabled (h.taker = .waiting)
  return { h with taker := .woken }

/-- What holds whatever the two threads do. -/
structure Sound (h : Handshake V) : Prop where
  exclusive : ¬ (h.taker.Holds ∧ h.giver.Holds)
  locked : h.locked = true ↔ h.taker.Holds ∨ h.giver.Holds
  made : h.made.isSome = true ↔ h.giver ≠ .making
  value : h.value = if h.giver.rank ≤ 2 then h.made else none
  /-- Who waits will be notified. -/
  heard : h.taker = .waiting → 2 ≤ h.giver.rank
  seen : h.taker = .leaving ∨ h.taker = .done → h.giver.rank ≤ 2

/-- The steps that are left at most: a notification costs the taker another look. -/
def rank (h : Handshake V) : Nat := 3 * h.giver.rank + h.taker.rank

variable {h h' : Handshake V} {v : V}

theorem sound_new : (new : Handshake V).Sound where
  exclusive := by simp [new, Taker.Holds]
  locked := by simp [new, Taker.Holds, Giver.Holds]
  made := by simp [new]
  value := rfl
  heard := by simp [new]
  seen := by simp [new]

/-- The value is there once the giver has set it. -/
theorem Sound.isSome_iff (hs : h.Sound) : h.value.isSome = true ↔ h.giver.rank ≤ 2 := by
  rw [hs.value]
  split
  · rename_i hrank
    refine iff_of_true (hs.made.mpr fun hmaking => ?_) hrank
    rw [hmaking] at hrank
    exact absurd hrank (by decide)
  · rename_i hrank
    exact iff_of_false (by simp) hrank

theorem Sound.made_of_value (hs : h.Sound) (hvalue : h.value = some v) : h.made = some v := by
  rw [hs.value] at hvalue
  split at hvalue
  · exact hvalue
  · cases hvalue

/-- The taker may go on while the giver is outside of the mutex. -/
theorem Sound.take (hs : h.Sound) (hgiver : ¬ h.giver.Holds) {taker : Taker} {locked : Bool}
    (hlocked : locked = true ↔ taker.Holds) (hheard : taker = .waiting → 2 ≤ h.giver.rank)
    (hseen : taker = .leaving ∨ taker = .done → h.giver.rank ≤ 2) :
    ({ h with taker := taker, locked := locked } : Handshake V).Sound where
  exclusive := fun hboth => hgiver hboth.2
  locked := hlocked.trans (or_iff_left hgiver).symm
  made := hs.made
  value := hs.value
  heard := hheard
  seen := hseen

/-- The taker holds the mutex alone. -/
theorem Sound.alone (hs : h.Sound) (htaker : h.taker.Holds) : ¬ h.giver.Holds :=
  fun hgiver => hs.exclusive ⟨htaker, hgiver⟩

theorem Sound.free (hs : h.Sound) (hfree : h.locked = false) :
    ¬ h.taker.Holds ∧ ¬ h.giver.Holds := by
  rw [← not_or, ← hs.locked, hfree]
  exact Bool.false_ne_true

theorem Sound.takerStep (hs : h.Sound) (hstep : h.takerStep = .ok h') :
    h'.Sound ∧ h'.rank + 1 ≤ h.rank ∧ h'.made = h.made := by
  have hcheck : h.locked = false → { h with taker := .checking, locked := true } = h' →
      4 ≤ h.taker.rank → h'.Sound ∧ h'.rank + 1 ≤ h.rank ∧ h'.made = h.made := by
    rintro hfree rfl hrank
    refine ⟨hs.take (hs.free hfree).2 (by decide) (by simp) (by simp), ?_, rfl⟩
    show 3 * h.giver.rank + 3 + 1 ≤ 3 * h.giver.rank + h.taker.rank
    omega
  cases htaker : h.taker with
  | outside =>
    simp only [Handshake.takerStep, htaker, bind_eq_ok_iff, enabled_eq_ok_iff,
      pure_eq_ok_iff] at hstep
    obtain ⟨_, hfree, hgo⟩ := hstep
    exact hcheck hfree hgo (by rw [htaker]; decide)
  | woken =>
    simp only [Handshake.takerStep, htaker, bind_eq_ok_iff, enabled_eq_ok_iff,
      pure_eq_ok_iff] at hstep
    obtain ⟨_, hfree, hgo⟩ := hstep
    exact hcheck hfree hgo (by rw [htaker]; decide)
  | checking =>
    have hgiver := hs.alone (.inl htaker)
    simp only [Handshake.takerStep, htaker] at hstep
    split at hstep
    · rename_i hnone
      obtain rfl := pure_eq_ok_iff.mp hstep
      refine ⟨hs.take hgiver (by decide) (fun _ => ?_) (by simp), ?_, rfl⟩
      · have hunset := mt hs.isSome_iff.mpr (by simpa using hnone)
        omega
      · simp [rank, htaker, Taker.rank]
    · rename_i hsome
      obtain rfl := pure_eq_ok_iff.mp hstep
      have hset := hs.isSome_iff.mp (by simpa [Option.isSome_iff_ne_none] using hsome)
      refine ⟨hs.take hgiver ?_ (by simp) fun _ => hset, ?_, rfl⟩
      · exact iff_of_true (hs.locked.mpr (.inl (.inl htaker))) (by decide)
      · simp [rank, htaker, Taker.rank]
  | waiting =>
    simp only [Handshake.takerStep, htaker] at hstep
    cases hstep
  | leaving =>
    have hgiver := hs.alone (.inr htaker)
    simp only [Handshake.takerStep, htaker, pure_eq_ok_iff] at hstep
    obtain rfl := hstep
    refine ⟨hs.take hgiver (by decide) (by simp) fun _ => hs.seen (.inl htaker), ?_, rfl⟩
    simp [rank, htaker, Taker.rank]
  | done =>
    simp only [Handshake.takerStep, htaker] at hstep
    cases hstep

/-- What a step of the giver does, apart from the value that it makes or sets. -/
structure Gives (h : Handshake V) (v : V) (h' : Handshake V) : Prop where
  sound : h'.Sound
  rank : h'.rank + 1 ≤ h.rank
  made : ∀ w, h'.made = some w → h.made = some w ∨ w = v
  done : h.taker = .done → h'.taker = .done

theorem Sound.giverStep (hs : h.Sound) (hstep : h.giverStep v = .ok h') : Gives h v h' := by
  -- while the value is still to be set, the taker is not past its look
  have hunseen : 2 < h.giver.rank → ¬ (h.taker = .leaving ∨ h.taker = .done) := by
    intro hrank hseen
    exact absurd (hs.seen hseen) (by omega)
  have hlocked := hs.locked
  have hexclusive := hs.exclusive
  have hmade := hs.made
  have hvalue := hs.value
  cases hgiver : h.giver with
  | making =>
    simp only [Handshake.giverStep, hgiver, pure_eq_ok_iff] at hstep
    subst hstep
    rw [hgiver] at hunseen hlocked hvalue
    refine ⟨⟨by simp [Giver.Holds], ?_, by simp, hvalue, fun _ => by simp [Giver.rank], ?_⟩, ?_,
      fun w hw => .inr (Option.some.inj hw).symm, id⟩
    · simpa [Giver.Holds] using hlocked
    · exact fun hseen => absurd hseen (hunseen (by decide))
    · simp only [Handshake.rank, hgiver, Giver.rank]
      omega
  | entering =>
    simp only [Handshake.giverStep, hgiver, bind_eq_ok_iff, enabled_eq_ok_iff,
      pure_eq_ok_iff] at hstep
    obtain ⟨_, hfree, rfl⟩ := hstep
    have htaker := (hs.free hfree).1
    rw [hgiver] at hunseen hmade hvalue
    refine ⟨⟨fun hboth => htaker hboth.1, by simp [Giver.Holds], by simpa using hmade, hvalue,
      fun _ => by simp [Giver.rank], ?_⟩, ?_, fun w hw => .inl hw, id⟩
    · exact fun hseen => absurd hseen (hunseen (by decide))
    · simp only [Handshake.rank, hgiver, Giver.rank]
      omega
  | setting =>
    simp only [Handshake.giverStep, hgiver, pure_eq_ok_iff] at hstep
    subst hstep
    rw [hgiver] at hlocked hexclusive hmade
    refine ⟨⟨by simpa [Giver.Holds] using hexclusive, by simpa [Giver.Holds] using hlocked,
      by simpa using hmade, rfl, fun _ => by simp [Giver.rank], fun _ => by simp [Giver.rank]⟩, ?_,
      fun w hw => .inl hw, id⟩
    simp only [Handshake.rank, hgiver, Giver.rank]
    omega
  | notifying =>
    simp only [Handshake.giverStep, hgiver, pure_eq_ok_iff] at hstep
    subst hstep
    rw [hgiver] at hlocked hexclusive hmade hvalue
    have hwaiting : (if h.taker = .waiting then .woken else h.taker) ≠ Taker.waiting := by
      split
      · decide
      · assumption
    have hholds : Taker.Holds (if h.taker = .waiting then .woken else h.taker) ↔ h.taker.Holds := by
      split
      · rename_i htaker
        rw [htaker]
        decide
      · rfl
    refine ⟨⟨?_, ?_, by simpa using hmade, hvalue, fun hwaits => absurd hwaits hwaiting,
      fun _ => by simp [Giver.rank]⟩, ?_, fun w hw => .inl hw, fun hdone => ?_⟩
    · rw [hholds]
      simpa [Giver.Holds] using hexclusive
    · rw [hholds]
      simpa [Giver.Holds] using hlocked
    · simp only [Handshake.rank, hgiver, Giver.rank]
      split
      · rename_i htaker
        rw [htaker]
        decide
      · omega
    · rw [if_neg (by rw [hdone]; decide)]
      exact hdone
  | leaving =>
    simp only [Handshake.giverStep, hgiver, pure_eq_ok_iff] at hstep
    subst hstep
    rw [hgiver] at hexclusive hmade hvalue
    have htaker : ¬ h.taker.Holds := fun htaker => hexclusive ⟨htaker, by decide⟩
    refine ⟨⟨fun hboth => htaker hboth.1, ?_, by simpa using hmade, hvalue, ?_,
      fun _ => by simp [Giver.rank]⟩, ?_, fun w hw => .inl hw, id⟩
    · simpa [Giver.Holds] using htaker
    · intro hwaits
      have hheard := hs.heard hwaits
      rw [hgiver] at hheard
      exact absurd hheard (by decide)
    · simp only [Handshake.rank, hgiver, Giver.rank]
      omega
  | done =>
    simp only [Handshake.giverStep, hgiver] at hstep
    cases hstep

theorem Sound.wakeUp (hs : h.Sound) (hstep : h.wakeUp = .ok h') :
    h'.Sound ∧ h'.rank = h.rank + 2 ∧ h'.made = h.made ∧ h.taker = .waiting := by
  simp only [Handshake.wakeUp, bind_eq_ok_iff, enabled_eq_ok_iff, pure_eq_ok_iff] at hstep
  obtain ⟨_, htaker, rfl⟩ := hstep
  have hlocked := hs.locked
  rw [htaker] at hlocked
  refine ⟨⟨by simp [Taker.Holds], ?_, hs.made, hs.value, by simp, by simp⟩, ?_, rfl, htaker⟩
  · simpa [Taker.Holds] using hlocked
  · simp [Handshake.rank, htaker, Taker.rank]

/-- Somebody can go on as long as the taker does not have the value. -/
theorem Sound.progress (hs : h.Sound) (hmore : h.taker ≠ .done) :
    (∃ h', h.takerStep = .ok h') ∨ ∀ v, ∃ h', h.giverStep v = .ok h' := by
  cases htaker : h.taker with
  | outside | woken =>
    by_cases hfree : h.locked = false
    · exact .inl ⟨_, by simp only [Handshake.takerStep, htaker, enabled_of hfree, ok_bind]; rfl⟩
    · -- the giver has the mutex
      have hgiver : h.giver.Holds := by
        rw [Bool.not_eq_false, hs.locked, htaker] at hfree
        exact hfree.resolve_left (by decide)
      refine .inr fun v => ?_
      rcases hgiver with hgiver | hgiver | hgiver <;>
        exact ⟨_, by simp only [Handshake.giverStep, hgiver]; rfl⟩
  | checking =>
    left
    simp only [Handshake.takerStep, htaker]
    split <;> exact ⟨_, rfl⟩
  | waiting =>
    refine .inr fun v => ?_
    have hheard := hs.heard htaker
    cases hgiver : h.giver with
    | making | setting | notifying => exact ⟨_, by simp only [Handshake.giverStep, hgiver]; rfl⟩
    | entering =>
      have hfree : h.locked = false := by
        rw [← Bool.not_eq_true, hs.locked, htaker, hgiver]
        decide
      exact ⟨_, by simp only [Handshake.giverStep, hgiver, enabled_of hfree, ok_bind]; rfl⟩
    | leaving | done =>
      rw [hgiver] at hheard
      exact absurd hheard (by decide)
  | leaving => exact .inl ⟨_, by simp only [Handshake.takerStep, htaker]; rfl⟩
  | done => exact absurd htaker hmore

/-- Nothing holds the giver up any more once the taker is done. -/
theorem Sound.giver_goes_on (hs : h.Sound) (hdone : h.taker = .done) (hmore : h.giver ≠ .done)
    (v : V) : ∃ h', h.giverStep v = .ok h' := by
  have hseen := hs.seen (.inr hdone)
  cases hgiver : h.giver with
  | notifying | leaving => exact ⟨_, by simp only [Handshake.giverStep, hgiver]; rfl⟩
  | making | entering | setting =>
    rw [hgiver] at hseen
    exact absurd hseen (by decide)
  | done => exact absurd hgiver hmore

theorem takerStep_ne_assertion (h : Handshake V) : h.takerStep ≠ .error .assertion := by
  intro hstep
  rw [Handshake.takerStep] at hstep
  split at hstep
  · simp only [bind_eq_error_iff, enabled_ne_assertion, pure_ne_error, false_or, and_false,
      exists_false] at hstep
  · simp only [bind_eq_error_iff, enabled_ne_assertion, pure_ne_error, false_or, and_false,
      exists_false] at hstep
  · split at hstep <;> cases hstep
  all_goals cases hstep

theorem giverStep_ne_assertion (h : Handshake V) (v : V) : h.giverStep v ≠ .error .assertion := by
  intro hstep
  rw [Handshake.giverStep] at hstep
  split at hstep
  case h_2 =>
    simp only [bind_eq_error_iff, enabled_ne_assertion, pure_ne_error, false_or, and_false,
      exists_false] at hstep
  all_goals cases hstep

end Handshake
