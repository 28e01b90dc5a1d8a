import TcpNet.Poller

open Transition

namespace TcpNet

/-- What channels ask of a `Poller` or an `Epoller`, with the events that each call
    emits. -/
structure Multiplexer (P E : Type) where
  new : P
  /-- The descriptors that it can stand. -/
  descriptor : Int → Prop
  updateChannel : P → ChannelId → Channel → Except Stop (P × List E)
  removeChannel : P → ChannelId → Channel → Except Stop (P × List E)

/-- Whether a channel was never handed over, is handed over, or was taken back. -/
inductive Registration where
  | fresh
  | registered
  | removed
  deriving DecidableEq, Repr

/-- A multiplexer and the channels of its loop. -/
structure Watched (P : Type) where
  poller : P
  channel : ChannelId → Channel
  registration : ChannelId → Registration

/-- A call that reaches the multiplexer, with the events that the channel has by then. -/
inductive ChannelCall where
  | updateChannel (c : ChannelId) (events : Events)
  | removeChannel (c : ChannelId)
  deriving DecidableEq, Repr

/-- The operations of a channel that end in `update()`. -/
inductive ChannelOperation where
  | enableReading
  | enableWriting
  | disableWriting
  | disableAll
  deriving DecidableEq, Repr

namespace ChannelOperation

/-- The channel as it hands itself over. -/
def on : ChannelOperation → Channel → Channel
  | .enableReading, channel => channel.enableReading
  | .enableWriting, channel => channel.enableWriting
  | .disableWriting, channel => channel.disableWriting
  | .disableAll, channel => channel.disableAll

def isDisable : ChannelOperation → Bool
  | .disableWriting | .disableAll => true
  | .enableReading | .enableWriting => false

@[simp] theorem on_fd (operation : ChannelOperation) (channel : Channel) :
    (operation.on channel).fd_ = channel.fd_ := by
  cases operation <;> rfl

/-- An operation that enables something leaves some event. -/
theorem isNoneEvent_on_enable {operation : ChannelOperation} (h : operation.isDisable = false)
    (channel : Channel) : (operation.on channel).isNoneEvent = false := by
  cases operation with
  | enableReading => exact Channel.isNoneEvent_of_reading (channel.and_kReadEvent_enableReading)
  | enableWriting =>
    rw [Bool.eq_false_iff]
    intro hnone
    have hempty : channel.enableWriting.event_ = Channel.kNoneEvent := of_decide_eq_true hnone
    have hwriting := channel.isWriting_enableWriting
    rw [Channel.isWriting_of_none hempty] at hwriting
    cases hwriting
  | disableWriting => cases h
  | disableAll => cases h

/-- An operation that disables something adds no event. -/
theorem isNoneEvent_on_disable {operation : ChannelOperation} (h : operation.isDisable = true)
    {channel : Channel} (hnone : channel.isNoneEvent = true) :
    (operation.on channel).isNoneEvent = true := by
  have hempty : channel.event_ = Channel.kNoneEvent := of_decide_eq_true hnone
  cases operation with
  | enableReading => cases h
  | enableWriting => cases h
  | disableWriting =>
    simp [on, Channel.isNoneEvent, Channel.disableWriting, hempty, Channel.kNoneEvent]
  | disableAll => rfl

/-- Channels ask for three kinds of events only. -/
theorem toNat_on_lt {channel : Channel} (h : channel.event_.toNat < 8)
    (operation : ChannelOperation) : (operation.on channel).event_.toNat < 8 := by
  cases operation with
  | enableReading =>
    simp only [on, Channel.enableReading, BitVec.toNat_or]
    exact Nat.or_lt_two_pow (n := 3) h (by decide)
  | enableWriting =>
    simp only [on, Channel.enableWriting, BitVec.toNat_or]
    exact Nat.or_lt_two_pow (n := 3) h (by decide)
  | disableWriting =>
    simp only [on, Channel.disableWriting, BitVec.toNat_and]
    exact Nat.lt_of_le_of_lt Nat.and_le_left h
  | disableAll => exact Nat.zero_lt_succ 7

end ChannelOperation

/-- A call that the owner of a channel makes. -/
inductive OwnerCall where
  | operate (c : ChannelId) (operation : ChannelOperation)
  | removeChannel (c : ChannelId)
  deriving DecidableEq, Repr

namespace Watched

variable {P : Type}

/-- Behind an `updateChannel` that has left `poller`. -/
def updated (s : Watched P) (poller : P) (c : ChannelId) (channel : Channel) : Watched P where
  poller := poller
  channel := Function.update s.channel c channel
  registration := Function.update s.registration c .registered

/-- Behind a `removeChannel` that has left `poller`. -/
def removed (s : Watched P) (poller : P) (c : ChannelId) : Watched P :=
  { s with poller := poller, registration := Function.update s.registration c .removed }

/-- A channel that may be removed. -/
def Removable (s : Watched P) (c : ChannelId) : Prop :=
  s.registration c = .registered ∧ (s.channel c).isNoneEvent = true

instance (s : Watched P) (c : ChannelId) : Decidable (s.Removable c) :=
  inferInstanceAs (Decidable (_ ∧ _))

variable (s : Watched P) (poller : P) {c c' : ChannelId} (channel : Channel)

@[simp] theorem updated_poller : (s.updated poller c channel).poller = poller := rfl

@[simp] theorem removed_poller : (s.removed poller c).poller = poller := rfl

@[simp] theorem removed_channel : (s.removed poller c).channel = s.channel := rfl

@[simp] theorem updated_channel_self : (s.updated poller c channel).channel c = channel :=
  Function.update_self ..

theorem updated_channel_of_ne (h : c' ≠ c) :
    (s.updated poller c channel).channel c' = s.channel c' :=
  Function.update_of_ne h ..

@[simp] theorem updated_registration_self :
    (s.updated poller c channel).registration c = .registered :=
  Function.update_self ..

theorem updated_registration_of_ne (h : c' ≠ c) :
    (s.updated poller c channel).registration c' = s.registration c' :=
  Function.update_of_ne h ..

@[simp] theorem removed_registration_self : (s.removed poller c).registration c = .removed :=
  Function.update_self ..

theorem removed_registration_of_ne (h : c' ≠ c) :
    (s.removed poller c).registration c' = s.registration c' :=
  Function.update_of_ne h ..

variable {channel}

theorem updated_fd (h : channel.fd_ = (s.channel c).fd_) (c' : ChannelId) :
    ((s.updated poller c channel).channel c').fd_ = (s.channel c').fd_ := by
  by_cases hc : c' = c
  · subst hc
    rw [updated_channel_self, h]
  · rw [updated_channel_of_ne s poller channel hc]

end Watched

namespace Multiplexer

variable {P E : Type} (M : Multiplexer P E)

/-- Channels with descriptors of their own, and without events before they are handed
    over. -/
structure Channels (s : Watched P) : Prop where
  descriptor : ∀ c, M.descriptor (s.channel c).fd_
  distinct : ∀ c c', (s.channel c).fd_ = (s.channel c').fd_ → c = c'
  fresh : ∀ c, s.registration c = .fresh → (s.channel c).event_ = Channel.kNoneEvent

structure Initial (s : Watched P) : Prop where
  poller : s.poller = M.new
  registration : ∀ c, s.registration c = .fresh
  channels : M.Channels s

def update (s : Watched P) (c : ChannelId) (channel : Channel) :
    Except Stop (Watched P × List E) := do
  let (poller, es) ← M.updateChannel s.poller c channel
  return (s.updated poller c channel, es)

def remove (s : Watched P) (c : ChannelId) : Except Stop (Watched P × List E) := do
  enabled (s.Removable c)
  let (poller, es) ← M.removeChannel s.poller c (s.channel c)
  return (s.removed poller c, es)

def callStep (s : Watched P) : ChannelCall → Except Stop (Watched P × List E)
  | .updateChannel c events => M.update s c { s.channel c with event_ := events }
  | .removeChannel c => M.remove s c

def ownerStep (s : Watched P) : OwnerCall → Except Stop (Watched P × List E)
  | .operate c operation => M.update s c (operation.on (s.channel c))
  | .removeChannel c => M.remove s c

/-- The calls of any channels with any events. Only a channel that is handed over and
    has no events is removed. -/
def calls : Machine (Watched P) ChannelCall E where
  init := M.Initial
  step := M.callStep

/-- The operations of the owners. The trace holds the states that the calls leave. -/
def owners : Machine (Watched P) OwnerCall (Watched P) where
  init := M.Initial
  step s call := do
    let (s', _) ← M.ownerStep s call
    return (s', [s'])

/-- Channels with the descriptors 0, 1, 2 and so on. -/
def numbered : Watched P := ⟨M.new, fun c => Channel.new c, fun _ => .fresh⟩

variable {M} {s s' : Watched P} {c : ChannelId} {channel : Channel} {es : List E}

theorem initial_numbered (h : ∀ c : ChannelId, M.descriptor c) : M.Initial M.numbered where
  poller := rfl
  registration _ := rfl
  channels := ⟨h, fun _ _ heq => Int.natCast_inj.mp heq, fun _ _ => rfl⟩

theorem update_eq_ok (h : M.update s c channel = .ok (s', es)) :
    ∃ poller, M.updateChannel s.poller c channel = .ok (poller, es) ∧
      s' = s.updated poller c channel := by
  simp only [update, bind_eq_ok_iff, pure_eq_ok_iff, Prod.mk.injEq] at h
  obtain ⟨⟨poller, es'⟩, hupdate, rfl, rfl⟩ := h
  exact ⟨poller, hupdate, rfl⟩

theorem remove_eq_ok (h : M.remove s c = .ok (s', es)) :
    s.Removable c ∧ ∃ poller, M.removeChannel s.poller c (s.channel c) = .ok (poller, es) ∧
      s' = s.removed poller c := by
  simp only [remove, bind_eq_ok_iff, enabled_eq_ok_iff, pure_eq_ok_iff, Prod.mk.injEq] at h
  obtain ⟨_, hremovable, ⟨poller, es'⟩, hremove, rfl, rfl⟩ := h
  exact ⟨hremovable, poller, hremove, rfl⟩

/-- What a call, of either kind, leads to. -/
inductive Step (M : Multiplexer P E) (s : Watched P) : List E → Watched P → Prop
  | updated {c : ChannelId} {channel : Channel} {poller : P} {es : List E}
      (hfd : channel.fd_ = (s.channel c).fd_)
      (hupdate : M.updateChannel s.poller c channel = .ok (poller, es)) :
      Step M s es (s.updated poller c channel)
  | removed {c : ChannelId} {poller : P} {es : List E} (hremovable : s.Removable c)
      (hremove : M.removeChannel s.poller c (s.channel c) = .ok (poller, es)) :
      Step M s es (s.removed poller c)

theorem step_of_call {call : ChannelCall} (h : M.calls.step s call = .ok (s', es)) :
    Step M s es s' := by
  cases call with
  | updateChannel c events =>
    obtain ⟨poller, hupdate, rfl⟩ := update_eq_ok h
    exact .updated rfl hupdate
  | removeChannel c =>
    obtain ⟨hremovable, poller, hremove, rfl⟩ := remove_eq_ok h
    exact .removed hremovable hremove

theorem step_of_ownerStep {call : OwnerCall} (h : M.ownerStep s call = .ok (s', es)) :
    Step M s es s' := by
  cases call with
  | operate c operation =>
    obtain ⟨poller, hupdate, rfl⟩ := update_eq_ok h
    exact .updated (operation.on_fd _) hupdate
  | removeChannel c =>
    obtain ⟨hremovable, poller, hremove, rfl⟩ := remove_eq_ok h
    exact .removed hremovable hremove

theorem step_of_owner {call : OwnerCall} {left : List (Watched P)}
    (h : M.owners.step s call = .ok (s', left)) : left = [s'] ∧ ∃ es, Step M s es s' := by
  simp only [owners, bind_eq_ok_iff, pure_eq_ok_iff, Prod.mk.injEq] at h
  obtain ⟨⟨s', es⟩, hstep, rfl, rfl⟩ := h
  exact ⟨rfl, es, step_of_ownerStep hstep⟩

/-- The invariant rule for both kinds of runs. -/
theorem invariant_of_calls {I : Watched P → Prop} (hinit : ∀ s, M.Initial s → I s)
    (hstep : ∀ s s' es, I s → Step M s es s' → I s') {C : StepCondition (Watched P) ChannelCall E}
    {tr : List E} (h : M.calls.Reach C tr s) : I s := by
  apply h.invariant (I := fun _ s => I s)
  · exact hinit
  · intro tr s call s' es _ hI _ hgo
    exact hstep s s' es hI (step_of_call hgo)

theorem invariant_of_owners {I : Watched P → Prop} (hinit : ∀ s, M.Initial s → I s)
    (hstep : ∀ s s' es, I s → Step M s es s' → I s')
    {C : StepCondition (Watched P) OwnerCall (Watched P)} {tr : List (Watched P)}
    (h : M.owners.Reach C tr s) : I s := by
  apply h.invariant (I := fun _ s => I s)
  · exact hinit
  · intro tr s call s' left _ hI _ hgo
    obtain ⟨_, es, hcase⟩ := step_of_owner hgo
    exact hstep s s' es hI hcase

theorem toNat_lt_of_ownerStep {call : OwnerCall} (hsmall : ∀ c, (s.channel c).event_.toNat < 8)
    (hgo : M.ownerStep s call = .ok (s', es)) (c : ChannelId) :
    (s'.channel c).event_.toNat < 8 := by
  cases call with
  | operate c' operation =>
    obtain ⟨poller, _, rfl⟩ := update_eq_ok hgo
    by_cases hc : c = c'
    · subst hc
      rw [s.updated_channel_self]
      exact ChannelOperation.toNat_on_lt (hsmall c) operation
    · rw [s.updated_channel_of_ne poller _ hc]
      exact hsmall c
  | removeChannel c' =>
    obtain ⟨_, poller, _, rfl⟩ := remove_eq_ok hgo
    exact hsmall c

/-- The channels of the owners' runs ask for three kinds of events only. -/
theorem toNat_lt_of_owners {C : StepCondition (Watched P) OwnerCall (Watched P)}
    {tr : List (Watched P)} (h : M.owners.Reach C tr s) (c : ChannelId) :
    (s.channel c).event_.toNat < 8 := by
  induction h generalizing c with
  | init hinit =>
    have hempty := hinit.channels.fresh c (hinit.registration c)
    rw [hempty]
    exact Nat.zero_lt_succ 7
  | @step tr left s s' call hreach hcond hstep ih =>
    simp only [owners, bind_eq_ok_iff, pure_eq_ok_iff, Prod.mk.injEq] at hstep
    obtain ⟨⟨s', es⟩, hgo, rfl, _⟩ := hstep
    exact toNat_lt_of_ownerStep ih hgo c

/-- A call does the same to the channels, whatever watches them. -/
theorem same_of_ownerStep {Q F : Type} {N : Multiplexer Q F} {t t' : Watched Q} {fs : List F}
    {call : OwnerCall} (hchannel : t.channel = s.channel)
    (hregistration : t.registration = s.registration) (hgo : M.ownerStep s call = .ok (s', es))
    (hgo' : N.ownerStep t call = .ok (t', fs)) :
    t'.channel = s'.channel ∧ t'.registration = s'.registration := by
  cases call with
  | operate c operation =>
    obtain ⟨poller, _, rfl⟩ := update_eq_ok hgo
    obtain ⟨poller', _, rfl⟩ := update_eq_ok hgo'
    simp only [Watched.updated, hchannel, hregistration, and_self]
  | removeChannel c =>
    obtain ⟨_, poller, _, rfl⟩ := remove_eq_ok hgo
    obtain ⟨_, poller', _, rfl⟩ := remove_eq_ok hgo'
    simp only [Watched.removed, hchannel, hregistration, and_self]

/-- Behind a run of the owners holds what holds of its channels at first and behind every
    call. -/
theorem holds_of_trace {I : Watched P → Prop} (hinit : ∀ s, M.Initial s → I s)
    {C : StepCondition (Watched P) OwnerCall (Watched P)} {tr : List (Watched P)}
    (h : M.owners.Reach C tr s) (hall : ∀ s ∈ tr, I s) : I s := by
  cases h with
  | init h0 => exact hinit s h0
  | step hreach hcond hstep =>
    obtain ⟨hleft, _⟩ := step_of_owner hstep
    exact hall s (hleft ▸ List.mem_append_right _ List.mem_cons_self)

/-- What each call keeps exactly if it meets `C` holds behind every call of exactly the
    runs whose calls all meet `C`. -/
theorem holds_iff {I : Watched P → Prop} (hinit : ∀ s, M.Initial s → I s)
    {C : StepCondition (Watched P) OwnerCall (Watched P)}
    (hstep : ∀ tr s call s' left, M.owners.Reach C tr s → I s →
      M.owners.step s call = .ok (s', left) → (I s' ↔ C tr s call))
    {tr : List (Watched P)} (h : M.owners.Reach anyStep tr s) :
    (∀ s ∈ tr, I s) ↔ M.owners.Reach C tr s := by
  refine h.iff_condition (P := fun tr => ∀ s ∈ tr, I s) (by simp)
    (fun tr left hall s hs => hall s (List.mem_append_left left hs)) ?_
  intro tr s call s' left hreach hall hgo
  have hbefore := holds_of_trace hinit hreach hall
  obtain ⟨rfl, _⟩ := step_of_owner hgo
  rw [← hstep tr s call s' [s'] hreach hbefore hgo]
  constructor
  · exact fun hall' => hall' s' (List.mem_append_right tr List.mem_cons_self)
  · intro hs' s'' hmem
    obtain hmem | hmem := List.mem_append.mp hmem
    · exact hall s'' hmem
    · rw [List.mem_singleton.mp hmem]
      exact hs'

theorem Channels.step (h : M.Channels s) (hstep : Step M s es s') : M.Channels s' := by
  cases hstep with
  | @updated c channel poller es hfd hupdate =>
    refine ⟨fun c' => s.updated_fd poller hfd c' ▸ h.descriptor c', ?_, ?_⟩
    · intro c₁ c₂ heq
      rw [s.updated_fd poller hfd, s.updated_fd poller hfd] at heq
      exact h.distinct c₁ c₂ heq
    · intro c' hfresh
      have hc : c' ≠ c := by
        rintro rfl
        simp at hfresh
      rw [s.updated_registration_of_ne poller channel hc] at hfresh
      rw [s.updated_channel_of_ne poller channel hc]
      exact h.fresh c' hfresh
  | @removed c poller es hremovable hremove =>
    refine ⟨h.descriptor, h.distinct, fun c' hfresh => ?_⟩
    have hc : c' ≠ c := by
      rintro rfl
      simp at hfresh
    rw [s.removed_registration_of_ne poller hc] at hfresh
    exact h.fresh c' hfresh

end Multiplexer

end TcpNet
