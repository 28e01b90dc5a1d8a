import TcpNet.Application.Spec

open Transition

namespace TcpNet

namespace TcpConnection

variable {I E : Type}

/-- The events less the effects of the connection. -/
def voice (es : List (SessionEvent I E)) : List (SessionEvent I E) :=
  es.filter fun
    | .effect _ => false
    | _ => true

/-- What a script shows when it starts in a state: `send` and `shutdown` do nothing outside
    `kConnected`. -/
def spoken : StateE → List (UserStep E) → List (SessionEvent I E)
  | _, [] => []
  | state, .event e :: rest => .user e :: spoken state rest
  | state, .send message :: rest =>
    if state = .kConnected then .sent message :: spoken state rest else spoken state rest
  | state, .shutdown :: rest =>
    if state = .kConnected then .disconnecting :: spoken .kDisconnecting rest
    else spoken state rest

/-- The state that a script leaves. -/
def leftIn (state : StateE) (script : List (UserStep E)) : StateE :=
  if state = .kConnected ∧ script.any (fun | .shutdown => true | _ => false) then .kDisconnecting
  else state

theorem voice_append (es es' : List (SessionEvent I E)) : voice (es ++ es') = voice es ++ voice es' :=
  List.filter_append ..

@[simp] theorem voice_effects (effects : List Effect) :
    voice (effects.map (.effect : Effect → SessionEvent I E)) = [] := by
  simp [voice]

theorem filterMap_voice {B : Type} {f : SessionEvent I E → Option B}
    (h : ∀ effect, f (.effect effect) = none) (es : List (SessionEvent I E)) :
    (voice es).filterMap f = es.filterMap f := by
  induction es with
  | nil => rfl
  | cons e es ih =>
    cases e with
    | effect effect =>
      rw [List.filterMap_cons_none (h effect), ← ih]
      rfl
    | received _ | fin | offered _ _ | user _ | sent _ | disconnecting =>
      exact (List.filterMap_cons ..).trans (by rw [List.filterMap_cons, ← ih]; rfl)

/-- By induction over the script, from any state. -/
theorem follow_spoken {conn conn' : TcpConnection} {script : List (UserStep E)}
    {writes : Nat → WriteResult} {es : List (SessionEvent I E)}
    (h : conn.follow script writes = .ok (conn', es)) :
    voice es = spoken conn.state_ script ∧ conn'.state_ = leftIn conn.state_ script := by
  induction script generalizing conn writes es with
  | nil =>
    simp only [follow, pure_eq_ok_iff, Prod.mk.injEq] at h
    obtain ⟨rfl, rfl⟩ := h
    exact ⟨rfl, by simp [leftIn]⟩
  | cons step rest ih =>
    cases step with
    | event e =>
      simp only [follow, bind_eq_ok_iff, pure_eq_ok_iff, Prod.mk.injEq] at h
      obtain ⟨⟨conn₁, es₁⟩, hrest, rfl, rfl⟩ := h
      obtain ⟨hvoice, hstate⟩ := ih hrest
      refine ⟨?_, hstate⟩
      rw [spoken, ← hvoice]
      rfl
    | send message =>
      simp only [follow, bind_eq_ok_iff, pure_eq_ok_iff, Prod.mk.injEq] at h
      obtain ⟨⟨conn₁, effects⟩, hsend, ⟨conn₂, es₂⟩, hrest, rfl, rfl⟩ := h
      obtain ⟨hvoice, hstate⟩ := ih hrest
      have hkept : conn₁.state_ = conn.state_ := by
        rw [send] at hsend
        split at hsend
        · exact (sendInloop_same hsend).2
        · rw [pure_eq_ok_iff, Prod.mk.injEq] at hsend
          rw [hsend.1]
      rw [hkept] at hvoice hstate
      refine ⟨?_, hstate⟩
      rw [voice_append, voice_append, voice_effects, List.append_nil, hvoice, spoken, gated]
      split <;> rfl
    | shutdown =>
      simp only [follow, bind_eq_ok_iff, pure_eq_ok_iff, Prod.mk.injEq] at h
      obtain ⟨⟨conn₁, effects⟩, hshutdown, ⟨conn₂, es₂⟩, hrest, rfl, rfl⟩ := h
      obtain ⟨hvoice, hstate⟩ := ih hrest
      rw [voice_append, voice_append, voice_effects, List.append_nil, spoken, gated]
      by_cases hconnected : conn.state_ = .kConnected
      · rw [shutdown, if_pos hconnected] at hshutdown
        obtain ⟨_, rfl, _⟩ := shutdownInloop_eq_ok hshutdown
        rw [if_pos hconnected, if_pos hconnected, hvoice, hstate]
        exact ⟨rfl, by simp [leftIn, hconnected]⟩
      · rw [shutdown, if_neg hconnected, pure_eq_ok_iff, Prod.mk.injEq] at hshutdown
        rw [← hshutdown.1] at hvoice hstate
        rw [if_neg hconnected, if_neg hconnected, hvoice, hstate]
        exact ⟨rfl, by simp [leftIn, hconnected]⟩

end TcpConnection

namespace Session

open TcpConnection

variable {A I E : Type} {app : Application A I E} {s s' : Session A}
  {tr es : List (SessionEvent I E)}

/-- Before its first functor and behind its last one, no handler of a connection runs, and
    it does not close before the first one. -/
structure InOrder (s : Session A) : Prop where
  rests : s.conn.state_ = .kConnecting ∨ s.conn.state_ = .kDisconnected →
    s.handlers = [] ∧ s.conn.channel_.event_ = Channel.kNoneEvent
  begun : s.closing = true → s.conn.state_ ≠ .kConnecting

/-- Where all bytes are, on their way in and on their way out. -/
structure Conserved (tr : List (SessionEvent I E)) (s : Session A) : Prop where
  inbound : offeredBytes tr ++ s.unread = arrived tr
  outbound : wire tr ++ s.conn.outputBuffer_.contents = (sentMessages tr).flatten
  inOrder : s.InOrder

theorem InOrder.open (h : s.InOrder) {handler : Handler} {rest : List Handler}
    (hhandlers : s.handlers = handler :: rest) :
    s.conn.state_ = .kConnected ∨ s.conn.state_ = .kDisconnecting := by
  have hnot : ¬ (s.conn.state_ = .kConnecting ∨ s.conn.state_ = .kDisconnected) := by
    intro hrests
    rw [(h.rests hrests).1] at hhandlers
    cases hhandlers
  cases hstate : s.conn.state_ <;> simp_all

theorem inOrder_of_open
    (h : s.conn.state_ = .kConnected ∨ s.conn.state_ = .kDisconnecting) : s.InOrder where
  rests := by
    intro hrests
    rcases h with h | h <;> rw [h] at hrests <;> simp at hrests
  begun := by
    intro _
    rcases h with h | h <;> rw [h] <;> nofun

theorem InOrder.step (h : s.InOrder) (hstep : Step app s es s') : s'.InOrder := by
  cases hstep with
  | receive hopen => exact ⟨h.rests, h.begun⟩
  | receiveFin => exact ⟨h.rests, h.begun⟩
  | established hstate => exact inOrder_of_open (.inl rfl)
  | poll hsome =>
    refine ⟨fun hrests => ?_, h.begun⟩
    have hnone := (h.rests hrests).2
    rw [Channel.isNoneEvent, hnone] at hsome
    cases hsome
  | @offers rest data input buf buf' kept script writes conn es hhandlers _ _ _ _ hfollow =>
    apply inOrder_of_open
    have hopen := h.open hhandlers
    obtain hsame | ⟨_, hafter⟩ := (follow_followed hfollow).state
    · show conn.state_ = .kConnected ∨ conn.state_ = .kDisconnecting
      rw [hsame]
      exact hopen
    · exact .inr hafter
  | @handler handler rest io conn effects hhandlers hrun hinput =>
    apply inOrder_of_open
    show conn.state_ = .kConnected ∨ conn.state_ = .kDisconnecting
    rw [(callBack_same hrun).2]
    exact h.open hhandlers
  | destroyed hclosing hhandlers hstate => exact ⟨fun _ => ⟨hhandlers, rfl⟩, by simp⟩

theorem Conserved.step (h : Conserved tr s) (hstep : Step app s es s') :
    Conserved (tr ++ es) s' := by
  have hinOrder := h.inOrder.step hstep
  cases hstep with
  | @receive data hopen =>
    refine ⟨?_, ?_, hinOrder⟩
    · rw [offeredBytes_append, arrived_append, ← h.inbound]
      simp [offeredBytes, arrived]
    · rw [wire_append, sentMessages_append]
      simpa [wire, sentMessages] using h.outbound
  | receiveFin =>
    exact ⟨by simpa [offeredBytes, arrived] using h.inbound,
      by simpa [wire, sentMessages] using h.outbound, hinOrder⟩
  | established hstate =>
    exact ⟨by simpa [offeredBytes, arrived] using h.inbound,
      by simpa [wire, sentMessages] using h.outbound, hinOrder⟩
  | poll hsome =>
    rw [List.append_nil]
    exact ⟨h.inbound, h.outbound, hinOrder⟩
  | @offers rest data input buf buf' kept script writes conn es hhandlers hbegins hdata hinput
      happ hfollow =>
    have hfollowed := follow_followed hfollow
    refine ⟨?_, ?_, hinOrder⟩
    · obtain ⟨rest', hsplit⟩ := hbegins
      have hnew : offeredBytes (.offered data input :: es) = data := by
        rw [← List.singleton_append, offeredBytes_append, hfollowed.offered, List.append_nil]
        exact List.append_nil data
      have hnone : arrived (.offered data input :: es) = [] := by
        rw [← List.singleton_append, arrived_append, hfollowed.arrived]
        rfl
      rw [offeredBytes_append, arrived_append, hnew, hnone, List.append_nil, ← h.inbound]
      show offeredBytes tr ++ data ++ s.unread.drop data.length = _
      rw [← hsplit, List.drop_left, List.append_assoc]
    · have hstream := hfollowed.stream
      have hwire : wire (.offered data input :: es) = wire es := rfl
      have hsent : sentMessages (.offered data input :: es) = sentMessages es := rfl
      rw [wire_append, sentMessages_append, hwire, hsent, List.append_assoc, hstream,
        ← List.append_assoc, h.outbound, List.flatten_append]
  | @handler handler rest io conn effects hhandlers hrun hinput =>
    obtain ⟨hsent, harrived, hoffered⟩ := quiet_effects (I := I) (E := E) effects
    refine ⟨?_, ?_, hinOrder⟩
    · rw [offeredBytes_append, arrived_append, hoffered, harrived, List.append_nil,
        List.append_nil]
      exact h.inbound
    · rw [wire_append, sentMessages_append, hsent, List.append_nil, wire_effects,
        List.append_assoc, callBack_stream hrun]
      exact h.outbound
  | destroyed hclosing hhandlers hstate =>
    exact ⟨by simpa [offeredBytes, arrived] using h.inbound,
      by simpa [wire, sentMessages] using h.outbound, hinOrder⟩

theorem conserved_new (loop : LoopId) (name : Name) (sockfd : Int) :
    Conserved ([] : List (SessionEvent I E)) (new app loop name sockfd) where
  inbound := rfl
  outbound := WfBuffer.contents_new
  inOrder := ⟨fun _ => ⟨rfl, rfl⟩, nofun⟩

theorem reach_conserved (h : (machine app).Reach anyStep tr s) : Conserved tr s := by
  refine h.invariant (I := fun tr s => Conserved tr s) ?_ ?_
  · rintro s ⟨loop, name, sockfd, rfl⟩
    exact conserved_new loop name sockfd
  · exact fun _ _ _ _ _ _ hconserved _ hstep => hconserved.step (step_cases hstep)

/-- A connection in order meets no assertion, whatever its application does. -/
theorem InOrder.step_ne_assertion (h : s.InOrder) (a : SessionAction I) :
    s.step app a ≠ .error .assertion := by
  intro hstep
  cases a with
  | receive data | receiveFin | poll revent =>
    simp only [Session.step, bind_eq_error_iff, enabled_ne_assertion, pure_ne_error, false_or,
      and_false, exists_false] at hstep
  | connectEestablished =>
    simp only [Session.step, bind_eq_error_iff, enabled_ne_assertion, false_or,
      enabled_eq_ok_iff] at hstep
    obtain ⟨_, hstate, herror | ⟨_, _, hgo⟩⟩ := hstep
    · obtain ⟨out, hout⟩ : ∃ out, s.conn.connectEestablished s.conn.loop_ = .ok out :=
        connectEestablished_goes_through rfl hstate
      rw [hout] at herror
      cases herror
    · cases hgo
  | handle io input writes =>
    cases hhandlers : s.handlers with
    | nil => simp only [Session.step, hhandlers] at hstep; cases hstep
    | cons handler rest =>
      simp only [Session.step, hhandlers, bind_eq_error_iff, enabled_ne_assertion, false_or] at hstep
      obtain ⟨_, _, herror | ⟨⟨conn, effects⟩, hrun, hgo⟩⟩ := hstep
      · obtain ⟨out, hout⟩ : ∃ out, s.conn.callBack s.conn.loop_ handler io = .ok out :=
          callBack_goes_through handler io rfl (h.open hhandlers)
        rw [hout] at herror
        cases herror
      · split at hgo
        · simp only [onMessage] at hgo
          split at hgo
          · cases hgo
          · rename_i kept buf script _
            obtain ⟨conn', es, hfollow⟩ := follow_goes_through (I := I)
              { conn with inputBuffer_ := buf } script writes
            rw [hfollow] at hgo
            cases hgo
        · cases hgo
  | connectDestory =>
    simp only [Session.step, bind_eq_error_iff, enabled_ne_assertion, false_or,
      enabled_eq_ok_iff] at hstep
    obtain ⟨_, ⟨hclosing, _, hstate⟩, herror | ⟨_, _, hgo⟩⟩ := hstep
    · have hbegun := h.begun hclosing
      have hopen : s.conn.state_ = .kConnected ∨ s.conn.state_ = .kDisconnecting := by
        cases hcase : s.conn.state_ <;> simp_all
      obtain ⟨out, hout⟩ : ∃ out, s.conn.connectDestory s.conn.loop_ = .ok out :=
        connectDestory_goes_through rfl hopen
      rw [hout] at herror
      cases herror
    · cases hgo

end Session

end TcpNet
