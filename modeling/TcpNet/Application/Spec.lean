import TcpNet.Application

open Transition

namespace TcpNet

namespace TcpConnection

variable {I E : Type}

/-- What the user code of a callback leaves: it moves bytes to the kernel or to the output
    buffer, each behind those before, and does not look at the input buffer. -/
structure Followed (conn conn' : TcpConnection) (es : List (SessionEvent I E)) : Prop where
  same : conn.Same conn'
  input : conn'.inputBuffer_ = conn.inputBuffer_
  stream : Session.wire es ++ conn'.outputBuffer_.contents =
    conn.outputBuffer_.contents ++ (Session.sentMessages es).flatten
  state : conn'.state_ = conn.state_ ∨
    conn.state_ = .kConnected ∧ conn'.state_ = .kDisconnecting
  arrived : Session.arrived es = []
  offered : Session.offeredBytes es = []

theorem wire_effects (effects : List Effect) :
    Session.wire (effects.map (.effect : Effect → SessionEvent I E)) = writtenBytes effects := by
  rw [Session.wire, writtenBytes, List.flatMap_map]
  congr 1
  funext effect
  cases effect <;> rfl

theorem quiet_effects (effects : List Effect) :
    Session.sentMessages (effects.map (.effect : Effect → SessionEvent I E)) = [] ∧
      Session.arrived (effects.map (.effect : Effect → SessionEvent I E)) = [] ∧
      Session.offeredBytes (effects.map (.effect : Effect → SessionEvent I E)) = [] := by
  simp [Session.sentMessages, Session.arrived, Session.offeredBytes]

theorem Followed.refl (conn : TcpConnection) : conn.Followed conn ([] : List (SessionEvent I E)) :=
  ⟨⟨rfl, rfl⟩, rfl, by simp [Session.wire, Session.sentMessages], .inl rfl, rfl, rfl⟩

theorem Followed.user (conn : TcpConnection) (e : E) :
    conn.Followed conn [(.user e : SessionEvent I E)] :=
  ⟨⟨rfl, rfl⟩, rfl, by simp [Session.wire, Session.sentMessages], .inl rfl, rfl, rfl⟩

theorem Followed.trans {conn conn' conn'' : TcpConnection} {es es' : List (SessionEvent I E)}
    (h : conn.Followed conn' es) (h' : conn'.Followed conn'' es') :
    conn.Followed conn'' (es ++ es') where
  same := ⟨h'.same.loop.trans h.same.loop, h'.same.name.trans h.same.name⟩
  input := h'.input.trans h.input
  stream := by
    rw [Session.wire_append, List.append_assoc, h'.stream, ← List.append_assoc, h.stream,
      Session.sentMessages_append, List.flatten_append, List.append_assoc]
  state := by
    obtain hsame | ⟨hbefore, hafter⟩ := h.state
    · rw [← hsame]
      exact h'.state
    · obtain hsame' | ⟨hconnected, _⟩ := h'.state
      · exact .inr ⟨hbefore, hsame'.trans hafter⟩
      · rw [hafter] at hconnected
        cases hconnected
  arrived := by rw [Session.arrived_append, h.arrived, h'.arrived, List.append_nil]
  offered := by rw [Session.offeredBytes_append, h.offered, h'.offered, List.append_nil]

theorem send_followed {conn conn' : TcpConnection} {message : Bytes} {io : WriteResult}
    {effects : List Effect} (h : conn.send conn.loop_ message io = .ok (conn', effects)) :
    conn.Followed conn'
      (conn.gated (.sent message : SessionEvent I E) ++ effects.map .effect) := by
  obtain ⟨hsent, harrived, hoffered⟩ := quiet_effects (I := I) (E := E) effects
  rw [send] at h
  unfold gated
  by_cases hstate : conn.state_ = .kConnected
  · rw [if_pos hstate] at h ⊢
    obtain ⟨hsame, hkept⟩ := sendInloop_same h
    have hinput : conn'.inputBuffer_ = conn.inputBuffer_ := by
      cases (sendInloop_eq_ok h).2 <;> rfl
    refine ⟨hsame, hinput, ?_, .inl hkept, ?_, ?_⟩
    · have hone : Session.sentMessages [(.sent message : SessionEvent I E)] = [message] := rfl
      have hnone : Session.wire [(.sent message : SessionEvent I E)] = [] := rfl
      rw [Session.wire_append, wire_effects, hnone, List.nil_append, sendInloop_stream h,
        Session.sentMessages_append, hsent, hone, List.append_nil, List.flatten_singleton]
    · rw [Session.arrived_append, harrived]
      rfl
    · rw [Session.offeredBytes_append, hoffered]
      rfl
  · rw [if_neg hstate, pure_eq_ok_iff, Prod.mk.injEq] at h
    obtain ⟨rfl, rfl⟩ := h
    rw [if_neg hstate]
    exact .refl conn

theorem shutdown_followed {conn conn' : TcpConnection} {effects : List Effect}
    (h : conn.shutdown conn.loop_ = .ok (conn', effects)) :
    conn.Followed conn'
      (conn.gated (.disconnecting : SessionEvent I E) ++ effects.map .effect) := by
  obtain ⟨hsent, harrived, hoffered⟩ := quiet_effects (I := I) (E := E) effects
  rw [shutdown] at h
  unfold gated
  by_cases hstate : conn.state_ = .kConnected
  · rw [if_pos hstate] at h ⊢
    obtain ⟨_, rfl, heffects⟩ := shutdownInloop_eq_ok h
    have hwritten : writtenBytes effects = [] := by
      rw [heffects]
      split <;> rfl
    refine ⟨⟨rfl, rfl⟩, rfl, ?_, .inr ⟨hstate, rfl⟩, ?_, ?_⟩
    · rw [Session.wire_append, wire_effects, hwritten, Session.sentMessages_append, hsent]
      exact (List.append_nil _).symm
    · rw [Session.arrived_append, harrived]
      rfl
    · rw [Session.offeredBytes_append, hoffered]
      rfl
  · rw [if_neg hstate, pure_eq_ok_iff, Prod.mk.injEq] at h
    obtain ⟨rfl, rfl⟩ := h
    rw [if_neg hstate]
    exact .refl conn

/-- By induction over what the user code does. -/
theorem follow_followed {conn conn' : TcpConnection} {script : List (UserStep E)}
    {writes : Nat → WriteResult} {es : List (SessionEvent I E)}
    (h : conn.follow script writes = .ok (conn', es)) : conn.Followed conn' es := by
  induction script generalizing conn writes es with
  | nil =>
    simp only [follow, pure_eq_ok_iff, Prod.mk.injEq] at h
    obtain ⟨rfl, rfl⟩ := h
    exact .refl conn
  | cons step rest ih =>
    cases step with
    | event e =>
      simp only [follow, bind_eq_ok_iff, pure_eq_ok_iff, Prod.mk.injEq] at h
      obtain ⟨⟨conn₁, es₁⟩, hrest, rfl, rfl⟩ := h
      exact (Followed.user conn e).trans (ih hrest)
    | send message =>
      simp only [follow, bind_eq_ok_iff, pure_eq_ok_iff, Prod.mk.injEq] at h
      obtain ⟨⟨conn₁, effects⟩, hsend, ⟨conn₂, es₂⟩, hrest, rfl, rfl⟩ := h
      exact (send_followed hsend).trans (ih hrest)
    | shutdown =>
      simp only [follow, bind_eq_ok_iff, pure_eq_ok_iff, Prod.mk.injEq] at h
      obtain ⟨⟨conn₁, effects⟩, hshutdown, ⟨conn₂, es₂⟩, hrest, rfl, rfl⟩ := h
      exact (shutdown_followed hshutdown).trans (ih hrest)

/-- User code in the thread of the loop meets no assertion. -/
theorem follow_goes_through (conn : TcpConnection) (script : List (UserStep E))
    (writes : Nat → WriteResult) :
    ∃ conn' es, conn.follow (I := I) script writes = .ok (conn', es) := by
  induction script generalizing conn writes with
  | nil => exact ⟨conn, [], rfl⟩
  | cons step rest ih =>
    cases step with
    | event e =>
      obtain ⟨conn', es, hrest⟩ := ih conn writes
      exact ⟨conn', .user e :: es, by simp only [follow, hrest, ok_bind]; rfl⟩
    | send message =>
      have hsend : ∃ out, conn.send conn.loop_ message (writes 0) = .ok out := by
        rw [send]
        split
        · exact sendInloop_goes_through message _ rfl
        · exact ⟨_, rfl⟩
      obtain ⟨⟨conn₁, effects⟩, hsend⟩ := hsend
      obtain ⟨conn', es, hrest⟩ := ih conn₁ (fun n => writes (n + 1))
      exact ⟨conn', _, by simp only [follow, hsend, hrest, ok_bind]; rfl⟩
    | shutdown =>
      have hshutdown : ∃ out, conn.shutdown conn.loop_ = .ok out := by
        rw [shutdown]
        split
        · exact shutdownInloop_goes_through rfl
        · exact ⟨_, rfl⟩
      obtain ⟨⟨conn₁, effects⟩, hshutdown⟩ := hshutdown
      obtain ⟨conn', es, hrest⟩ := ih conn₁ writes
      exact ⟨conn', _, by simp only [follow, hshutdown, hrest, ok_bind]; rfl⟩

end TcpConnection

namespace Session

variable {A I E : Type} {app : Application A I E} {s s' : Session A}
  {tr es : List (SessionEvent I E)}

/-- What a step can come to. A handler that makes no message callback leaves the input
    buffer as it is. -/
inductive Step (app : Application A I E) (s : Session A) :
    List (SessionEvent I E) → Session A → Prop
  | receive {data : Bytes} (hopen : s.fin = false) :
      Step app s [.received data] { s with unread := s.unread ++ data }
  | receiveFin : Step app s [.fin] { s with fin := true }
  | established (hstate : s.conn.state_ = .kConnecting) :
      Step app s [.effect .updateChannel, .effect (.connectionCallBack .kConnected)]
        { s with conn := { s.conn with
          state_ := .kConnected, channel_ := s.conn.channel_.enableReading } }
  | poll {handlers : List Handler} (hsome : s.conn.channel_.isNoneEvent = false) :
      Step app s [] { s with handlers := handlers }
  | offers {rest : List Handler} {data : Bytes} {input : I} {buf buf' : WfBuffer} {kept : A}
      {script : List (UserStep E)} {writes : Nat → WriteResult} {conn : TcpConnection}
      {es : List (SessionEvent I E)} (hhandlers : s.handlers = .read :: rest)
      (hbegins : data <+: s.unread) (hdata : data ≠ [])
      (hinput : buf.contents = s.conn.inputBuffer_.contents ++ data)
      (happ : app.onMessage s.app buf input = some (kept, buf', script))
      (hfollow : { s.conn with inputBuffer_ := buf' }.follow script writes = .ok (conn, es)) :
      Step app s (.offered data input :: es) { s with
        conn := conn
        unread := s.unread.drop data.length
        handlers := rest
        app := kept }
  | handler {handler : Handler} {rest : List Handler} {io : IoResult} {conn : TcpConnection}
      {effects : List Effect} (hhandlers : s.handlers = handler :: rest)
      (hrun : s.conn.callBack s.conn.loop_ handler io = .ok (conn, effects))
      (hinput : conn.inputBuffer_.contents = s.conn.inputBuffer_.contents) :
      Step app s (effects.map .effect) { s with
        conn := conn
        handlers := rest
        closing := s.closing || decide (.closeCallBack ∈ effects) }
  | destroyed (hclosing : s.closing = true) (hhandlers : s.handlers = [])
      (hstate : s.conn.state_ = .kConnected ∨ s.conn.state_ = .kDisconnecting) :
      Step app s [.effect .updateChannel, .effect (.connectionCallBack .kDisconnected),
          .effect .removeChannel]
        { s with conn := { s.conn with
          state_ := .kDisconnected, channel_ := s.conn.channel_.disableAll } }

/-- A handler other than that of read events, or a read that brings nothing. -/
theorem handler_input {conn conn' : TcpConnection} {handler : Handler} {io : IoResult}
    {effects : List Effect} (h : conn.callBack conn.loop_ handler io = .ok (conn', effects))
    (hquiet : .messageCallBack ∉ effects) :
    conn'.inputBuffer_.contents = conn.inputBuffer_.contents ∧
      (handler = .read → io.read.taken = []) := by
  cases handler with
  | close =>
    obtain ⟨_, _, rfl, _⟩ := TcpConnection.handleClose_eq_ok h
    exact ⟨rfl, by simp⟩
  | error =>
    simp only [TcpConnection.callBack, TcpConnection.handleError, pure_eq_ok_iff,
      Prod.mk.injEq] at h
    obtain ⟨rfl, _⟩ := h
    exact ⟨rfl, by simp⟩
  | read =>
    have hcases := TcpConnection.handleRead_cases h
    generalize hio : io.read = result at hcases
    cases hcases with
    | failed => exact ⟨rfl, fun _ => rfl⟩
    | offered hdata hinput => exact absurd List.mem_cons_self hquiet
    | closed hinput => exact ⟨hinput, fun _ => rfl⟩
  | write =>
    cases (TcpConnection.handleWrite_eq_ok h).2 <;> exact ⟨rfl, by simp⟩

/-- Where the message callback is called, bytes were read. -/
theorem handler_offers {conn conn' : TcpConnection} {handler : Handler} {io : IoResult}
    {effects : List Effect} (h : conn.callBack conn.loop_ handler io = .ok (conn', effects))
    (hoffers : .messageCallBack ∈ effects) :
    handler = .read ∧ effects = [.messageCallBack] ∧
      ∃ data buf, io.read = .delivered data ∧ data ≠ [] ∧ conn' = { conn with inputBuffer_ := buf } ∧
        buf.contents = conn.inputBuffer_.contents ++ data := by
  cases handler with
  | close =>
    obtain ⟨_, _, _, rfl⟩ := TcpConnection.handleClose_eq_ok h
    simp at hoffers
  | error =>
    simp only [TcpConnection.callBack, TcpConnection.handleError, pure_eq_ok_iff,
      Prod.mk.injEq] at h
    obtain ⟨_, rfl⟩ := h
    cases hoffers
  | read =>
    have hcases := TcpConnection.handleRead_cases h
    generalize hio : io.read = result at hcases
    cases hcases with
    | failed => cases hoffers
    | offered hdata hinput => exact ⟨rfl, rfl, _, _, rfl, hdata, rfl, hinput⟩
    | closed hinput => simp at hoffers
  | write =>
    cases (TcpConnection.handleWrite_eq_ok h).2 with
    | idle hmore => cases hoffers
    | some hmore hwriting hsplit hout => simp at hoffers
    | drained hdrains hout =>
      split at hoffers <;> simp at hoffers

theorem step_cases {a : SessionAction I} (h : s.step app a = .ok (s', es)) : Step app s es s' := by
  cases a with
  | receive data =>
    simp only [step, bind_eq_ok_iff, enabled_eq_ok_iff, pure_eq_ok_iff, Prod.mk.injEq] at h
    obtain ⟨_, hopen, rfl, rfl⟩ := h
    exact .receive hopen
  | receiveFin =>
    simp only [step, bind_eq_ok_iff, pure_eq_ok_iff, Prod.mk.injEq] at h
    obtain ⟨_, _, rfl, rfl⟩ := h
    exact .receiveFin
  | connectEestablished =>
    simp only [step, bind_eq_ok_iff, enabled_eq_ok_iff, pure_eq_ok_iff, Prod.mk.injEq] at h
    obtain ⟨_, hstate, ⟨conn, effects⟩, hrun, rfl, rfl⟩ := h
    obtain ⟨_, _, rfl, rfl⟩ := TcpConnection.connectEestablished_eq_ok hrun
    exact .established hstate
  | poll revent =>
    simp only [step, bind_eq_ok_iff, enabled_eq_ok_iff, pure_eq_ok_iff, Prod.mk.injEq] at h
    obtain ⟨_, ⟨_, hsome⟩, rfl, rfl⟩ := h
    exact .poll hsome
  | handle io input writes =>
    cases hhandlers : s.handlers with
    | nil => simp only [step, hhandlers] at h; cases h
    | cons handler rest =>
      simp only [step, hhandlers, bind_eq_ok_iff, enabled_eq_ok_iff] at h
      obtain ⟨_, hread, ⟨conn, effects⟩, hrun, h⟩ := h
      by_cases hoffers : .messageCallBack ∈ effects
      · obtain ⟨rfl, rfl, data, buf, hio, hdata, rfl, hinput⟩ := handler_offers hrun hoffers
        have hbegins : data <+: s.unread := by
          have hcan := hread rfl
          rw [hio] at hcan
          exact hcan.1
        have hcloses : Effect.closeCallBack ∉ [Effect.messageCallBack] := by simp
        simp only [if_pos hoffers, onMessage, hio, ReadResult.taken, hcloses, if_true,
          decide_false, Bool.or_false] at h
        split at h
        · cases h
        · rename_i kept buf' script happ
          simp only [bind_eq_ok_iff, pure_eq_ok_iff, Prod.mk.injEq] at h
          obtain ⟨⟨conn, es'⟩, hfollow, rfl, rfl⟩ := h
          exact .offers hhandlers hbegins hdata hinput happ hfollow
      · obtain ⟨hinput, htaken⟩ := handler_input hrun hoffers
        have hunread : (if handler = .read then s.unread.drop io.read.taken.length
            else s.unread) = s.unread := by
          split
          · rename_i hhandler
            rw [htaken hhandler]
            rfl
          · rfl
        simp only [if_neg hoffers, pure_eq_ok_iff, Prod.mk.injEq, hunread] at h
        obtain ⟨rfl, rfl⟩ := h
        exact .handler hhandlers hrun hinput
  | connectDestory =>
    simp only [step, bind_eq_ok_iff, enabled_eq_ok_iff, pure_eq_ok_iff, Prod.mk.injEq] at h
    obtain ⟨_, ⟨hclosing, hhandlers, _⟩, ⟨conn, effects⟩, hrun, rfl, rfl⟩ := h
    obtain ⟨_, hstate, rfl, rfl⟩ := TcpConnection.connectDestory_eq_ok hrun
    exact .destroyed hclosing hhandlers hstate

end Session

end TcpNet
