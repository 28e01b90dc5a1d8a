import TcpNet.Http.Server.Serving

open Transition Trace

namespace TcpNet

namespace Session

open TcpConnection SessionEvent HttpServer HttpEvent

variable {s s' : Session HttpContext} {tr es : List (SessionEvent HttpInput HttpCall)}
  {http : HttpConnection}

/-- The connection of a server and the connection that its `onMessage` is about: they have had
    the same messages and done the same for them. -/
structure Serves (tr : List (SessionEvent HttpInput HttpCall)) (s : Session HttpContext)
    (http : HttpConnection) : Prop where
  conserved : Conserved tr s
  polite : Polite tr s
  run : HttpConnection.machine.exec .fresh (messages tr) = .ok (http, conversation tr)
  input : http.inputBuffer_.contents = s.conn.inputBuffer_.contents
  context : http.context_ = s.app
  fresh : s.conn.state_ = .kConnecting → http.state_ = .kConnected
  state : s.conn.state_ = .kConnected ∨ s.conn.state_ = .kDisconnecting →
    http.state_ = s.conn.state_
  told : .disconnecting ∈ tr → http.state_ = .kDisconnecting

theorem Serves.sequenced (h : Serves tr s http) :
    HttpConnection.Sequenced (conversation tr) http := by
  have hreach := Machine.Reach.exec (C := anyStep) (M := HttpConnection.machine)
    (fun _ _ _ _ => trivial) (.init rfl) h.run
  rw [List.nil_append] at hreach
  exact HttpConnection.reach_sequenced hreach

/-- A message callback on the connection is a message for the server. -/
theorem Serves.offers (h : Serves tr s http) {rest : List Handler} {data : Bytes}
    {input : HttpInput} {buf buf' : WfBuffer} {context : HttpContext}
    {script : List (UserStep HttpCall)} {writes : Nat → WriteResult} {conn : TcpConnection}
    (hhandlers : s.handlers = .read :: rest)
    (hinput : buf.contents = s.conn.inputBuffer_.contents ++ data)
    (happ : HttpServer.onMessage s.app buf input = some (context, buf', script))
    (hfollow : { s.conn with inputBuffer_ := buf' }.follow script writes = .ok (conn, es)) :
    ∃ http', HttpConnection.machine.step http ⟨data, input.1, input.2⟩ =
        .ok (http', conversation es) ∧ messages es = [] ∧
      http'.inputBuffer_.contents = conn.inputBuffer_.contents ∧ http'.context_ = context ∧
      http'.state_ = conn.state_ := by
  have hreading := h.sequenced.reading
  have hstate := h.state (h.conserved.inOrder.open hhandlers)
  have hsame : (http.receive data).inputBuffer_.contents = buf.contents := by
    rw [HttpConnection.receive, WfBuffer.contents_append, h.input, hinput]
  rw [← h.context] at happ
  obtain ⟨buf'ₕ, happₕ, hsame'⟩ := onMessage_congr hreading hsame happ
  obtain ⟨hvoice, hleft⟩ := follow_spoken hfollow
  have hheard : conversation es = conversation (spoken http.state_ script) := by
    rw [hstate, conversation, ← filterMap_voice (fun _ => rfl), hvoice]
    rfl
  have hmessages : messages es = [] := by
    rw [messages, ← filterMap_voice (fun _ => rfl), hvoice]
    exact messages_spoken _ _
  refine ⟨⟨leftIn http.state_ script, buf'ₕ, context⟩, ?_, hmessages, ?_, rfl, ?_⟩
  · have hgo := onMessage_spoken (http.receive data) input.1 input.2
    rw [show HttpServer.onMessage (http.receive data).context_ (http.receive data).inputBuffer_
      (input.1, input.2) = _ from happₕ] at hgo
    show HttpConnection.step http ⟨data, input.1, input.2⟩ = _
    rw [HttpConnection.step, hgo, hheard]
    rfl
  · rw [hsame', (follow_followed hfollow).input]
  · rw [hleft, hstate]

theorem Serves.step (h : Serves tr s http) (hstep : Step application s es s') :
    ∃ http', Serves (tr ++ es) s' http' := by
  have hconserved := h.conserved.step hstep
  have hpolite := h.polite.step courteous hstep
  -- a step without a message callback
  have hquiet : messages es = [] → conversation es = [] →
      HttpConnection.machine.exec .fresh (messages (tr ++ es)) =
        .ok (http, conversation (tr ++ es)) := by
    intro hmessages hconversation
    rw [messages_append, conversation_append, hmessages, hconversation, List.append_nil,
      List.append_nil]
    exact h.run
  have htold : .disconnecting ∉ es → .disconnecting ∈ tr ++ es → http.state_ = .kDisconnecting :=
    fun hnone hmem => h.told ((List.mem_append.mp hmem).resolve_right hnone)
  cases hstep with
  | receive hopen =>
    exact ⟨http, hconserved, hpolite, hquiet rfl rfl, h.input, h.context, h.fresh, h.state,
      htold (by simp)⟩
  | receiveFin =>
    exact ⟨http, hconserved, hpolite, hquiet rfl rfl, h.input, h.context, h.fresh, h.state,
      htold (by simp)⟩
  | established hstate =>
    exact ⟨http, hconserved, hpolite, hquiet rfl rfl, h.input, h.context, nofun,
      fun _ => h.fresh hstate, htold (by simp)⟩
  | poll hsome =>
    exact ⟨http, hconserved, hpolite, hquiet rfl rfl, h.input, h.context, h.fresh, h.state,
      htold (by simp)⟩
  | @offers rest data input buf buf' kept script writes conn es hhandlers hbegins hdata hinput
      happ hfollow =>
    obtain ⟨http', hgo, hmessages, hinput', hcontext, hstate⟩ :=
      h.offers hhandlers hinput happ hfollow
    have hopen := h.conserved.inOrder.open hhandlers
    have hopen' : conn.state_ = .kConnected ∨ conn.state_ = .kDisconnecting := by
      obtain hsame | ⟨_, hafter⟩ := (follow_followed hfollow).state
      · rw [hsame]
        exact hopen
      · exact .inr hafter
    refine ⟨http', hconserved, hpolite, ?_, hinput', hcontext, ?_, fun _ => hstate, ?_⟩
    · have hone : messages (.offered data input :: es) = [⟨data, input.1, input.2⟩] := by
        rw [← List.singleton_append, messages_append, hmessages]
        rfl
      have hsame : conversation (.offered data input :: es) = conversation es := rfl
      rw [messages_append, conversation_append, hone, hsame]
      exact Machine.exec_concat h.run hgo
    · intro hconnecting
      rcases hopen' with hopen' | hopen' <;> rw [hopen'] at hconnecting <;> cases hconnecting
    · intro hmem
      rw [hstate]
      refine hopen'.resolve_left fun hconnected => ?_
      exact hpolite.parting.staying (.inr hconnected) hmem
  | @handler handler rest io conn effects hhandlers hrun hinput =>
    have hsame : conn.state_ = s.conn.state_ := (callBack_same hrun).2
    refine ⟨http, hconserved, hpolite, hquiet (messages_effects _) (conversation_effects _),
      h.input.trans hinput.symm, h.context, ?_, ?_, htold (disconnecting_notMem_map _)⟩
    · exact fun hstate => h.fresh (hsame.symm.trans hstate)
    · intro hstate
      show http.state_ = conn.state_
      rw [hsame]
      exact h.state (hsame ▸ hstate)
  | destroyed hclosing hhandlers hstate =>
    exact ⟨http, hconserved, hpolite, hquiet rfl rfl, h.input, h.context, nofun, nofun,
      htold (by simp)⟩

theorem reach_serves (h : (machine application).Reach anyStep tr s) :
    ∃ http, Serves tr s http := by
  refine h.invariant (I := fun tr s => ∃ http, Serves tr s http) ?_ ?_
  · rintro s ⟨loop, name, sockfd, rfl⟩
    exact ⟨.fresh, conserved_new loop name sockfd, polite_new loop name sockfd, rfl, rfl, rfl,
      fun _ => rfl, nofun, nofun⟩
  · rintro _ _ _ _ _ _ ⟨http, hserves⟩ _ hstep
    exact hserves.step (step_cases hstep)

end Session

end TcpNet
