import TcpNet.Http.Server.Session

open Transition Trace

namespace TcpNet

namespace Session

open TcpConnection SessionEvent HttpServer HttpEvent

variable {s : Session HttpContext} {tr : List (SessionEvent HttpInput HttpCall)}
  {http : HttpConnection}

theorem Serves.wire_eq (h : Serves tr s http) :
    wire tr ++ s.conn.outputBuffer_.contents = (expected (outcomes (conversation tr))).flatten := by
  rw [h.conserved.outbound, ← sent_conversation, h.sequenced.sent]

/-- However the bytes of a connection are cut on their way in and on their way out, its server
    does what it does for the messages that it was called for: what the kernel took and what
    waits for it are the responses that are due. No assertion fails, and `parseRequest`
    returns. -/
theorem responses_on_wire (h : (machine application).Reach anyStep tr s) :
    (∃ http, HttpConnection.machine.exec .fresh (messages tr) = .ok (http, conversation tr)) ∧
      HttpConnection.bytes (messages tr) ++ s.unread = arrived tr ∧
      wire tr ++ s.conn.outputBuffer_.contents =
        (expected (outcomes (conversation tr))).flatten ∧
      (∀ a, (machine application).step s a ≠ .error .assertion) ∧
      ∀ buf input, ∃ out, HttpServer.onMessage s.app buf input = some out := by
  obtain ⟨http, hserves⟩ := reach_serves h
  refine ⟨⟨http, hserves.run⟩, ?_, hserves.wire_eq, hserves.conserved.inOrder.step_ne_assertion,
    fun buf input => ?_⟩
  · rw [bytes_messages]
    exact hserves.conserved.inbound
  · rw [← hserves.context]
    exact onMessage_returns hserves.sequenced.reading buf input

/-- A request by HTTP/1.0 in two pieces, with more bytes behind it. The kernel takes ten bytes
    of the response, and then twenty. -/
def oldRun : List (SessionAction HttpInput) :=
  [.connectEestablished, .receive HttpConnection.oldRequest, .poll POLLIN,
    .handle ⟨.delivered (HttpConnection.oldRequest.take 7), .failed 0⟩ (7, defaultHttpCallback)
      (fun _ => .failed 0),
    .receive [71], .poll POLLIN,
    .handle ⟨.delivered (HttpConnection.oldRequest.drop 7), .failed 0⟩ (8, defaultHttpCallback)
      (fun _ => .accepted 10),
    .poll POLLOUT, .handle ⟨.failed 0, .accepted 20⟩ (9, defaultHttpCallback) (fun _ => .failed 0)]

theorem responses_on_wire_old : ∃ tr s, (machine application).Reach anyStep tr s ∧
    (wire tr).length = 30 ∧ s.unread = [71] ∧
    (∃ http, HttpConnection.machine.exec .fresh (messages tr) = .ok (http, conversation tr)) ∧
    HttpConnection.bytes (messages tr) ++ s.unread = arrived tr ∧
    wire tr ++ s.conn.outputBuffer_.contents =
      (expected (outcomes (conversation tr))).flatten ∧
    (∀ a, (machine application).step s a ≠ .error .assertion) ∧
    ∀ buf input, ∃ out, HttpServer.onMessage s.app buf input = some out := by
  have hruns : (machine application).runs (new application 0 [] 5) oldRun
      (fun tr s => (wire tr).length = 30 ∧ s.unread = [71]) = true := by
    decide +kernel
  obtain ⟨tr, s, hreach, htest⟩ :=
    Machine.exists_reach (M := machine application) ⟨0, [], 5, rfl⟩ hruns
  obtain ⟨hwire, hunread⟩ := of_decide_eq_true htest
  exact ⟨tr, s, hreach, hwire, hunread, responses_on_wire hreach⟩

/-- Behind the FIN nothing is accepted any more, so that all accepted was written before. -/
theorem Serves.split (h : Serves tr s http)
    {before after : List (SessionEvent HttpInput HttpCall)}
    (hsplit : tr = before ++ farewell :: after) :
    wire before = (expected (outcomes (conversation tr))).flatten ∧
      (outcomes (conversation tr)).any ends = true ∧ ∀ e ∈ after, ¬ Speaks e := by
  have hwhole := h.polite.parting.whole before farewell after hsplit rfl
  have hlast : ∀ e ∈ after, ¬ Speaks e := by
    intro e hmem hspeaks
    obtain ⟨mid, rest, rfl⟩ := List.append_of_mem hmem
    refine h.polite.parting.last (before ++ farewell :: mid) e rest ?_ hspeaks ?_
    · rw [hsplit, List.append_assoc, List.cons_append]
    · exact List.mem_append_right before List.mem_cons_self
  have hsent : sentMessages tr = sentMessages before := by
    have hnone : sentMessages (farewell :: after) = [] := by
      rw [sentMessages, List.filterMap_eq_nil_iff]
      intro e hmem
      rcases List.mem_cons.mp hmem with rfl | hmem
      · rfl
      · have hquiet := hlast e hmem
        cases e <;> first | rfl | exact absurd trivial hquiet
    rw [hsplit, sentMessages_append, hnone, List.append_nil]
  refine ⟨?_, ?_, hlast⟩
  · rw [hwhole.2, ← hsent, ← sent_conversation, h.sequenced.sent]
  · have htold : .disconnecting ∈ tr := hsplit ▸ List.mem_append_left _ hwhole.1
    have hstate := h.sequenced.state
    rw [h.told htold] at hstate
    by_contra hopen
    rw [if_neg hopen] at hstate
    cases hstate

/-- The FIN of a server stands behind all responses up to the one that ends the conversation,
    and behind the FIN the peer hears nothing. As long as it is missing on a connection that
    disconnects, bytes wait and the channel asks for write events, unless the peer closed. -/
theorem farewell_behind_responses (h : (machine application).Reach anyStep tr s) :
    (∀ before after, tr = before ++ farewell :: after →
      wire before = (expected (outcomes (conversation tr))).flatten ∧
        (outcomes (conversation tr)).any ends = true ∧ ∀ e ∈ after, ¬ Speaks e) ∧
      (s.conn.state_ = .kDisconnecting → s.closing = false → farewell ∉ tr →
        s.conn.outputBuffer_.contents ≠ [] ∧ s.conn.channel_.isWriting = true) := by
  obtain ⟨http, hserves⟩ := reach_serves h
  refine ⟨fun before after => hserves.split, fun hstate hclosing hnone => ?_⟩
  have hattentive := hserves.polite.attentive hclosing (by rw [hstate]; nofun)
  have hwriting := (hattentive.pending hstate).resolve_left hnone
  exact ⟨hattentive.interested.writing.mp hwriting, hwriting⟩

/-- The old request is answered by default, the kernel takes the rest of the response, and the
    server says goodbye. -/
theorem exists_old_farewell : ∃ tr s, (machine application).Reach anyStep tr s ∧
    farewell ∈ tr ∧
    outcomes (conversation tr) = [some (defaultHttpCallback .new (.new true))] := by
  have hruns : (machine application).runs (new application 0 [] 5)
      (oldRun ++ [.poll POLLOUT,
        .handle ⟨.failed 0, .accepted 99⟩ (9, defaultHttpCallback) (fun _ => .failed 0)])
      (fun tr _ => tr.any isFarewell ∧
        outcomes (conversation tr) = [some (defaultHttpCallback .new (.new true))]) = true := by
    decide +kernel
  obtain ⟨tr, s, hreach, htest⟩ :=
    Machine.exists_reach (M := machine application) ⟨0, [], 5, rfl⟩ hruns
  obtain ⟨hany, houtcomes⟩ := of_decide_eq_true htest
  exact ⟨tr, s, hreach, farewell_mem_of_any hany, houtcomes⟩

theorem farewell_behind_responses_old : ∃ tr s, (machine application).Reach anyStep tr s ∧
    farewell ∈ tr ∧
    (∀ before after, tr = before ++ farewell :: after →
      wire before = (expected (outcomes (conversation tr))).flatten ∧
        (outcomes (conversation tr)).any ends = true ∧ ∀ e ∈ after, ¬ Speaks e) ∧
    (s.conn.state_ = .kDisconnecting → s.closing = false → farewell ∉ tr →
      s.conn.outputBuffer_.contents ≠ [] ∧ s.conn.channel_.isWriting = true) := by
  obtain ⟨tr, s, hreach, hmem, _⟩ := exists_old_farewell
  exact ⟨tr, s, hreach, hmem, farewell_behind_responses hreach⟩

end Session

end TcpNet
