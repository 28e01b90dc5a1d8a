import TcpNet.Application.Streams

open Transition

namespace TcpNet

namespace Session

open TcpConnection

variable {s s' : Session Unit} {tr es : List (SessionEvent Unit Empty)}

/-- What holds of an echo server beside the books: it never says goodbye, keeps nothing in
    its input buffer, and has sent what it was offered. -/
structure Echoing (tr : List (SessionEvent Unit Empty)) (s : Session Unit) : Prop where
  conserved : Conserved tr s
  state : s.conn.state_ ≠ .kDisconnecting
  input : s.conn.inputBuffer_.contents = []
  same : (sentMessages tr).flatten = offeredBytes tr

theorem Echoing.connected (h : Echoing tr s) {handler : Handler} {rest : List Handler}
    (hhandlers : s.handlers = handler :: rest) : s.conn.state_ = .kConnected :=
  (h.conserved.inOrder.open hhandlers).resolve_right h.state

/-- What a message callback of the echo server shows. -/
theorem echo_follow {conn conn' : TcpConnection} {message : Bytes} {writes : Nat → WriteResult}
    (h : conn.follow [.send message] writes = .ok (conn', es))
    (hstate : conn.state_ = .kConnected) :
    sentMessages es = [message] ∧ conn'.state_ = .kConnected := by
  obtain ⟨hvoice, hleft⟩ := follow_spoken h
  refine ⟨?_, by rw [hleft, hstate]; rfl⟩
  rw [sentMessages, ← filterMap_voice (fun _ => rfl), hvoice, hstate]
  rfl

theorem Echoing.step (h : Echoing tr s) (hstep : Step echo s es s') : Echoing (tr ++ es) s' := by
  have hconserved := h.conserved.step hstep
  -- a step that offers nothing and sends nothing
  have hquiet : sentMessages es = [] → offeredBytes es = [] →
      (sentMessages (tr ++ es)).flatten = offeredBytes (tr ++ es) := by
    intro hsent hoffered
    rw [sentMessages_append, offeredBytes_append, hsent, hoffered, List.append_nil,
      List.append_nil]
    exact h.same
  cases hstep with
  | receive hopen => exact ⟨hconserved, h.state, h.input, hquiet rfl rfl⟩
  | receiveFin => exact ⟨hconserved, h.state, h.input, hquiet rfl rfl⟩
  | established hstate => exact ⟨hconserved, nofun, h.input, hquiet rfl rfl⟩
  | poll hsome => exact ⟨hconserved, h.state, h.input, hquiet rfl rfl⟩
  | @offers rest data input buf buf' kept script writes conn es hhandlers hbegins hdata hinput
      happ hfollow =>
    simp only [echo, Option.some.injEq, Prod.mk.injEq] at happ
    obtain ⟨_, rfl, rfl⟩ := happ
    rw [h.input, List.nil_append] at hinput
    obtain ⟨hsent, hstate⟩ := echo_follow hfollow (h.connected hhandlers)
    have hfollowed := follow_followed hfollow
    refine ⟨hconserved, ?_, ?_, ?_⟩
    · show conn.state_ ≠ .kDisconnecting
      rw [hstate]
      nofun
    · show conn.inputBuffer_.contents = []
      rw [hfollowed.input]
      exact buf.contents_retrieveAll
    · have hmessages : sentMessages (.offered data input :: es) = [data] := by
        rw [← hinput]
        exact hsent
      have hbytes : offeredBytes (.offered data input :: es) = data := by
        rw [← List.singleton_append, offeredBytes_append, hfollowed.offered, List.append_nil]
        exact List.append_nil data
      rw [sentMessages_append, offeredBytes_append, hmessages, hbytes, List.flatten_append, h.same,
        List.flatten_singleton]
  | @handler handler rest io conn effects hhandlers hrun hinput =>
    obtain ⟨hsent, _, hoffered⟩ := quiet_effects (I := Unit) (E := Empty) effects
    refine ⟨hconserved, ?_, hinput.trans h.input, hquiet hsent hoffered⟩
    show conn.state_ ≠ .kDisconnecting
    rw [(callBack_same hrun).2]
    exact h.state
  | destroyed hclosing hhandlers hstate => exact ⟨hconserved, nofun, h.input, hquiet rfl rfl⟩

theorem reach_echoing (h : (machine echo).Reach anyStep tr s) : Echoing tr s := by
  refine h.invariant (I := fun tr s => Echoing tr s) ?_ ?_
  · rintro s ⟨loop, name, sockfd, rfl⟩
    exact ⟨conserved_new loop name sockfd, nofun, WfBuffer.contents_new, rfl⟩
  · exact fun _ _ _ _ _ _ hechoing _ hstep => hechoing.step (step_cases hstep)

/-- An echo server gives back what it gets: what the kernel took, what waits in the output
    buffer and what is not read yet are together, in this order, all that has come. And no
    assertion fails. -/
theorem echoes (h : (machine echo).Reach anyStep tr s) :
    wire tr ++ s.conn.outputBuffer_.contents ++ s.unread = arrived tr ∧
      s.conn.inputBuffer_.contents = [] ∧
      ∀ a, (machine echo).step s a ≠ .error .assertion := by
  have hechoing := reach_echoing h
  refine ⟨?_, hechoing.input, hechoing.conserved.inOrder.step_ne_assertion⟩
  rw [hechoing.conserved.outbound, hechoing.same, hechoing.conserved.inbound]

/-- The peer sends five bytes; the kernel takes one of the first three, and then two more. -/
theorem echoes_short_write : ∃ tr s, (machine echo).Reach anyStep tr s ∧
    s.conn.outputBuffer_.contents = [4, 5] ∧ s.unread = [6] ∧
    wire tr ++ s.conn.outputBuffer_.contents ++ s.unread = arrived tr ∧
    s.conn.inputBuffer_.contents = [] ∧
    ∀ a, (machine echo).step s a ≠ .error .assertion := by
  have hruns : (machine echo).runs (new echo 0 [] 5)
      [.connectEestablished, .receive [1, 2, 3, 4, 5], .poll POLLIN,
        .handle ⟨.delivered [1, 2, 3], .failed 0⟩ () (fun _ => .accepted 1),
        .receive [6], .poll (POLLIN ||| POLLOUT),
        .handle ⟨.delivered [4, 5], .failed 0⟩ () (fun _ => .accepted 7),
        .handle ⟨.failed 0, .accepted 2⟩ () (fun _ => .failed 0)]
      (fun _ s => s.conn.outputBuffer_.contents = [4, 5] ∧ s.unread = [6]) = true := by
    decide +kernel
  obtain ⟨tr, s, hreach, htest⟩ := Machine.exists_reach (M := machine echo) ⟨0, [], 5, rfl⟩ hruns
  obtain ⟨houtput, hunread⟩ := of_decide_eq_true htest
  exact ⟨tr, s, hreach, houtput, hunread, echoes hreach⟩

end Session

end TcpNet
