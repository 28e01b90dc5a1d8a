import TcpNet.Library.Trace
import TcpNet.TcpConnection.Calls

open Transition Trace

namespace TcpNet

def ReadResult.taken : ReadResult → Bytes
  | .delivered data => data
  | .failed _ => []

/-- What can be seen of the bytes that a connection receives. -/
inductive InboundEvent where
  | received (data : Bytes)
  | fin
  | offered (data : Bytes)
  | retrieved (data : Bytes)
  | closing
  deriving DecidableEq, Repr

/-- A connection, the receiving side of its socket, and the callbacks that the thread of the
    loop has yet to make for the events that `poll` reported last. -/
structure Inbound where
  conn : TcpConnection
  unread : Bytes
  fin : Bool
  handlers : List Handler
  deriving DecidableEq

/-- The peer sends bytes and at last a FIN, `poll` reports events, the channel makes a
    callback, and the user calls the connection or takes bytes from `inputBuffer_`. -/
inductive InboundAction where
  | receive (data : Bytes)
  | receiveFin
  | poll (revent : Events)
  | handle (io : IoResult)
  | call (c : ConnCall)
  | retrieve (len : Nat)
  deriving DecidableEq

namespace Inbound

def new (loop : LoopId) (name : Name) (sockfd : Int) : Inbound :=
  ⟨TcpConnection.new loop name sockfd, [], false, []⟩

/-- What `readv` may return: it fails, or it delivers bytes from the front of the queue, no
    more than both parts of the vector hold, and none only at the end of the stream. -/
def CanRead (s : Inbound) : ReadResult → Prop
  | .failed _ => True
  | .delivered data => data <+: s.unread ∧
      data.length ≤ s.conn.inputBuffer_.1.writableBytes + Buffer.extraBufSize ∧
      (data = [] → s.unread = [] ∧ s.fin = true)

instance (s : Inbound) : (io : ReadResult) → Decidable (s.CanRead io)
  | .failed _ => .isTrue trivial
  | .delivered _ => inferInstanceAs (Decidable (_ ∧ _ ∧ _))

/-- The events that the effects of a callback amount to. -/
def observe (io : ReadResult) : Effect → List InboundEvent
  | .messageCallBack => [.offered io.taken]
  | .closeCallBack => [.closing]
  | _ => []

def step (s : Inbound) : InboundAction → Except Stop (Inbound × List InboundEvent)
  | .receive data => do
    enabled (s.fin = false)
    return ({ s with unread := s.unread ++ data }, [.received data])
  | .receiveFin => do
    enabled (s.fin = false)
    return ({ s with fin := true }, [.fin])
  | .poll revent => do
    -- a disabled channel has no entry with its descriptor
    enabled (s.handlers = [] ∧ s.conn.channel_.isNoneEvent = false)
    return ({ s with handlers := Channel.handleEvent revent }, [])
  | .handle io =>
    match s.handlers with
    | [] => throw .disabled
    | handler :: rest => do
      enabled (handler = .read → s.CanRead io.read)
      let (conn, effects) ← s.conn.callBack s.conn.loop_ handler io
      let unread := if handler = .read then s.unread.drop io.read.taken.length else s.unread
      return ({ s with conn := conn, unread := unread, handlers := rest },
        effects.flatMap (observe io.read))
  | .call c => do
    let (conn, _) ← s.conn.call c
    return ({ s with conn := conn }, [])
  | .retrieve len => do
    let data := s.conn.inputBuffer_.contents.take len
    let inputBuffer ← s.conn.inputBuffer_.retrieve len
    return ({ s with conn := { s.conn with inputBuffer_ := inputBuffer } }, [.retrieved data])

def machine : Machine Inbound InboundAction InboundEvent where
  init s := ∃ loop name sockfd, s = new loop name sockfd
  step := step

end Inbound

def received (tr : List InboundEvent) : Bytes :=
  tr.flatMap fun
    | .received data => data
    | _ => []

def offered (tr : List InboundEvent) : Bytes :=
  tr.flatMap fun
    | .offered data => data
    | _ => []

def retrieved (tr : List InboundEvent) : Bytes :=
  tr.flatMap fun
    | .retrieved data => data
    | _ => []

/-- The connection closes only when the stream has ended and all of it was offered. -/
def AllOffered (tr : List InboundEvent) : Prop :=
  Guarded (· = .closing) (fun before => .fin ∈ before ∧ offered before = received before) tr

namespace Inbound

/-- The close callback that a report with `POLLHUP` and `POLLIN` leads to finds the FIN
    there and no byte unread. -/
def hangsUpDry : StepCondition Inbound InboundAction InboundEvent := fun _ s a =>
  match a with
  | .handle _ => s.handlers.head? = some .close → s.fin = true ∧ s.unread = []
  | _ => True

instance (tr : List InboundEvent) (s : Inbound) (a : InboundAction) :
    Decidable (hangsUpDry tr s a) := by
  cases a <;> unfold hangsUpDry <;> infer_instance

end Inbound

namespace TcpConnection

/-- What a read event can come to: nothing is read, bytes go behind those in the input
    buffer, or the stream has ended. -/
inductive HandleRead (conn : TcpConnection) :
    ReadResult → List Effect → TcpConnection → Prop
  | failed {errno : Nat} : HandleRead conn (.failed errno) [] conn
  | offered {data : Bytes} {input : WfBuffer} (hdata : data ≠ [])
      (hinput : input.contents = conn.inputBuffer_.contents ++ data) :
      HandleRead conn (.delivered data) [.messageCallBack] { conn with inputBuffer_ := input }
  | closed {input : WfBuffer} (hinput : input.contents = conn.inputBuffer_.contents) :
      HandleRead conn (.delivered []) [.updateChannel, .closeCallBack]
        { conn with inputBuffer_ := input, channel_ := conn.channel_.disableAll }

theorem handleRead_cases {conn conn' : TcpConnection} {here : ThreadId} {io : ReadResult}
    {effects : List Effect} (h : conn.handleRead here io = .ok (conn', effects)) :
    HandleRead conn io effects conn' := by
  cases io with
  | failed errno =>
    rw [handleRead, WfBuffer.readFd_failed] at h
    simp only [if_neg (show ¬ (-1 : Int) > 0 by omega), if_neg (show ¬ (-1 : Int) = 0 by omega),
      handleError, pure_eq_ok_iff, Prod.mk.injEq] at h
    obtain ⟨rfl, rfl⟩ := h
    exact .failed
  | delivered data =>
    obtain ⟨input, hread, hinput⟩ := conn.inputBuffer_.readFd_delivered data
    simp only [handleRead, hread] at h
    by_cases hdata : data = []
    · subst hdata
      have hzero : ((([] : Bytes).length : Nat) : Int) = 0 := rfl
      rw [if_neg (by decide), if_pos hzero] at h
      obtain ⟨_, _, rfl, rfl⟩ := handleClose_eq_ok h
      rw [List.append_nil] at hinput
      exact .closed hinput
    · have hpositive : (data.length : Int) > 0 := by
        have hlength := List.length_pos_iff.mpr hdata
        omega
      rw [if_pos hpositive, pure_eq_ok_iff, Prod.mk.injEq] at h
      obtain ⟨rfl, rfl⟩ := h
      exact .offered hdata hinput

/-- A call from outside the channel reads nothing. -/
theorem call_input {conn conn' : TcpConnection} {c : ConnCall} {effects : List Effect}
    (h : conn.call c = .ok (conn', effects)) : conn'.inputBuffer_ = conn.inputBuffer_ := by
  cases call_cases h with
  | established hstate => rfl
  | destroyed => rfl
  | send hstate hsend => cases hsend <;> rfl
  | sendInloop hstate hsend => cases hsend <;> rfl
  | nothing => rfl
  | disconnecting hstate heffects => rfl
  | shutdownWrite => rfl

end TcpConnection

namespace Inbound

variable {s s' : Inbound} {tr es : List InboundEvent}

/-- What a step can come to. -/
inductive Step (s : Inbound) : InboundAction → List InboundEvent → Inbound → Prop
  | receive {data : Bytes} (hopen : s.fin = false) :
      Step s (.receive data) [.received data] { s with unread := s.unread ++ data }
  | receiveFin : Step s .receiveFin [.fin] { s with fin := true }
  | poll {revent : Events} :
      Step s (.poll revent) [] { s with handlers := Channel.handleEvent revent }
  | offers {io : IoResult} {rest : List Handler} {data : Bytes} {input : WfBuffer}
      (hhandlers : s.handlers = .read :: rest) (hbegins : data <+: s.unread)
      (hinput : input.contents = s.conn.inputBuffer_.contents ++ data) :
      Step s (.handle io) [.offered data] { s with
        conn := { s.conn with inputBuffer_ := input }
        unread := s.unread.drop data.length
        handlers := rest }
  | ends {io : IoResult} {rest : List Handler} {input : WfBuffer}
      (hhandlers : s.handlers = .read :: rest) (hfin : s.fin = true) (hunread : s.unread = [])
      (hinput : input.contents = s.conn.inputBuffer_.contents) :
      Step s (.handle io) [.closing] { s with
        conn := { s.conn with inputBuffer_ := input, channel_ := s.conn.channel_.disableAll }
        handlers := rest }
  | closes {io : IoResult} {rest : List Handler} (hhandlers : s.handlers = .close :: rest) :
      Step s (.handle io) [.closing] { s with
        conn := { s.conn with channel_ := s.conn.channel_.disableAll }
        handlers := rest }
  | quiet {io : IoResult} {handler : Handler} {rest : List Handler} {conn : TcpConnection}
      (hhandlers : s.handlers = handler :: rest) (hhandler : handler ≠ .close)
      (hinput : conn.inputBuffer_ = s.conn.inputBuffer_) :
      Step s (.handle io) [] { s with conn := conn, handlers := rest }
  | call {c : ConnCall} {conn : TcpConnection} (hinput : conn.inputBuffer_ = s.conn.inputBuffer_) :
      Step s (.call c) [] { s with conn := conn }
  | retrieve {len : Nat} {input : WfBuffer}
      (hinput : input.contents = s.conn.inputBuffer_.contents.drop len) :
      Step s (.retrieve len) [.retrieved (s.conn.inputBuffer_.contents.take len)]
        { s with conn := { s.conn with inputBuffer_ := input } }

theorem handle_read {io : IoResult} {rest : List Handler}
    (hhandlers : s.handlers = .read :: rest) (h : s.step (.handle io) = .ok (s', es)) :
    Step s (.handle io) es s' := by
  simp only [step, hhandlers, bind_eq_ok_iff, enabled_eq_ok_iff, pure_eq_ok_iff, if_true,
    Prod.mk.injEq, true_imp_iff] at h
  obtain ⟨_, hread, ⟨conn, effects⟩, hcall, rfl, rfl⟩ := h
  have hcases := TcpConnection.handleRead_cases hcall
  cases hio : io.read with
  | failed errno =>
    rw [hio] at hcases
    cases hcases
    exact .quiet hhandlers (by simp) rfl
  | delivered data =>
    rw [hio] at hcases hread
    obtain ⟨hbegins, _, hend⟩ := hread
    cases hcases with
    | offered hdata hinput => exact .offers hhandlers hbegins hinput
    | closed hinput =>
      obtain ⟨hunread, hfin⟩ := hend rfl
      exact .ends hhandlers hfin hunread hinput

theorem step_cases {a : InboundAction} (h : s.step a = .ok (s', es)) : Step s a es s' := by
  cases a with
  | receive data =>
    simp only [step, bind_eq_ok_iff, enabled_eq_ok_iff, pure_eq_ok_iff, Prod.mk.injEq] at h
    obtain ⟨_, hopen, rfl, rfl⟩ := h
    exact .receive hopen
  | receiveFin =>
    simp only [step, bind_eq_ok_iff, pure_eq_ok_iff, Prod.mk.injEq] at h
    obtain ⟨_, _, rfl, rfl⟩ := h
    exact .receiveFin
  | poll revent =>
    simp only [step, bind_eq_ok_iff, pure_eq_ok_iff, Prod.mk.injEq] at h
    obtain ⟨_, _, rfl, rfl⟩ := h
    exact .poll
  | handle io =>
    cases hhandlers : s.handlers with
    | nil => simp only [step, hhandlers] at h; cases h
    | cons handler rest =>
      by_cases hread : handler = .read
      · subst hread
        exact handle_read hhandlers h
      · simp only [step, hhandlers, bind_eq_ok_iff, enabled_eq_ok_iff, pure_eq_ok_iff, hread,
          if_false, Prod.mk.injEq] at h
        obtain ⟨_, _, ⟨conn, effects⟩, hcall, rfl, rfl⟩ := h
        cases handler with
        | close =>
          obtain ⟨_, _, rfl, rfl⟩ := TcpConnection.handleClose_eq_ok hcall
          exact .closes hhandlers
        | error =>
          simp only [TcpConnection.callBack, TcpConnection.handleError, pure_eq_ok_iff,
            Prod.mk.injEq] at hcall
          obtain ⟨rfl, rfl⟩ := hcall
          exact .quiet hhandlers (by simp) rfl
        | read => exact absurd rfl hread
        | write =>
          obtain ⟨_, hwrite⟩ := TcpConnection.handleWrite_eq_ok hcall
          cases hwrite with
          | idle hmore => exact .quiet hhandlers (by simp) rfl
          | some hmore hwriting hsplit hout => exact .quiet hhandlers (by simp) rfl
          | drained hdrains hout =>
            split
            · exact .quiet hhandlers (by simp) rfl
            · exact .quiet hhandlers (by simp) rfl
  | call c =>
    simp only [step, bind_eq_ok_iff, pure_eq_ok_iff, Prod.mk.injEq] at h
    obtain ⟨⟨conn, effects⟩, hcall, rfl, rfl⟩ := h
    exact .call (TcpConnection.call_input hcall)
  | retrieve len =>
    simp only [step, bind_eq_ok_iff, pure_eq_ok_iff, Prod.mk.injEq] at h
    obtain ⟨input, hretrieve, rfl, rfl⟩ := h
    exact .retrieve (WfBuffer.retrieve_eq_ok hretrieve).2

/-- The books of a connection: all bytes that have come are offered or still unread, and all
    that were offered are in the input buffer or were taken from there. -/
structure Books (tr : List InboundEvent) (s : Inbound) : Prop where
  stream : offered tr ++ s.unread = received tr
  buffer : retrieved tr ++ s.conn.inputBuffer_.contents = offered tr
  fin : s.fin = true ↔ .fin ∈ tr

@[simp] theorem offered_append : offered (tr ++ es) = offered tr ++ offered es :=
  List.flatMap_append

@[simp] theorem received_append : received (tr ++ es) = received tr ++ received es :=
  List.flatMap_append

@[simp] theorem retrieved_append : retrieved (tr ++ es) = retrieved tr ++ retrieved es :=
  List.flatMap_append

/-- Events that move no bytes leave the books as they are. -/
theorem Books.quiet (h : Books tr s) (hoffered : offered es = []) (hreceived : received es = [])
    (hretrieved : retrieved es = []) (hunread : s'.unread = s.unread)
    (hinput : s'.conn.inputBuffer_.contents = s.conn.inputBuffer_.contents)
    (hfin : s'.fin = true ↔ s.fin = true ∨ .fin ∈ es) : Books (tr ++ es) s' where
  stream := by
    rw [offered_append, received_append, hoffered, hreceived, hunread, List.append_nil,
      List.append_nil]
    exact h.stream
  buffer := by
    rw [retrieved_append, offered_append, hretrieved, hoffered, hinput, List.append_nil,
      List.append_nil]
    exact h.buffer
  fin := by rw [hfin, h.fin, List.mem_append]

theorem books_step {a : InboundAction} (h : Books tr s) (hstep : Step s a es s') :
    Books (tr ++ es) s' := by
  cases hstep with
  | @receive data hopen =>
    refine ⟨?_, ?_, by simp [h.fin]⟩
    · have hnew : received [.received data] = data := List.append_nil data
      have hnone : offered [.received data] = [] := rfl
      rw [offered_append, received_append, hnone, hnew, List.append_nil, ← h.stream,
        List.append_assoc]
    · have hnone : offered [.received data] = [] := rfl
      have hnone' : retrieved [.received data] = [] := rfl
      rw [offered_append, retrieved_append, hnone, hnone', List.append_nil, List.append_nil]
      exact h.buffer
  | receiveFin => exact h.quiet rfl rfl rfl rfl rfl (by simp)
  | poll => exact h.quiet rfl rfl rfl rfl rfl (by simp)
  | @offers io rest data input hhandlers hbegins hinput =>
    have hnew : offered [.offered data] = data := List.append_nil data
    have hnone : received [.offered data] = [] := rfl
    have hnone' : retrieved [.offered data] = [] := rfl
    refine ⟨?_, ?_, by simp [h.fin]⟩
    · obtain ⟨rest', hsplit⟩ := hbegins
      rw [offered_append, received_append, hnew, hnone, List.append_nil, ← h.stream, ← hsplit,
        List.drop_left, List.append_assoc]
    · rw [offered_append, retrieved_append, hnew, hnone', List.append_nil, hinput, ← h.buffer,
        List.append_assoc]
  | ends hhandlers hfin hunread hinput => exact h.quiet rfl rfl rfl rfl hinput (by simp)
  | closes hhandlers => exact h.quiet rfl rfl rfl rfl rfl (by simp)
  | quiet hhandlers hhandler hinput =>
    exact h.quiet rfl rfl rfl rfl (congrArg WfBuffer.contents hinput) (by simp)
  | call hinput => exact h.quiet rfl rfl rfl rfl (congrArg WfBuffer.contents hinput) (by simp)
  | @retrieve len input hinput =>
    have hnew : retrieved [.retrieved (s.conn.inputBuffer_.contents.take len)] =
      s.conn.inputBuffer_.contents.take len := List.append_nil _
    refine ⟨?_, ?_, by simp [h.fin]⟩
    · have hnone : offered [.retrieved (s.conn.inputBuffer_.contents.take len)] = [] := rfl
      have hnone' : received [.retrieved (s.conn.inputBuffer_.contents.take len)] = [] := rfl
      rw [offered_append, received_append, hnone, hnone', List.append_nil, List.append_nil]
      exact h.stream
    · have hnone : offered [.retrieved (s.conn.inputBuffer_.contents.take len)] = [] := rfl
      rw [offered_append, retrieved_append, hnone, hnew, List.append_nil, hinput,
        List.append_assoc, List.take_append_drop]
      exact h.buffer

theorem reach_books {C : StepCondition Inbound InboundAction InboundEvent}
    (h : machine.Reach C tr s) : Books tr s := by
  refine Machine.Reach.invariant (I := fun tr s => Books tr s) ?_ ?_ h
  · rintro s ⟨loop, name, sockfd, rfl⟩
    exact ⟨rfl, WfBuffer.contents_new, by simp [new]⟩
  · exact fun _ _ _ _ _ _ hbooks _ hstep => books_step hbooks (step_cases hstep)

theorem Books.drained_iff (h : Books tr s) :
    (.fin ∈ tr ∧ offered tr = received tr) ↔ s.fin = true ∧ s.unread = [] := by
  rw [← h.fin, ← h.stream]
  simp

/-- A step keeps the property exactly when it is no close callback that comes too early:
    at the end of the stream, all of it has been read. -/
theorem Step.allOffered_iff {a : InboundAction} (hstep : Step s a es s') (hbooks : Books tr s)
    (hbefore : AllOffered tr) : AllOffered (tr ++ es) ↔ hangsUpDry tr s a := by
  refine Iff.trans (guarded_append_iff hbefore) ?_
  have hclosing : Guarded (· = InboundEvent.closing)
      (fun before => .fin ∈ tr ++ before ∧ offered (tr ++ before) = received (tr ++ before))
      [.closing] ↔ s.fin = true ∧ s.unread = [] := by
    rw [← hbooks.drained_iff]
    refine (guarded_singleton_iff (p := (· = InboundEvent.closing)) rfl).trans ?_
    rw [List.append_nil]
  have hquiet : ∀ {es : List InboundEvent}, (∀ e ∈ es, ¬ e = .closing) → hangsUpDry tr s a →
      (Guarded (· = InboundEvent.closing)
        (fun before => .fin ∈ tr ++ before ∧ offered (tr ++ before) = received (tr ++ before))
        es ↔ hangsUpDry tr s a) :=
    fun hnone hdry => iff_of_true (guarded_of_forall_not hnone) hdry
  cases hstep with
  | receive hopen => exact hquiet (by simp) trivial
  | receiveFin => exact hquiet (by simp) trivial
  | poll => exact hquiet nofun trivial
  | offers hhandlers hbegins hinput =>
    refine hquiet (by simp) ?_
    rw [hangsUpDry, hhandlers]
    nofun
  | ends hhandlers hfin hunread hinput =>
    refine iff_of_true (hclosing.mpr ⟨hfin, hunread⟩) ?_
    rw [hangsUpDry, hhandlers]
    nofun
  | closes hhandlers =>
    rw [hclosing, hangsUpDry, hhandlers]
    exact ⟨fun h _ => h, fun h => h rfl⟩
  | quiet hhandlers hhandler hinput =>
    refine hquiet nofun ?_
    rw [hangsUpDry, hhandlers]
    intro hhead
    exact absurd (Option.some.inj hhead) hhandler
  | call hinput => exact hquiet nofun trivial
  | retrieve hinput => exact hquiet (by simp) trivial

/-- In a run nothing that was received is left behind by a close if and only if the close
    callback of a hang-up never comes while the FIN or some byte is still to be read. What is
    offered is what goes through the input buffer. -/
theorem all_offered_iff (h : machine.Reach anyStep tr s) :
    retrieved tr ++ s.conn.inputBuffer_.contents = offered tr ∧
      (AllOffered tr ↔ machine.Reach hangsUpDry tr s) := by
  refine ⟨(reach_books h).buffer, ?_⟩
  refine h.iff_condition (guarded_nil) (fun tr es hall => hall.of_append) ?_
  intro _ _ _ _ _ hreach hbefore hstep
  exact (step_cases hstep).allOffered_iff (reach_books hreach) hbefore

theorem init_new (loop : LoopId) (name : Name) (sockfd : Int) :
    machine.init (new loop name sockfd) :=
  ⟨loop, name, sockfd, rfl⟩

/-- The peer answers a `shutdown()` and closes, and the report comes behind a read. -/
theorem all_offered_before_hangup :
    ∃ tr s, machine.Reach hangsUpDry tr s ∧ .closing ∈ tr ∧ received tr = [104, 105] ∧
      AllOffered tr := by
  have hruns : machine.runsIn hangsUpDry (new 0 [] 5)
      [.call .connectEestablished, .call .shutdown, .receive [104, 105], .poll POLLIN,
        .handle ⟨.delivered [104, 105], .failed 0⟩, .receiveFin,
        .poll (POLLIN ||| POLLHUP), .handle ⟨.failed 0, .failed 0⟩]
      (fun tr _ => .closing ∈ tr ∧ received tr = [104, 105]) = true := by
    decide +kernel
  obtain ⟨tr, s, hreach, htest⟩ := Machine.exists_reachIn (init_new 0 [] 5) hruns
  obtain ⟨hclosing, hreceived⟩ := of_decide_eq_true htest
  exact ⟨tr, s, hreach, hclosing, hreceived, (all_offered_iff hreach.any).2.mpr hreach⟩

/-- The same peer, whose bytes and FIN are reported at once. -/
theorem unread_at_hangup :
    ∃ tr s, machine.Reach anyStep tr s ∧ ¬ AllOffered tr := by
  have hruns : machine.runs (new 0 [] 5)
      [.call .connectEestablished, .call .shutdown, .receive [104, 105], .receiveFin,
        .poll (POLLIN ||| POLLHUP), .handle ⟨.failed 0, .failed 0⟩]
      (fun tr _ => tr = [.received [104, 105], .fin, .closing]) = true := by
    decide +kernel
  obtain ⟨tr, s, hreach, htest⟩ := Machine.exists_reach (init_new 0 [] 5) hruns
  refine ⟨tr, s, hreach, fun hall => ?_⟩
  rw [of_decide_eq_true htest] at hall
  have hoffered := (hall [.received [104, 105], .fin] .closing [] rfl rfl).2
  cases hoffered

end Inbound

end TcpNet
