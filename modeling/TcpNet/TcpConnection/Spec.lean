import TcpNet.TcpConnection

open Transition

namespace TcpNet

theorem WriteResult.write_le (result : WriteResult) (data : Bytes) :
    result.write data ≤ data.length := by
  cases result with
  | accepted n =>
    have hmin := Nat.min_le_right n data.length
    simp only [write]
    omega
  | failed errno =>
    simp only [write]
    omega

/-- The bytes that a list of effects handed to the kernel, in order. -/
def writtenBytes (effects : List Effect) : Bytes :=
  effects.flatMap fun
    | .written data => data
    | _ => []

@[simp] theorem writtenBytes_nil : writtenBytes [] = [] := rfl

@[simp] theorem writtenBytes_cons (e : Effect) (effects : List Effect) :
    writtenBytes (e :: effects) = writtenBytes [e] ++ writtenBytes effects := by
  simp [writtenBytes]

@[simp] theorem writtenBytes_append (before after : List Effect) :
    writtenBytes (before ++ after) = writtenBytes before ++ writtenBytes after :=
  List.flatMap_append

/-- Neither a callback to the owner of the connection nor its last goodbye. -/
def Effect.isPlain : Effect → Bool
  | .connectionCallBack _ | .closeCallBack | .removeChannel => false
  | _ => true

namespace TcpConnection

/-- Output waits in the buffer only while the channel asks for write events or
    has been disabled as a whole. -/
def BacklogWatched (conn : TcpConnection) : Prop :=
  conn.outputBuffer_.contents ≠ [] →
    conn.channel_.isWriting = true ∨ conn.channel_.event_ = Channel.kNoneEvent

/-- The write of `handleWrite` empties the buffer. -/
def Drains (conn : TcpConnection) (io : WriteResult) : Prop :=
  conn.channel_.isWriting = true ∧ conn.outputBuffer_.contents ≠ [] ∧
    io.write conn.outputBuffer_.contents = conn.outputBuffer_.contents.length

/-- Nothing of `message` needs the buffer: it is empty, or the kernel takes all of
    it at once. -/
def SendsWhole (conn : TcpConnection) (message : Bytes) (io : WriteResult) : Prop :=
  message = [] ∨ conn.outputBuffer_.contents = [] ∧ io.write message = message.length

instance (conn : TcpConnection) (io : WriteResult) : Decidable (conn.Drains io) :=
  inferInstanceAs (Decidable (_ ∧ _ ∧ _))

instance (conn : TcpConnection) (message : Bytes) (io : WriteResult) :
    Decidable (conn.SendsWhole message io) :=
  inferInstanceAs (Decidable (_ ∨ _ ∧ _))

/-- The effects before `enableWriting` in `sendInloop`: at most one write. -/
def DirectWrite (sent : List Effect) : Prop := sent = [] ∨ ∃ data, sent = [.written data]

theorem connectEestablished_eq_ok {conn conn' : TcpConnection} {here : ThreadId}
    {effects : List Effect} (h : conn.connectEestablished here = .ok (conn', effects)) :
    here = conn.loop_ ∧ conn.state_ = .kConnecting ∧
      conn' = { conn with state_ := .kConnected, channel_ := conn.channel_.enableReading } ∧
      effects = [.updateChannel, .connectionCallBack .kConnected] := by
  simp only [connectEestablished, assertInLoopThread, bind_eq_ok_iff, require_eq_ok_iff,
    pure_eq_ok_iff, Prod.mk.injEq] at h
  obtain ⟨_, hthread, _, hstate, rfl, rfl⟩ := h
  exact ⟨hthread, hstate, rfl, rfl⟩

theorem connectDestory_eq_ok {conn conn' : TcpConnection} {here : ThreadId}
    {effects : List Effect} (h : conn.connectDestory here = .ok (conn', effects)) :
    here = conn.loop_ ∧ (conn.state_ = .kConnected ∨ conn.state_ = .kDisconnecting) ∧
      conn' = { conn with state_ := .kDisconnected, channel_ := conn.channel_.disableAll } ∧
      effects = [.updateChannel, .connectionCallBack .kDisconnected, .removeChannel] := by
  simp only [connectDestory, assertInLoopThread, bind_eq_ok_iff, require_eq_ok_iff,
    pure_eq_ok_iff, Prod.mk.injEq] at h
  obtain ⟨_, hthread, _, hstate, rfl, rfl⟩ := h
  exact ⟨hthread, hstate, rfl, rfl⟩

theorem handleClose_eq_ok {conn conn' : TcpConnection} {here : ThreadId}
    {effects : List Effect} (h : conn.handleClose here = .ok (conn', effects)) :
    here = conn.loop_ ∧ (conn.state_ = .kConnected ∨ conn.state_ = .kDisconnecting) ∧
      conn' = { conn with channel_ := conn.channel_.disableAll } ∧
      effects = [.updateChannel, .closeCallBack] := by
  simp only [handleClose, assertInLoopThread, bind_eq_ok_iff, require_eq_ok_iff,
    pure_eq_ok_iff, Prod.mk.injEq] at h
  obtain ⟨_, hthread, _, hstate, rfl, rfl⟩ := h
  exact ⟨hthread, hstate, rfl, rfl⟩

theorem shutdownInloop_eq_ok {conn conn' : TcpConnection} {here : ThreadId}
    {effects : List Effect} (h : conn.shutdownInloop here = .ok (conn', effects)) :
    here = conn.loop_ ∧ conn' = conn ∧
      effects = if conn.channel_.isWriting = false then [.shutdownWrite] else [] := by
  simp only [shutdownInloop, assertInLoopThread, bind_eq_ok_iff, require_eq_ok_iff] at h
  obtain ⟨_, hthread, h⟩ := h
  split at h <;> rename_i hwriting <;> simp only [pure_eq_ok_iff, Prod.mk.injEq] at h
  · exact ⟨hthread, h.1.symm, by rw [if_pos hwriting, h.2]⟩
  · exact ⟨hthread, h.1.symm, by rw [if_neg hwriting, h.2]⟩

/-- A read either ends in a callback or a log line, or it found the end of the
    stream and closed. -/
theorem handleRead_eq_ok {conn conn' : TcpConnection} {here : ThreadId} {io : ReadResult}
    {effects : List Effect} (h : conn.handleRead here io = .ok (conn', effects)) :
    ∃ input, conn' = { conn with inputBuffer_ := input } ∧
        (effects = [.messageCallBack] ∨ effects = []) ∨
      here = conn.loop_ ∧ (conn.state_ = .kConnected ∨ conn.state_ = .kDisconnecting) ∧
        conn' = { conn with inputBuffer_ := input, channel_ := conn.channel_.disableAll } ∧
        effects = [.updateChannel, .closeCallBack] := by
  simp only [handleRead] at h
  refine ⟨(conn.inputBuffer_.readFd io).2.2, ?_⟩
  split at h
  · simp only [pure_eq_ok_iff, Prod.mk.injEq] at h
    exact .inl ⟨h.1.symm, .inl h.2.symm⟩
  · split at h
    · exact .inr (handleClose_eq_ok h)
    · simp only [handleError, pure_eq_ok_iff, Prod.mk.injEq] at h
      exact .inl ⟨h.1.symm, .inr h.2.symm⟩

/-- What a write event can come to: nothing is taken, the kernel takes a part of
    the buffer, or it takes all and the interest in write events ends. -/
inductive HandleWrite (conn : TcpConnection) (io : WriteResult) :
    TcpConnection → List Effect → Prop
  | idle (hmore : ¬ conn.Drains io) : HandleWrite conn io conn []
  | some {sent rest : Bytes} {out : WfBuffer} (hmore : ¬ conn.Drains io)
      (hwriting : conn.channel_.isWriting = true)
      (hsplit : conn.outputBuffer_.contents = sent ++ rest) (hout : out.contents = rest) :
      HandleWrite conn io { conn with outputBuffer_ := out } [.written sent]
  | drained {out : WfBuffer} (hdrains : conn.Drains io) (hout : out.contents = []) :
      HandleWrite conn io
        { conn with outputBuffer_ := out, channel_ := conn.channel_.disableWriting }
        (.written conn.outputBuffer_.contents :: .updateChannel ::
          if conn.state_ = .kDisconnecting then [.shutdownWrite] else [])

theorem handleWrite_eq_ok {conn conn' : TcpConnection} {here : ThreadId} {io : WriteResult}
    {effects : List Effect} (h : conn.handleWrite here io = .ok (conn', effects)) :
    here = conn.loop_ ∧ HandleWrite conn io conn' effects := by
  simp only [handleWrite, assertInLoopThread, bind_eq_ok_iff, require_eq_ok_iff] at h
  obtain ⟨_, hthread, h⟩ := h
  refine ⟨hthread, ?_⟩
  have hle := io.write_le conn.outputBuffer_.contents
  have hlength := conn.outputBuffer_.length_contents
  by_cases hwriting : conn.channel_.isWriting = true
  · rw [if_pos hwriting] at h
    by_cases hpositive : io.write conn.outputBuffer_.contents > 0
    · simp only [if_pos hpositive, bind_eq_ok_iff] at h
      obtain ⟨out, hretrieve, h⟩ := h
      obtain ⟨_, hcontents⟩ := WfBuffer.retrieve_eq_ok hretrieve
      by_cases hempty : out.readableBytes = 0
      · have hnil := (out.contents_eq_nil_iff).mpr hempty
        have hall : conn.outputBuffer_.contents.length ≤
            (io.write conn.outputBuffer_.contents).toNat := by
          rw [hnil] at hcontents
          exact List.drop_eq_nil_iff.mp hcontents.symm
        have hdrains : conn.Drains io := by
          refine ⟨hwriting, ?_, by omega⟩
          intro hnone
          rw [hnone] at hle hpositive
          simp only [List.length_nil] at hle
          omega
        rw [if_pos hempty, List.take_of_length_le hall] at h
        have hout := HandleWrite.drained hdrains hnil
        by_cases hstate : conn.state_ = .kDisconnecting
        · simp only [if_pos hstate, bind_eq_ok_iff, shutdownInloop, assertInLoopThread,
            require_eq_ok_iff, Channel.isWriting_disableWriting, if_true, pure_eq_ok_iff,
            Prod.mk.injEq] at h
          obtain ⟨⟨_, _⟩, ⟨_, _, rfl, rfl⟩, rfl, rfl⟩ := h
          rw [if_pos hstate] at hout
          exact hout
        · simp only [if_neg hstate, pure_eq_ok_iff, Prod.mk.injEq] at h
          obtain ⟨rfl, rfl⟩ := h
          rw [if_neg hstate] at hout
          exact hout
      · simp only [if_neg hempty, pure_eq_ok_iff, Prod.mk.injEq] at h
        obtain ⟨rfl, rfl⟩ := h
        refine .some ?_ hwriting ?_ hcontents
        · intro hdrains
          have htake := hdrains.2.2
          apply hempty
          rw [← out.contents_eq_nil_iff, hcontents, htake]
          simp
        · exact (List.take_append_drop _ _).symm
    · simp only [if_neg hpositive, pure_eq_ok_iff, Prod.mk.injEq] at h
      obtain ⟨rfl, rfl⟩ := h
      refine .idle (fun hdrains => hpositive ?_)
      have hlong := List.length_pos_iff.mpr hdrains.2.1
      have hwrite := hdrains.2.2
      omega
  · rw [if_neg hwriting, pure_eq_ok_iff, Prod.mk.injEq] at h
    obtain ⟨rfl, rfl⟩ := h
    exact .idle (fun hdrains => hwriting hdrains.1)

/-- What a send can come to: nothing is left for the buffer, or the rest of the
    message goes behind the bytes already waiting there. -/
inductive SendInloop (conn : TcpConnection) (message : Bytes) (io : WriteResult) :
    TcpConnection → List Effect → Prop
  | taken {sent : List Effect} (hsent : DirectWrite sent) (hall : writtenBytes sent = message)
      (hwhole : conn.SendsWhole message io) : SendInloop conn message io conn sent
  | buffered {sent : List Effect} {rest : Bytes} {out : WfBuffer} (hsent : DirectWrite sent)
      (hsplit : message = writtenBytes sent ++ rest)
      (hnext : writtenBytes sent ≠ [] → conn.outputBuffer_.contents = [])
      (hout : out.contents = conn.outputBuffer_.contents ++ rest)
      (hwriting : conn.channel_.isWriting = true) :
      SendInloop conn message io { conn with outputBuffer_ := out } sent
  | watched {sent : List Effect} {rest : Bytes} {out : WfBuffer} (hsent : DirectWrite sent)
      (hsplit : message = writtenBytes sent ++ rest)
      (hnext : writtenBytes sent ≠ [] → conn.outputBuffer_.contents = [])
      (hout : out.contents = conn.outputBuffer_.contents ++ rest)
      (hwriting : conn.channel_.isWriting = false) (hpart : ¬ conn.SendsWhole message io) :
      SendInloop conn message io
        { conn with outputBuffer_ := out, channel_ := conn.channel_.enableWriting }
        (sent ++ [.updateChannel])

/-- The end of `sendInloop`, behind the direct write. -/
theorem sendInloop_rest {conn conn' : TcpConnection} {message : Bytes} {io : WriteResult}
    {n : Nat} {sent effects : List Effect} (hsent : DirectWrite sent)
    (hwritten : writtenBytes sent = message.take n)
    (hnext : writtenBytes sent ≠ [] → conn.outputBuffer_.contents = [])
    (hwhole : message.length ≤ n → conn.SendsWhole message io)
    (hpart : n < message.length → conn.channel_.isWriting = false → ¬ conn.SendsWhole message io)
    (h : (if (n : Int) < message.length then
        if conn.channel_.isWriting = false then
          .ok ({ conn with outputBuffer_ := conn.outputBuffer_.append (message.drop n),
                           channel_ := conn.channel_.enableWriting }, sent ++ [.updateChannel])
        else .ok ({ conn with outputBuffer_ := conn.outputBuffer_.append (message.drop n) }, sent)
      else (.ok (conn, sent) : Except Stop (TcpConnection × List Effect))) =
        .ok (conn', effects)) :
    SendInloop conn message io conn' effects := by
  have hsplit : message = writtenBytes sent ++ message.drop n := by
    rw [hwritten, List.take_append_drop]
  have hout := conn.outputBuffer_.contents_append (message.drop n)
  by_cases hless : n < message.length
  · rw [if_pos (by omega)] at h
    by_cases hwriting : conn.channel_.isWriting = false
    · rw [if_pos hwriting, Except.ok.injEq, Prod.mk.injEq] at h
      obtain ⟨rfl, rfl⟩ := h
      exact .watched hsent hsplit hnext hout hwriting (hpart hless hwriting)
    · rw [if_neg hwriting, Except.ok.injEq, Prod.mk.injEq] at h
      obtain ⟨rfl, rfl⟩ := h
      exact .buffered hsent hsplit hnext hout (by simpa using hwriting)
  · rw [if_neg (by omega), Except.ok.injEq, Prod.mk.injEq] at h
    obtain ⟨rfl, rfl⟩ := h
    refine .taken hsent ?_ (hwhole (by omega))
    rw [hwritten, List.take_of_length_le (by omega)]

theorem sendInloop_eq_ok {conn conn' : TcpConnection} {here : ThreadId} {message : Bytes}
    {io : WriteResult} {effects : List Effect}
    (h : conn.sendInloop here message io = .ok (conn', effects)) :
    here = conn.loop_ ∧ SendInloop conn message io conn' effects := by
  simp only [sendInloop, assertInLoopThread, bind_eq_ok_iff, require_eq_ok_iff] at h
  obtain ⟨_, hthread, _, _, h⟩ := h
  refine ⟨hthread, ?_⟩
  have hle := io.write_le message
  by_cases hdirect : conn.channel_.isWriting = false ∧ conn.outputBuffer_.readableBytes = 0
  · have hempty := conn.outputBuffer_.contents_eq_nil_iff.mpr hdirect.2
    by_cases hgo : io.write message ≥ 0
    · simp only [if_pos hdirect, if_pos hgo] at h
      obtain ⟨n, hn⟩ := Int.eq_ofNat_of_zero_le hgo
      rw [hn, Int.toNat_natCast] at h
      refine sendInloop_rest (n := n) (.inr ⟨_, rfl⟩) (by simp [writtenBytes]) (fun _ => hempty)
        (fun hall => .inr ⟨hempty, by omega⟩) ?_ h
      rintro hless - (hnil | ⟨-, hall⟩)
      · simp [hnil] at hless
      · omega
    · simp only [if_pos hdirect, if_neg hgo] at h
      refine sendInloop_rest (n := 0) (.inl rfl) (by simp) (fun _ => hempty)
        (fun hall => .inl (List.length_eq_zero_iff.mp (by omega))) ?_ h
      rintro hless - (hnil | ⟨-, hall⟩)
      · simp [hnil] at hless
      · omega
  · simp only [if_neg hdirect] at h
    refine sendInloop_rest (n := 0) (.inl rfl) (by simp) (by simp)
      (fun hall => .inl (List.length_eq_zero_iff.mp (by omega))) ?_ h
    rintro hless hwriting (hnil | ⟨hempty, -⟩)
    · simp [hnil] at hless
    · exact hdirect ⟨hwriting, conn.outputBuffer_.contents_eq_nil_iff.mp hempty⟩

theorem connectEestablished_goes_through {conn : TcpConnection} {here : ThreadId}
    (hthread : here = conn.loop_) (hstate : conn.state_ = .kConnecting) :
    ∃ out, conn.connectEestablished here = .ok out := by
  rw [connectEestablished, assertInLoopThread, require_of hthread, ok_bind, require_of hstate,
    ok_bind]
  exact ⟨_, rfl⟩

theorem connectDestory_goes_through {conn : TcpConnection} {here : ThreadId}
    (hthread : here = conn.loop_)
    (hstate : conn.state_ = .kConnected ∨ conn.state_ = .kDisconnecting) :
    ∃ out, conn.connectDestory here = .ok out := by
  rw [connectDestory, assertInLoopThread, require_of hthread, ok_bind, require_of hstate, ok_bind]
  exact ⟨_, rfl⟩

theorem handleClose_goes_through {conn : TcpConnection} {here : ThreadId}
    (hthread : here = conn.loop_)
    (hstate : conn.state_ = .kConnected ∨ conn.state_ = .kDisconnecting) :
    ∃ out, conn.handleClose here = .ok out := by
  rw [handleClose, assertInLoopThread, require_of hthread, ok_bind, require_of hstate, ok_bind]
  exact ⟨_, rfl⟩

theorem shutdownInloop_goes_through {conn : TcpConnection} {here : ThreadId}
    (hthread : here = conn.loop_) : ∃ out, conn.shutdownInloop here = .ok out := by
  rw [shutdownInloop, assertInLoopThread, require_of hthread, ok_bind]
  split <;> exact ⟨_, rfl⟩

theorem handleRead_goes_through {conn : TcpConnection} {here : ThreadId} (io : ReadResult)
    (hthread : here = conn.loop_)
    (hstate : conn.state_ = .kConnected ∨ conn.state_ = .kDisconnecting) :
    ∃ out, conn.handleRead here io = .ok out := by
  simp only [handleRead]
  split
  · exact ⟨_, rfl⟩
  · split
    · exact handleClose_goes_through hthread hstate
    · exact ⟨_, rfl⟩

theorem handleWrite_goes_through {conn : TcpConnection} {here : ThreadId} (io : WriteResult)
    (hthread : here = conn.loop_) : ∃ out, conn.handleWrite here io = .ok out := by
  rw [handleWrite, assertInLoopThread, require_of hthread, ok_bind]
  have hle := io.write_le conn.outputBuffer_.contents
  have hlength := conn.outputBuffer_.length_contents
  split
  · by_cases hpositive : io.write conn.outputBuffer_.contents > 0
    · have hfit : (io.write conn.outputBuffer_.contents).toNat ≤
          conn.outputBuffer_.readableBytes := by omega
      obtain ⟨out, hretrieve, _⟩ := conn.outputBuffer_.retrieve_spec hfit
      simp only [if_pos hpositive, hretrieve, ok_bind]
      split
      · split
        · have hthread' : here = { conn with
              outputBuffer_ := out, channel_ := conn.channel_.disableWriting }.loop_ := hthread
          obtain ⟨_, hshutdown⟩ := shutdownInloop_goes_through hthread'
          rw [hshutdown, ok_bind]
          exact ⟨_, rfl⟩
        · exact ⟨_, rfl⟩
      · exact ⟨_, rfl⟩
    · simp only [if_neg hpositive]
      exact ⟨_, rfl⟩
  · exact ⟨_, rfl⟩

theorem sendInloop_goes_through {conn : TcpConnection} {here : ThreadId} (message : Bytes)
    (io : WriteResult) (hthread : here = conn.loop_) :
    ∃ out, conn.sendInloop here message io = .ok out := by
  rw [sendInloop, assertInLoopThread, require_of hthread, ok_bind]
  split
  rename_i nWrote sent hdirect
  have hnWrote : nWrote ≥ 0 := by
    split at hdirect
    · simp only at hdirect
      split at hdirect
      · rename_i hgo
        simp only [Prod.mk.injEq] at hdirect
        omega
      · simp only [Prod.mk.injEq] at hdirect
        omega
    · simp only [Prod.mk.injEq] at hdirect
      omega
  rw [require_of hnWrote, ok_bind]
  split
  · simp only
    split <;> exact ⟨_, rfl⟩
  · exact ⟨_, rfl⟩

theorem callBack_goes_through {conn : TcpConnection} {here : ThreadId} (handler : Handler)
    (io : IoResult) (hthread : here = conn.loop_)
    (hstate : conn.state_ = .kConnected ∨ conn.state_ = .kDisconnecting) :
    ∃ out, conn.callBack here handler io = .ok out := by
  cases handler with
  | close => exact handleClose_goes_through hthread hstate
  | error => exact ⟨_, rfl⟩
  | read => exact handleRead_goes_through io.read hthread hstate
  | write => exact handleWrite_goes_through io.write hthread

/-- `conn'` is the same connection at a later time: loop and name never change. -/
structure Same (conn conn' : TcpConnection) : Prop where
  loop : conn'.loop_ = conn.loop_
  name : conn'.name_ = conn.name_

/-- A handler keeps the state, whichever it is. -/
theorem callBack_same {conn conn' : TcpConnection} {here : ThreadId} {handler : Handler}
    {io : IoResult} {effects : List Effect}
    (h : conn.callBack here handler io = .ok (conn', effects)) :
    conn.Same conn' ∧ conn'.state_ = conn.state_ := by
  cases handler with
  | close =>
    obtain ⟨_, _, rfl, _⟩ := handleClose_eq_ok h
    exact ⟨⟨rfl, rfl⟩, rfl⟩
  | error =>
    simp only [callBack, handleError, pure_eq_ok_iff, Prod.mk.injEq] at h
    obtain ⟨rfl, _⟩ := h
    exact ⟨⟨rfl, rfl⟩, rfl⟩
  | read =>
    obtain ⟨_, ⟨rfl, _⟩ | ⟨_, _, rfl, _⟩⟩ := handleRead_eq_ok h <;>
      exact ⟨⟨rfl, rfl⟩, rfl⟩
  | write =>
    obtain ⟨_, hwrite⟩ := handleWrite_eq_ok h
    cases hwrite <;> exact ⟨⟨rfl, rfl⟩, rfl⟩

theorem sendInloop_same {conn conn' : TcpConnection} {here : ThreadId} {message : Bytes}
    {io : WriteResult} {effects : List Effect}
    (h : conn.sendInloop here message io = .ok (conn', effects)) :
    conn.Same conn' ∧ conn'.state_ = conn.state_ := by
  obtain ⟨_, hsend⟩ := sendInloop_eq_ok h
  cases hsend <;> exact ⟨⟨rfl, rfl⟩, rfl⟩

theorem DirectWrite.isPlain {sent : List Effect} (h : DirectWrite sent) :
    ∀ e ∈ sent, e.isPlain = true := by
  rcases h with rfl | ⟨data, rfl⟩ <;> simp [Effect.isPlain]

theorem shutdownInloop_isPlain {conn conn' : TcpConnection} {here : ThreadId}
    {effects : List Effect} (h : conn.shutdownInloop here = .ok (conn', effects)) :
    ∀ e ∈ effects, e.isPlain = true := by
  obtain ⟨_, _, rfl⟩ := shutdownInloop_eq_ok h
  split <;> simp [Effect.isPlain]

theorem sendInloop_isPlain {conn conn' : TcpConnection} {here : ThreadId} {message : Bytes}
    {io : WriteResult} {effects : List Effect}
    (h : conn.sendInloop here message io = .ok (conn', effects)) :
    ∀ e ∈ effects, e.isPlain = true := by
  obtain ⟨_, hsend⟩ := sendInloop_eq_ok h
  cases hsend with
  | taken hsent _ _ => exact hsent.isPlain
  | buffered hsent _ _ _ _ => exact hsent.isPlain
  | watched hsent _ _ _ _ _ =>
    intro e he
    rcases List.mem_append.mp he with he | he
    · exact hsent.isPlain e he
    · rw [List.mem_singleton.mp he]
      rfl

/-- A handler does not reach beyond the poller, unless it closes. -/
theorem callBack_effects {conn conn' : TcpConnection} {here : ThreadId} {handler : Handler}
    {io : IoResult} {effects : List Effect}
    (h : conn.callBack here handler io = .ok (conn', effects)) :
    (∀ e ∈ effects, e.isPlain = true) ∨ effects = [.updateChannel, .closeCallBack] := by
  cases handler with
  | close =>
    obtain ⟨_, _, _, rfl⟩ := handleClose_eq_ok h
    exact .inr rfl
  | error =>
    simp only [callBack, handleError, pure_eq_ok_iff, Prod.mk.injEq] at h
    obtain ⟨_, rfl⟩ := h
    exact .inl (by simp)
  | read =>
    obtain ⟨_, ⟨_, rfl | rfl⟩ | ⟨_, _, _, rfl⟩⟩ := handleRead_eq_ok h
    · exact .inl (by simp [Effect.isPlain])
    · exact .inl (by simp)
    · exact .inr rfl
  | write =>
    obtain ⟨_, hwrite⟩ := handleWrite_eq_ok h
    left
    cases hwrite with
    | idle _ => simp
    | some _ _ _ _ => simp [Effect.isPlain]
    | drained _ _ =>
      by_cases hstate : conn.state_ = .kDisconnecting <;> simp [Effect.isPlain, hstate]

/-- A handler moves output from the buffer to the kernel and adds none. -/
theorem callBack_stream {conn conn' : TcpConnection} {here : ThreadId} {handler : Handler}
    {io : IoResult} {effects : List Effect}
    (h : conn.callBack here handler io = .ok (conn', effects)) :
    writtenBytes effects ++ conn'.outputBuffer_.contents = conn.outputBuffer_.contents := by
  cases handler with
  | close =>
    obtain ⟨_, _, rfl, rfl⟩ := handleClose_eq_ok h
    simp [writtenBytes]
  | error =>
    simp only [callBack, handleError, pure_eq_ok_iff, Prod.mk.injEq] at h
    obtain ⟨rfl, rfl⟩ := h
    simp [writtenBytes]
  | read =>
    obtain ⟨_, ⟨rfl, rfl | rfl⟩ | ⟨_, _, rfl, rfl⟩⟩ := handleRead_eq_ok h <;>
      simp [writtenBytes]
  | write =>
    obtain ⟨_, hwrite⟩ := handleWrite_eq_ok h
    cases hwrite with
    | idle _ => simp
    | some _ _ hsplit hout => simp [writtenBytes, hsplit, hout]
    | drained _ hout =>
      by_cases hstate : conn.state_ = .kDisconnecting <;> simp [writtenBytes, hout, hstate]

/-- A send adds its whole message to the output, behind all that is waiting. -/
theorem sendInloop_stream {conn conn' : TcpConnection} {here : ThreadId} {message : Bytes}
    {io : WriteResult} {effects : List Effect}
    (h : conn.sendInloop here message io = .ok (conn', effects)) :
    writtenBytes effects ++ conn'.outputBuffer_.contents =
      conn.outputBuffer_.contents ++ message := by
  obtain ⟨_, hsend⟩ := sendInloop_eq_ok h
  have hadd : ∀ {sent rest}, message = writtenBytes sent ++ rest →
      (writtenBytes sent ≠ [] → conn.outputBuffer_.contents = []) →
      writtenBytes sent ++ (conn.outputBuffer_.contents ++ rest) =
        conn.outputBuffer_.contents ++ message := by
    intro sent rest hsplit hnext
    by_cases hnone : writtenBytes sent = []
    · rw [hsplit, hnone, List.nil_append, List.nil_append]
    · rw [hsplit, hnext hnone, List.nil_append, List.nil_append]
  cases hsend with
  | taken _ hall hwhole =>
    rcases hwhole with hnil | ⟨hempty, _⟩
    · rw [hall, hnil, List.nil_append, List.append_nil]
    · rw [hall, hempty, List.nil_append, List.append_nil]
  | buffered _ hsplit hnext hout _ =>
    rw [hout]
    exact hadd hsplit hnext
  | watched _ hsplit hnext hout _ _ =>
    have hupdate : writtenBytes [.updateChannel] = [] := rfl
    simp only [writtenBytes_append, hupdate, List.append_nil, hout]
    exact hadd hsplit hnext

theorem callBack_watched {conn conn' : TcpConnection} {here : ThreadId} {handler : Handler}
    {io : IoResult} {effects : List Effect} (hwatched : conn.BacklogWatched)
    (h : conn.callBack here handler io = .ok (conn', effects)) : conn'.BacklogWatched := by
  cases handler with
  | close =>
    obtain ⟨_, _, rfl, _⟩ := handleClose_eq_ok h
    exact fun _ => .inr rfl
  | error =>
    simp only [callBack, handleError, pure_eq_ok_iff, Prod.mk.injEq] at h
    rw [← h.1]
    exact hwatched
  | read =>
    obtain ⟨_, ⟨rfl, _⟩ | ⟨_, _, rfl, _⟩⟩ := handleRead_eq_ok h
    · exact hwatched
    · exact fun _ => .inr rfl
  | write =>
    obtain ⟨_, hwrite⟩ := handleWrite_eq_ok h
    cases hwrite with
    | idle _ => exact hwatched
    | some _ hwriting _ _ => exact fun _ => .inl hwriting
    | drained _ hout => exact fun hsome => absurd hout hsome

theorem sendInloop_watched {conn conn' : TcpConnection} {here : ThreadId} {message : Bytes}
    {io : WriteResult} {effects : List Effect} (hwatched : conn.BacklogWatched)
    (h : conn.sendInloop here message io = .ok (conn', effects)) : conn'.BacklogWatched := by
  obtain ⟨_, hsend⟩ := sendInloop_eq_ok h
  cases hsend with
  | taken _ _ _ => exact hwatched
  | buffered _ _ _ _ hwriting => exact fun _ => .inl hwriting
  | watched _ _ _ _ _ _ => exact fun _ => .inl (Channel.isWriting_enableWriting _)

end TcpConnection

end TcpNet
