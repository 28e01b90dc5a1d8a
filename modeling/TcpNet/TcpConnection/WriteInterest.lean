import TcpNet.Poller.Spec
import TcpNet.TcpConnection.Calls

open Transition

namespace TcpNet

/-- A connection and the poller of its loop, which knows the connection's channel as `id`,
    up to the first `handleClose` or `connectDestory`. -/
structure PolledConnection where
  conn : TcpConnection
  poller : Poller
  id : ChannelId
  left : Bool

/-- A call of the connection, a callback of its channel, a call of `updateChannel` or
    `removeChannel` for another channel of the loop, or a poll. -/
inductive PolledAction where
  | call (c : ConnCall)
  | callBack (handler : Handler) (io : IoResult)
  | updateOther (c : ChannelId) (channel : Channel)
  | removeOther (c : ChannelId) (channel : Channel)
  | poll (ready : List ShortEvents)
  deriving DecidableEq

/-- Hand on to the poller what the connection asks of its loop. -/
def Poller.perform (p : Poller) (c : ChannelId) (channel : Channel) :
    List Effect → Except Stop Poller
  | [] => return p
  | .updateChannel :: rest => do
    let p ← p.updateChannel c channel
    p.perform c channel rest
  | .removeChannel :: rest => do
    let p ← p.removeChannel c channel
    p.perform c channel rest
  | .written _ :: rest | .shutdownWrite :: rest | .connectionCallBack _ :: rest
  | .messageCallBack :: rest | .closeCallBack :: rest => p.perform c channel rest

namespace PolledConnection

def new (loop : LoopId) (name : Name) (sockfd : Int) (id : ChannelId) : PolledConnection :=
  ⟨TcpConnection.new loop name sockfd, Poller.new, id, false⟩

/-- The effects of `handleClose` and of `connectDestory`. -/
def leaves (effects : List Effect) : Bool :=
  .closeCallBack ∈ effects || .removeChannel ∈ effects

/-- The connection after a member function, with the effects of that. -/
def after (s : PolledConnection) (conn : TcpConnection) (effects : List Effect) :
    Except Stop PolledConnection := do
  let poller ← s.poller.perform s.id conn.channel_ effects
  return { s with conn := conn, poller := poller, left := leaves effects }

def act (s : PolledConnection) : PolledAction → Except Stop PolledConnection
  | .call c => do
    let (conn, effects) ← s.conn.call c
    s.after conn effects
  | .callBack handler io => do
    -- `poll` ignores a channel that asks for nothing
    enabled (s.conn.channel_.isNoneEvent = false)
    let (conn, effects) ← s.conn.callBack s.conn.loop_ handler io
    s.after conn effects
  | .updateOther c channel => do
    enabled (c ≠ s.id ∧ 0 ≤ channel.fd_)
    return { s with poller := ← s.poller.updateChannel c channel }
  | .removeOther c channel => do
    enabled (c ≠ s.id ∧ 0 ≤ channel.fd_)
    return { s with poller := ← s.poller.removeChannel c channel }
  | .poll ready => do
    let (poller, _) ← s.poller.poll ready
    return { s with poller := poller }

def step (s : PolledConnection) (a : PolledAction) :
    Except Stop (PolledConnection × List Empty) := do
  enabled (s.left = false)
  return (← s.act a, [])

def machine : Machine PolledConnection PolledAction Empty where
  init s := ∃ loop name sockfd id, 0 ≤ sockfd ∧ s = new loop name sockfd id
  step := step

end PolledConnection

/-- The entry of a channel, as the channel wants it. -/
def Poller.Shows (p : Poller) (c : ChannelId) (channel : Channel) : Prop :=
  p.channels_[channel.fd_]? = some c ∧ ∃ pfd, p.entryOf c = some pfd ∧
    pfd.fd = channel.fd_ ∧ pfd.events = channel.event_.setWidth 16

/-- The update of a channel that is new or that the poller shows as it was, and that asks for
    some event. -/
theorem Poller.UpdateChannel.shows {p p' : Poller} {c : ChannelId} {channel old : Channel}
    (hupdate : UpdateChannel p c channel p') (hsome : channel.isNoneEvent = false)
    (hfd : channel.fd_ = old.fd_) (h : p.index_ c < 0 ∨ p.Shows c old) : p'.Shows c channel := by
  cases hupdate with
  | added hnew hfree =>
    refine ⟨Std.ExtTreeMap.getElem?_insert_self, ⟨channel.fd_, channel.event_.setWidth 16, 0⟩, ?_,
      rfl, rfl⟩
    exact Eq.trans (entryOf_of_index (Function.update_self ..)) List.getElem?_concat_length
  | @changed i pfd hindex howner hentry hshape =>
    obtain hnew | ⟨_, pfd', hentry', hpfd', _⟩ := h
    · omega
    · rw [entryOf_of_index hindex, hentry, Option.some.injEq] at hentry'
      subst hentry'
      refine ⟨howner, ⟨if channel.isNoneEvent then -channel.fd_ - 1 else pfd.fd,
        channel.event_.setWidth 16, 0⟩, ?_, ?_, rfl⟩
      · refine Eq.trans (entryOf_of_index (by exact hindex)) ?_
        exact List.getElem?_set_self (List.getElem?_eq_some_iff.mp hentry).1
      · simp only [hsome, Bool.false_eq_true, if_false, hpfd', hfd]

namespace TcpConnection

/-- Output waits exactly while the channel asks for write events, and the channel always asks
    for read events. -/
structure Interested (conn : TcpConnection) : Prop where
  writing : conn.channel_.isWriting = true ↔ conn.outputBuffer_.contents ≠ []
  reading : conn.channel_.event_ &&& Channel.kReadEvent = Channel.kReadEvent

/-- A channel that asks for nothing, and no output. -/
structure Untouched (conn : TcpConnection) : Prop where
  event : conn.channel_.event_ = Channel.kNoneEvent
  output : conn.outputBuffer_.contents = []

/-- What the loop hears of a member function: nothing of an unchanged channel, or an update. -/
inductive Notified (conn conn' : TcpConnection) (effects : List Effect) : Prop
  | no (hchannel : conn'.channel_ = conn.channel_)
      (hperform : ∀ (p : Poller) c, p.perform c conn'.channel_ effects = .ok p)
  | yes (hfd : conn'.channel_.fd_ = conn.channel_.fd_)
      (hperform : ∀ (p : Poller) c,
        p.perform c conn'.channel_ effects = p.updateChannel c conn'.channel_)

/-- A member function that changes nothing at all. -/
structure Unnoticed (conn conn' : TcpConnection) (effects : List Effect) : Prop where
  same : conn' = conn
  perform : ∀ (p : Poller) c channel, p.perform c channel effects = .ok p

theorem DirectWrite.perform {sent : List Effect} (h : DirectWrite sent) (p : Poller)
    (c : ChannelId) (channel : Channel) (rest : List Effect) :
    p.perform c channel (sent ++ rest) = p.perform c channel rest := by
  rcases h with rfl | ⟨data, rfl⟩ <;> rfl

theorem perform_update (p : Poller) (c : ChannelId) (channel : Channel) {rest : List Effect}
    (h : ∀ p : Poller, p.perform c channel rest = .ok p) :
    p.perform c channel (.updateChannel :: rest) = p.updateChannel c channel := by
  rw [Poller.perform]
  cases p.updateChannel c channel with
  | error e => rfl
  | ok p' => exact h p'

/-- The end of `sendInloop`, where the connection did not wait for write events before. -/
theorem sendInloop_rest_waits {conn conn' : TcpConnection} {message : Bytes} {n : Int}
    {sent effects : List Effect} (hbefore : conn.channel_.isWriting = false) (hnonneg : n ≥ 0)
    (h : (if n < message.length then
        pure ({ conn with outputBuffer_ := conn.outputBuffer_.append (message.drop n.toNat),
                          channel_ := conn.channel_.enableWriting }, sent ++ [.updateChannel])
      else (pure (conn, sent) : Except Stop (TcpConnection × List Effect))) =
        .ok (conn', effects)) (hafter : conn'.channel_.isWriting = true) :
    conn'.outputBuffer_.contents ≠ [] := by
  split at h
  · rename_i hless
    rw [pure_eq_ok_iff, Prod.mk.injEq] at h
    obtain ⟨rfl, _⟩ := h
    simp only [WfBuffer.contents_append]
    intro hnil
    have hdrop := (List.append_eq_nil_iff.mp hnil).2
    rw [List.drop_eq_nil_iff] at hdrop
    omega
  · rw [pure_eq_ok_iff, Prod.mk.injEq] at h
    obtain ⟨rfl, _⟩ := h
    rw [hbefore] at hafter
    cases hafter

/-- A send that turns to write events leaves some of the message in the buffer. -/
theorem sendInloop_waits {conn conn' : TcpConnection} {here : ThreadId} {message : Bytes}
    {io : WriteResult} {effects : List Effect}
    (h : conn.sendInloop here message io = .ok (conn', effects))
    (hbefore : conn.channel_.isWriting = false) (hafter : conn'.channel_.isWriting = true) :
    conn'.outputBuffer_.contents ≠ [] := by
  simp only [sendInloop, assertInLoopThread, bind_eq_ok_iff, require_eq_ok_iff, hbefore,
    if_true] at h
  obtain ⟨_, _, _, hnonneg, h⟩ := h
  exact sendInloop_rest_waits hbefore hnonneg h hafter

theorem sendInloop_interested {conn conn' : TcpConnection} {here : ThreadId} {message : Bytes}
    {io : WriteResult} {effects : List Effect}
    (h : conn.sendInloop here message io = .ok (conn', effects)) (hinterest : conn.Interested) :
    conn'.Interested ∧ Notified conn conn' effects := by
  obtain ⟨_, hsend⟩ := sendInloop_eq_ok h
  have hperform : ∀ {sent}, DirectWrite sent → ∀ (p : Poller) c channel,
      p.perform c channel sent = .ok p := by
    intro sent hsent p c channel
    have hnil := hsent.perform p c channel []
    rw [List.append_nil] at hnil
    exact hnil
  cases hsend with
  | taken hsent hall hwhole => exact ⟨hinterest, .no rfl (fun p c => hperform hsent p c _)⟩
  | buffered hsent hsplit hnext hout hwriting =>
    refine ⟨⟨iff_of_true hwriting ?_, hinterest.reading⟩, .no rfl (fun p c => hperform hsent p c _)⟩
    simp only [hout]
    exact List.append_ne_nil_of_left_ne_nil (hinterest.writing.mp hwriting) _
  | watched hsent hsplit hnext hout hwriting hpart =>
    have hafter := Channel.isWriting_enableWriting conn.channel_
    refine ⟨⟨iff_of_true hafter (sendInloop_waits h hwriting hafter), ?_⟩, .yes rfl ?_⟩
    · exact (Channel.and_kReadEvent_enableWriting _).trans hinterest.reading
    · intro p c
      rw [hsent.perform]
      exact perform_update p c _ (fun _ => rfl)

/-- A write event behind which the channel still asks for more leaves some of the buffer. -/
theorem handleWrite_waits {conn conn' : TcpConnection} {here : ThreadId} {io : WriteResult}
    {effects : List Effect} (h : conn.handleWrite here io = .ok (conn', effects))
    (hbefore : conn.outputBuffer_.contents ≠ []) (hafter : conn'.channel_.isWriting = true) :
    conn'.outputBuffer_.contents ≠ [] := by
  simp only [handleWrite, assertInLoopThread, bind_eq_ok_iff, require_eq_ok_iff] at h
  obtain ⟨_, _, h⟩ := h
  split at h
  · by_cases hpositive : io.write conn.outputBuffer_.contents > 0
    · simp only [if_pos hpositive, bind_eq_ok_iff] at h
      obtain ⟨out, _, h⟩ := h
      by_cases hempty : out.readableBytes = 0
      · rw [if_pos hempty] at h
        have hchannel : conn'.channel_ = conn.channel_.disableWriting := by
          split at h
          · simp only [bind_eq_ok_iff, pure_eq_ok_iff, Prod.mk.injEq] at h
            obtain ⟨⟨_, _⟩, hshutdown, rfl, _⟩ := h
            obtain ⟨_, rfl, _⟩ := shutdownInloop_eq_ok hshutdown
            rfl
          · rw [pure_eq_ok_iff, Prod.mk.injEq] at h
            obtain ⟨rfl, _⟩ := h
            rfl
        rw [hchannel, Channel.isWriting_disableWriting] at hafter
        cases hafter
      · rw [if_neg hempty, pure_eq_ok_iff, Prod.mk.injEq] at h
        obtain ⟨rfl, _⟩ := h
        exact mt out.contents_eq_nil_iff.mp hempty
    · simp only [if_neg hpositive, pure_eq_ok_iff, Prod.mk.injEq] at h
      obtain ⟨rfl, _⟩ := h
      exact hbefore
  · rw [pure_eq_ok_iff, Prod.mk.injEq] at h
    obtain ⟨rfl, _⟩ := h
    exact hbefore

theorem handleWrite_interested {conn conn' : TcpConnection} {here : ThreadId} {io : WriteResult}
    {effects : List Effect} (h : conn.handleWrite here io = .ok (conn', effects))
    (hinterest : conn.Interested) : conn'.Interested ∧ Notified conn conn' effects := by
  obtain ⟨_, hwrite⟩ := handleWrite_eq_ok h
  cases hwrite with
  | idle hmore => exact ⟨hinterest, .no rfl (fun _ _ => rfl)⟩
  | some hmore hwriting hsplit hout =>
    have hleft := handleWrite_waits h (hinterest.writing.mp hwriting) hwriting
    exact ⟨⟨iff_of_true hwriting hleft, hinterest.reading⟩, .no rfl (fun _ _ => rfl)⟩
  | drained hdrains hout =>
    refine ⟨⟨iff_of_false ?_ ?_, ?_⟩, .yes rfl ?_⟩
    · simp
    · simp [hout]
    · exact (Channel.and_kReadEvent_disableWriting _).trans hinterest.reading
    · intro p c
      refine perform_update p c _ (fun p => ?_)
      split <;> rfl

/-- A callback, unless it comes to `handleClose`. -/
theorem callBack_interested {conn conn' : TcpConnection} {here : ThreadId} {handler : Handler}
    {io : IoResult} {effects : List Effect}
    (h : conn.callBack here handler io = .ok (conn', effects))
    (hstays : .closeCallBack ∉ effects) (hinterest : conn.Interested) :
    conn'.Interested ∧ Notified conn conn' effects := by
  cases handler with
  | close =>
    obtain ⟨_, _, _, rfl⟩ := handleClose_eq_ok h
    exact absurd (by simp) hstays
  | error =>
    simp only [callBack, handleError, pure_eq_ok_iff, Prod.mk.injEq] at h
    obtain ⟨rfl, rfl⟩ := h
    exact ⟨hinterest, .no rfl (fun _ _ => rfl)⟩
  | read =>
    obtain ⟨_, ⟨rfl, rfl | rfl⟩ | ⟨_, _, _, rfl⟩⟩ := handleRead_eq_ok h
    · exact ⟨⟨hinterest.writing, hinterest.reading⟩, .no rfl (fun _ _ => rfl)⟩
    · exact ⟨⟨hinterest.writing, hinterest.reading⟩, .no rfl (fun _ _ => rfl)⟩
    · exact absurd (by simp) hstays
  | write => exact handleWrite_interested h hinterest

/-- The first `enableReading`. -/
theorem Untouched.established {conn : TcpConnection} (h : conn.Untouched) (state : StateE) :
    ({ conn with state_ := state, channel_ := conn.channel_.enableReading } :
      TcpConnection).Interested where
  writing := by
    rw [Channel.isWriting_enableReading, Channel.isWriting_of_none h.event]
    simp [h.output]
  reading := Channel.and_kReadEvent_enableReading _

/-- The beginning of a connection's life, and any call after that but the last. -/
theorem call_interested {conn conn' : TcpConnection} {c : ConnCall} {effects : List Effect}
    (h : conn.call c = .ok (conn', effects)) (hstays : .removeChannel ∉ effects)
    (huntouched : conn.state_ = .kConnecting → conn.Untouched)
    (hinterest : conn.state_ ≠ .kConnecting → conn.Interested) :
    Notified conn conn' effects ∧ (conn'.state_ = .kConnecting → Unnoticed conn conn' effects) ∧
      (conn'.state_ ≠ .kConnecting → conn'.Interested) := by
  have hsent : ∀ {message io}, conn.state_ ≠ .kConnecting →
      conn.sendInloop conn.loop_ message io = .ok (conn', effects) →
      Notified conn conn' effects ∧ (conn'.state_ = .kConnecting → Unnoticed conn conn' effects) ∧
        (conn'.state_ ≠ .kConnecting → conn'.Interested) := by
    intro message io hstate hsend
    obtain ⟨hinterested, hnotified⟩ := sendInloop_interested hsend (hinterest hstate)
    refine ⟨hnotified, fun hconnecting => ?_, fun _ => hinterested⟩
    rw [(sendInloop_same hsend).2] at hconnecting
    exact absurd hconnecting hstate
  cases call_cases h with
  | established hstate =>
    refine ⟨.yes rfl (fun p c => perform_update p c _ (fun _ => rfl)), by simp, fun _ => ?_⟩
    exact (huntouched hstate).established _
  | destroyed => exact absurd (by simp) hstays
  | send hstate hsend =>
    rw [call, send, if_pos hstate] at h
    exact hsent (by simp [hstate]) h
  | sendInloop hstate hsend =>
    simp only [call, bind_eq_ok_iff] at h
    obtain ⟨_, _, h⟩ := h
    exact hsent hstate h
  | nothing => exact ⟨.no rfl (fun _ _ => rfl), fun _ => ⟨rfl, fun _ _ _ => rfl⟩, hinterest⟩
  | disconnecting hstate heffects =>
    refine ⟨.no rfl (fun p c => ?_), by simp, fun _ => ?_⟩
    · rcases heffects with rfl | rfl <;> rfl
    · exact ⟨(hinterest hstate).writing, (hinterest hstate).reading⟩
  | shutdownWrite => exact ⟨.no rfl (fun _ _ => rfl), fun _ => ⟨rfl, fun _ _ _ => rfl⟩, hinterest⟩

end TcpConnection

namespace PolledConnection

variable {s s' : PolledConnection} {es : List Empty}

/-- The invariant of connection and poller, up to the first `handleClose` or
    `connectDestory`. -/
structure Tracked (s : PolledConnection) : Prop where
  indexed : s.poller.Indexed
  nonneg : 0 ≤ s.conn.channel_.fd_
  untouched : s.conn.state_ = .kConnecting → s.conn.Untouched ∧ s.poller.index_ s.id < 0
  interested : s.conn.state_ ≠ .kConnecting →
    s.conn.Interested ∧ s.poller.Shows s.id s.conn.channel_

theorem tracked_new (loop : LoopId) (name : Name) {sockfd : Int} (id : ChannelId)
    (h : 0 ≤ sockfd) : (new loop name sockfd id).Tracked where
  indexed := Poller.indexed_new
  nonneg := h
  untouched := fun _ => ⟨⟨rfl, WfBuffer.contents_new⟩, by simp [new, Poller.new]⟩
  interested := fun hstate => absurd rfl hstate

/-- A member function that tells the loop of what it does to the channel. -/
theorem Tracked.after {conn : TcpConnection} {effects : List Effect} (h : s.Tracked)
    (hafter : s.after conn effects = .ok s') (hnotified : s.conn.Notified conn effects)
    (hconnecting : conn.state_ = .kConnecting → s.conn.Unnoticed conn effects)
    (hinterested : conn.state_ ≠ .kConnecting → conn.Interested) : s'.Tracked := by
  simp only [PolledConnection.after, bind_eq_ok_iff, pure_eq_ok_iff] at hafter
  obtain ⟨poller, hperform, rfl⟩ := hafter
  by_cases hstate : conn.state_ = .kConnecting
  · obtain ⟨rfl, hsame⟩ := hconnecting hstate
    rw [hsame, Except.ok.injEq] at hperform
    subst hperform
    exact ⟨h.indexed, h.nonneg, h.untouched, h.interested⟩
  · have hreads := hinterested hstate
    have hsome := Channel.isNoneEvent_of_reading hreads.reading
    have hbefore : s.poller.index_ s.id < 0 ∨ s.poller.Shows s.id s.conn.channel_ := by
      by_cases hold : s.conn.state_ = .kConnecting
      · exact .inl (h.untouched hold).2
      · exact .inr (h.interested hold).2
    cases hnotified with
    | no hchannel hsame =>
      rw [hsame, Except.ok.injEq] at hperform
      subst hperform
      have hold : s.conn.state_ ≠ .kConnecting := by
        intro hold
        rw [hchannel, Channel.isNoneEvent, (h.untouched hold).1.event] at hsome
        cases hsome
      refine ⟨h.indexed, ?_, fun hnew => absurd hnew hstate, fun _ => ⟨hreads, ?_⟩⟩
      · rw [hchannel]
        exact h.nonneg
      · rw [hchannel]
        exact (h.interested hold).2
    | yes hfd hupdates =>
      rw [hupdates] at hperform
      have hupdate := Poller.updateChannel_eq_ok hperform
      have hnonneg : 0 ≤ conn.channel_.fd_ := by
        rw [hfd]
        exact h.nonneg
      exact ⟨hupdate.indexed h.indexed hnonneg, hnonneg, fun hnew => absurd hnew hstate,
        fun _ => ⟨hreads, hupdate.shows hsome hfd hbefore⟩⟩

/-- A change of the poller that leaves this channel alone. -/
theorem Tracked.poller {poller : Poller} (h : s.Tracked) (hindexed : poller.Indexed)
    (hnew : s.poller.index_ s.id < 0 → poller.index_ s.id < 0)
    (hkeeps : ∀ fd, s.poller.channels_[fd]? = some s.id → s.poller.Keeps poller s.id fd) :
    ({ s with poller := poller } : PolledConnection).Tracked where
  indexed := hindexed
  nonneg := h.nonneg
  untouched := fun hstate => (h.untouched hstate).imp_right hnew
  interested := by
    intro hstate
    obtain ⟨hinterested, howner, pfd, hentry, hpfd⟩ := h.interested hstate
    obtain ⟨howner', hentry'⟩ := hkeeps _ howner
    rw [hentry, Option.map_some, Option.map_eq_some_iff] at hentry'
    obtain ⟨pfd', hentry', hsame⟩ := hentry'
    have hfd : pfd'.fd = pfd.fd := congrArg Prod.fst hsame
    have hevents : pfd'.events = pfd.events := congrArg Prod.snd hsame
    exact ⟨hinterested, howner', pfd', hentry', hfd.trans hpfd.1, hevents.trans hpfd.2⟩

theorem tracked_step {a : PolledAction} (h : s.Tracked) (hstep : s.step a = .ok (s', es))
    (hleft : s'.left = false) : s'.Tracked := by
  simp only [step, bind_eq_ok_iff, enabled_eq_ok_iff, pure_eq_ok_iff, Prod.mk.injEq] at hstep
  obtain ⟨_, _, s₁, hact, rfl, _⟩ := hstep
  have hstays : ∀ {conn effects}, s.after conn effects = .ok s₁ →
      .closeCallBack ∉ effects ∧ .removeChannel ∉ effects := by
    intro conn effects hafter
    simp only [PolledConnection.after, bind_eq_ok_iff, pure_eq_ok_iff] at hafter
    obtain ⟨poller, _, rfl⟩ := hafter
    simpa [leaves] using hleft
  cases a with
  | call c =>
    simp only [act, bind_eq_ok_iff] at hact
    obtain ⟨⟨conn, effects⟩, hcall, hafter⟩ := hact
    obtain ⟨hnotified, hconnecting, hinterested⟩ := TcpConnection.call_interested hcall
      (hstays hafter).2 (fun hstate => (h.untouched hstate).1)
      (fun hstate => (h.interested hstate).1)
    exact h.after hafter hnotified hconnecting hinterested
  | callBack handler io =>
    simp only [act, bind_eq_ok_iff, enabled_eq_ok_iff] at hact
    obtain ⟨_, hsome, ⟨conn, effects⟩, hcall, hafter⟩ := hact
    have hstate : s.conn.state_ ≠ .kConnecting := by
      intro hstate
      rw [Channel.isNoneEvent, (h.untouched hstate).1.event] at hsome
      cases hsome
    obtain ⟨hinterested, hnotified⟩ := TcpConnection.callBack_interested hcall (hstays hafter).1
      (h.interested hstate).1
    refine h.after hafter hnotified (fun hconnecting => ?_) (fun _ => hinterested)
    rw [(TcpConnection.callBack_same hcall).2] at hconnecting
    exact absurd hconnecting hstate
  | updateOther c channel =>
    simp only [act, bind_eq_ok_iff, enabled_eq_ok_iff, pure_eq_ok_iff] at hact
    obtain ⟨_, ⟨hne, hnonneg⟩, poller, hupdate, rfl⟩ := hact
    have hcases := Poller.updateChannel_eq_ok hupdate
    exact h.poller (hcases.indexed h.indexed hnonneg)
      (fun hnew => hcases.index_of_new (Ne.symm hne) hnew)
      (fun fd howner => hcases.keeps h.indexed (Ne.symm hne) howner)
  | removeOther c channel =>
    simp only [act, bind_eq_ok_iff, enabled_eq_ok_iff, pure_eq_ok_iff] at hact
    obtain ⟨_, ⟨hne, hnonneg⟩, poller, hremove, rfl⟩ := hact
    have hcases := Poller.removeChannel_eq_ok hremove
    exact h.poller (hcases.indexed h.indexed) (fun hnew => hcases.index_of_new h.indexed hnew)
      (fun fd howner => hcases.keeps h.indexed (Ne.symm hne) howner)
  | poll ready =>
    simp only [act, bind_eq_ok_iff, pure_eq_ok_iff] at hact
    obtain ⟨⟨poller, active⟩, hpoll, rfl⟩ := hact
    obtain ⟨hchannels, hindex, hrequests⟩ := Poller.poll_eq_ok hpoll
    exact h.poller (h.indexed.of_requests hchannels hindex hrequests)
      (fun hnew => by rw [hindex]; exact hnew)
      (fun fd howner => Poller.keeps_of_requests hchannels hindex hrequests howner)

theorem not_left_of_step {a : PolledAction} (h : s.step a = .ok (s', es)) : s.left = false := by
  simp only [step, bind_eq_ok_iff, enabled_eq_ok_iff] at h
  obtain ⟨_, hrunning, _⟩ := h
  exact hrunning

theorem reach_tracked {tr : List Empty} (h : machine.Reach anyStep tr s) :
    s.left = false → s.Tracked := by
  refine Machine.Reach.invariant (I := fun _ s => s.left = false → s.Tracked) ?_ ?_ h
  · rintro s ⟨loop, name, sockfd, id, hnonneg, rfl⟩ _
    exact tracked_new loop name id hnonneg
  · intro _ _ _ _ _ _ htracked _ hstep hleft
    exact tracked_step (htracked (not_left_of_step hstep)) hstep hleft

/-- From `connectEestablished` on, up to the first `handleClose` or `connectDestory`, the
    channel asks for write events exactly while output waits, and so does its entry in
    `pollfds_`, wherever that is. -/
theorem write_interest {tr : List Empty} (h : machine.Reach anyStep tr s) (hleft : s.left = false)
    (hestablished : s.conn.state_ ≠ .kConnecting) :
    (s.conn.channel_.isWriting = true ↔ 0 < s.conn.outputBuffer_.readableBytes) ∧
      ∃ pfd, s.poller.entryOf s.id = some pfd ∧ pfd.fd = s.conn.channel_.fd_ ∧
        (pfd.events &&& POLLOUT.setWidth 16 ≠ 0 ↔ 0 < s.conn.outputBuffer_.readableBytes) := by
  obtain ⟨hinterested, _, pfd, hentry, hfd, hevents⟩ :=
    (reach_tracked h hleft).interested hestablished
  have hwriting : s.conn.channel_.isWriting = true ↔ 0 < s.conn.outputBuffer_.readableBytes := by
    rw [hinterested.writing, ne_eq, WfBuffer.contents_eq_nil_iff]
    exact Nat.pos_iff_ne_zero.symm
  refine ⟨hwriting, pfd, hentry, hfd, ?_⟩
  rw [hevents, ← Channel.isWriting_iff_setWidth, hwriting]

/-- Another channel is removed between a send and its write event, and the connection's
    entry is moved to its place. -/
theorem write_interest_after_swap :
    ∃ tr s, machine.Reach anyStep tr s ∧ s.left = false ∧ s.conn.state_ = .kConnected ∧
      s.poller.index_ s.id = 0 ∧ s.conn.channel_.isWriting = true ∧
      ∃ pfd, s.poller.entryOf s.id = some pfd ∧ pfd.fd = 5 ∧
        pfd.events &&& POLLOUT.setWidth 16 ≠ 0 := by
  have hruns : machine.runs (new 0 [] 5 7)
      [.updateOther 1 ⟨3, POLLIN⟩, .call .connectEestablished,
        .call (.send [104, 105] (.accepted 1)), .updateOther 1 ⟨3, 0⟩, .removeOther 1 ⟨3, 0⟩]
      (fun _ s => s.left = false ∧ s.conn.state_ = .kConnected ∧ s.id = 7 ∧
        s.conn.channel_.fd_ = 5 ∧ s.poller.index_ s.id = 0 ∧
        0 < s.conn.outputBuffer_.readableBytes) = true := by
    decide +kernel
  obtain ⟨tr, s, hreach, htest⟩ :=
    Machine.exists_reach (M := machine) ⟨0, [], 5, 7, by decide, rfl⟩ hruns
  obtain ⟨hleft, hstate, _, hfive, hindex, houtput⟩ := of_decide_eq_true htest
  obtain ⟨hwriting, pfd, hentry, hfd, hevents⟩ :=
    write_interest hreach hleft (by rw [hstate]; nofun)
  exact ⟨tr, s, hreach, hleft, hstate, hindex, hwriting.mpr houtput, pfd, hentry,
    hfd.trans hfive, hevents.mpr houtput⟩

end PolledConnection

end TcpNet
