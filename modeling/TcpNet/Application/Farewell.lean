import TcpNet.Application.Streams
import TcpNet.TcpConnection.WriteInterest

open Transition Trace

namespace TcpNet

/-- Before it shuts the connection down, user code sends some bytes in the same callback. -/
def Courteous {E : Type} (script : List (UserStep E)) : Prop :=
  Guarded (· = .shutdown) (fun before => ∃ message, message ≠ [] ∧ .send message ∈ before) script

section Courteous

variable {E : Type} {script : List (UserStep E)}

theorem courteous_nil : Courteous ([] : List (UserStep E)) := guarded_nil

theorem courteous_event (e : E) (h : Courteous script) : Courteous (.event e :: script) := by
  refine guarded_cons_iff.mpr ⟨nofun, h.mono ?_⟩
  rintro before ⟨message, hsome, hmem⟩
  exact ⟨message, hsome, List.mem_cons_of_mem _ hmem⟩

/-- Behind a send of some bytes, anything is courteous. -/
theorem courteous_send {message : Bytes} (h : message ≠ []) :
    Courteous (.send message :: script) :=
  guarded_cons_iff.mpr ⟨nofun, fun _ _ _ _ _ => ⟨message, h, List.mem_cons_self⟩⟩

end Courteous

/-- Whatever it finds in the input buffer, the application is courteous. -/
def Application.Courteous {A I E : Type} (app : Application A I E) : Prop :=
  ∀ kept buf input kept' buf' script,
    app.onMessage kept buf input = some (kept', buf', script) → TcpNet.Courteous script

namespace SessionEvent

variable {I E : Type}

/-- The FIN that the connection sends. -/
def farewell : SessionEvent I E := .effect .shutdownWrite

def isFarewell : SessionEvent I E → Bool
  | .effect .shutdownWrite => true
  | _ => false

theorem farewell_mem_of_any {tr : List (SessionEvent I E)} (h : tr.any isFarewell = true) :
    farewell ∈ tr := by
  obtain ⟨e, hmem, hkind⟩ := List.any_eq_true.mp h
  unfold isFarewell at hkind
  split at hkind
  · exact hmem
  · cases hkind

/-- Bytes for the peer, or one of the two halves of a shutdown. -/
def Speaks : SessionEvent I E → Prop
  | .sent _ | .disconnecting | .effect (.written _) | .effect .shutdownWrite => True
  | _ => False

end SessionEvent

namespace TcpConnection

open SessionEvent

variable {I E : Type} {conn conn' : TcpConnection} {tr es : List (SessionEvent I E)}

/-- Output waits only while the channel asks for write events. -/
def Heeded (conn : TcpConnection) : Prop :=
  conn.outputBuffer_.contents ≠ [] → conn.channel_.isWriting = true

/-- How a connection takes its leave: the FIN comes behind a `shutdown` and behind all that
    was sent, and is the last that the peer hears. -/
structure Parting (tr : List (SessionEvent I E)) (conn : TcpConnection) : Prop where
  outbound : Session.wire tr ++ conn.outputBuffer_.contents = (Session.sentMessages tr).flatten
  staying : conn.state_ = .kConnecting ∨ conn.state_ = .kConnected → .disconnecting ∉ tr
  leaving : conn.state_ = .kDisconnecting → .disconnecting ∈ tr
  parted : farewell ∈ tr → .disconnecting ∈ tr ∧ conn.outputBuffer_.contents = [] ∧
    conn.channel_.isWriting = false
  whole : Guarded (· = farewell) (fun before => .disconnecting ∈ before ∧
    Session.wire before = (Session.sentMessages before).flatten) tr
  last : Guarded Speaks (farewell ∉ ·) tr

theorem Parting.notMem_farewell (h : Parting tr conn) (hstate : conn.state_ = .kConnected) :
    farewell ∉ tr :=
  fun hmem => h.staying (.inr hstate) (h.parted hmem).1

/-- Behind the FIN too, a connection may do what the peer does not hear. -/
theorem Parting.silent (h : Parting tr conn) (hsilent : ∀ e ∈ es, ¬ Speaks e)
    (houtput : conn'.outputBuffer_ = conn.outputBuffer_)
    (hstaying : conn'.state_ = .kConnecting ∨ conn'.state_ = .kConnected →
      conn.state_ = .kConnecting ∨ conn.state_ = .kConnected)
    (hleaving : conn'.state_ = .kDisconnecting → conn.state_ = .kDisconnecting)
    (hwriting : conn.channel_.isWriting = false → conn'.channel_.isWriting = false) :
    Parting (tr ++ es) conn' := by
  have hnone : ∀ e : SessionEvent I E, Speaks e → e ∉ es := fun e hspeaks hmem =>
    hsilent e hmem hspeaks
  have hwire : Session.wire es = [] := by
    rw [Session.wire, List.flatMap_eq_nil_iff]
    intro e hmem
    split
    · exact absurd hmem (hnone _ trivial)
    · rfl
  have hsent : Session.sentMessages es = [] := by
    rw [Session.sentMessages, List.filterMap_eq_nil_iff]
    intro e hmem
    split
    · exact absurd hmem (hnone _ trivial)
    · rfl
  have hfarewell : farewell ∉ es := hnone _ trivial
  refine ⟨?_, ?_, ?_, ?_, ?_, ?_⟩
  · rw [Session.wire_append, Session.sentMessages_append, hwire, hsent, List.append_nil,
      List.append_nil, houtput]
    exact h.outbound
  · intro hstate
    rw [List.mem_append, not_or]
    exact ⟨h.staying (hstaying hstate), hnone _ trivial⟩
  · exact fun hstate => List.mem_append_left es (h.leaving (hleaving hstate))
  · intro hmem
    obtain ⟨hdisconnecting, hempty, hwrites⟩ :=
      h.parted ((List.mem_append.mp hmem).resolve_right hfarewell)
    rw [houtput]
    exact ⟨List.mem_append_left es hdisconnecting, hempty, hwriting hwrites⟩
  · refine (guarded_append_iff h.whole).mpr (guarded_of_forall_not ?_)
    rintro e hmem rfl
    exact hfarewell hmem
  · exact (guarded_append_iff h.last).mpr (guarded_of_forall_not hsilent)

/-- Before the FIN, a connection may say anything else. -/
theorem Parting.speak (h : Parting tr conn) (hbefore : farewell ∉ tr) (hes : farewell ∉ es)
    (hstream : Session.wire es ++ conn'.outputBuffer_.contents =
      conn.outputBuffer_.contents ++ (Session.sentMessages es).flatten)
    (hstaying : conn'.state_ = .kConnecting ∨ conn'.state_ = .kConnected →
      (conn.state_ = .kConnecting ∨ conn.state_ = .kConnected) ∧ .disconnecting ∉ es)
    (hleaving : conn'.state_ = .kDisconnecting →
      conn.state_ = .kDisconnecting ∨ .disconnecting ∈ es) : Parting (tr ++ es) conn' := by
  have hafter : farewell ∉ tr ++ es := by
    rw [List.mem_append, not_or]
    exact ⟨hbefore, hes⟩
  refine ⟨?_, ?_, ?_, fun hmem => absurd hmem hafter, ?_, guarded_of_notMem hafter⟩
  · rw [Session.wire_append, Session.sentMessages_append, List.append_assoc, hstream,
      ← List.append_assoc, h.outbound, List.flatten_append]
  · intro hstate
    obtain ⟨hstate', hnone⟩ := hstaying hstate
    rw [List.mem_append, not_or]
    exact ⟨h.staying hstate', hnone⟩
  · intro hstate
    rw [List.mem_append]
    exact (hleaving hstate).imp h.leaving id
  · refine guarded_of_forall_not ?_
    rintro e hmem rfl
    exact hafter hmem

/-- The FIN, when all is written and the channel waits for nothing. -/
theorem Parting.leave (h : Parting tr conn) (hbefore : farewell ∉ tr)
    (hstate : conn.state_ = .kDisconnecting) (hempty : conn.outputBuffer_.contents = [])
    (hwriting : conn.channel_.isWriting = false) : Parting (tr ++ [farewell]) conn := by
  have hall := h.outbound
  rw [hempty, List.append_nil] at hall
  have hdisconnecting := h.leaving hstate
  refine ⟨?_, ?_, ?_, ?_, ?_, guarded_concat_of_notMem hbefore⟩
  · have hwire : Session.wire [(farewell : SessionEvent I E)] = [] := rfl
    have hsent : Session.sentMessages [(farewell : SessionEvent I E)] = [] := rfl
    rw [Session.wire_append, Session.sentMessages_append, hwire, hsent, List.append_nil,
      List.append_nil]
    exact h.outbound
  · intro hstaying
    rw [hstate] at hstaying
    simp at hstaying
  · exact fun _ => List.mem_append_left _ hdisconnecting
  · exact fun _ => ⟨List.mem_append_left _ hdisconnecting, hempty, hwriting⟩
  · refine (guarded_append_iff h.whole).mpr ?_
    rw [guarded_cons_iff]
    refine ⟨fun _ => ?_, guarded_nil⟩
    rw [List.append_nil]
    exact ⟨hdisconnecting, hall⟩

theorem farewell_notMem_map {effects : List Effect} (h : .shutdownWrite ∉ effects) :
    (farewell : SessionEvent I E) ∉ effects.map .effect := by
  intro hmem
  rw [List.mem_map] at hmem
  obtain ⟨effect, heffect, heq⟩ := hmem
  rw [farewell, SessionEvent.effect.injEq] at heq
  exact h (heq ▸ heffect)

theorem disconnecting_notMem_map (effects : List Effect) :
    (.disconnecting : SessionEvent I E) ∉ effects.map .effect := by
  simp

theorem DirectWrite.shutdownWrite_notMem {sent : List Effect} (h : DirectWrite sent) :
    .shutdownWrite ∉ sent := by
  rcases h with rfl | ⟨data, rfl⟩ <;> simp

theorem sendInloop_quiet {here : ThreadId} {message : Bytes} {io : WriteResult}
    {effects : List Effect} (h : conn.sendInloop here message io = .ok (conn', effects)) :
    .shutdownWrite ∉ effects := by
  cases (sendInloop_eq_ok h).2 with
  | taken hsent hall hwhole => exact hsent.shutdownWrite_notMem
  | buffered hsent hsplit hnext hout hwriting => exact hsent.shutdownWrite_notMem
  | watched hsent hsplit hnext hout hwriting hpart =>
    rw [List.mem_append, not_or]
    exact ⟨hsent.shutdownWrite_notMem, by simp⟩

/-- A send of some bytes leaves nothing behind that no write event will come for, and a send
    of none leaves that as it is. -/
theorem sendInloop_heeded {here : ThreadId} {message : Bytes} {io : WriteResult}
    {effects : List Effect} (h : conn.sendInloop here message io = .ok (conn', effects))
    (hheeded : message ≠ [] ∨ conn.Heeded) : conn'.Heeded := by
  cases (sendInloop_eq_ok h).2 with
  | taken hsent hall hwhole =>
    rcases hheeded with hsome | hheeded
    · intro houtput
      exact absurd (hwhole.resolve_left hsome).1 houtput
    · exact hheeded
  | buffered hsent hsplit hnext hout hwriting => exact fun _ => hwriting
  | watched hsent hsplit hnext hout hwriting hpart =>
    exact fun _ => Channel.isWriting_enableWriting _

theorem Parting.send (h : Parting tr conn) {message : Bytes} {io : WriteResult}
    {effects : List Effect} (hsend : conn.send conn.loop_ message io = .ok (conn', effects)) :
    Parting (tr ++ (conn.gated (.sent message) ++ effects.map .effect)) conn' := by
  have hfollowed := send_followed (I := I) (E := E) hsend
  rw [TcpConnection.send] at hsend
  unfold gated at hfollowed ⊢
  by_cases hstate : conn.state_ = .kConnected
  · rw [if_pos hstate] at hsend hfollowed ⊢
    have hkept := (sendInloop_same hsend).2
    have hquiet := farewell_notMem_map (I := I) (E := E) (sendInloop_quiet hsend)
    have hnone := disconnecting_notMem_map (I := I) (E := E) effects
    refine h.speak (h.notMem_farewell hstate) ?_ hfollowed.stream ?_ ?_
    · rw [List.singleton_append, List.mem_cons, not_or]
      exact ⟨by simp [farewell], hquiet⟩
    · intro _
      rw [List.singleton_append, List.mem_cons, not_or]
      exact ⟨.inr hstate, by simp, hnone⟩
    · exact fun hleaving => .inl (hkept.symm.trans hleaving)
  · rw [if_neg hstate, pure_eq_ok_iff, Prod.mk.injEq] at hsend
    obtain ⟨rfl, rfl⟩ := hsend
    rw [if_neg hstate, List.map_nil, List.append_nil, List.append_nil]
    exact h

theorem Parting.shutdown (h : Parting tr conn) {effects : List Effect}
    (hheeded : conn.state_ = .kConnected → conn.Heeded)
    (hshutdown : conn.shutdown conn.loop_ = .ok (conn', effects)) :
    Parting (tr ++ (conn.gated .disconnecting ++ effects.map .effect)) conn' := by
  rw [TcpConnection.shutdown] at hshutdown
  unfold gated
  by_cases hstate : conn.state_ = .kConnected
  · rw [if_pos hstate] at hshutdown ⊢
    obtain ⟨_, rfl, heffects⟩ := shutdownInloop_eq_ok hshutdown
    have hbefore := h.notMem_farewell hstate
    have hsaid : Parting (tr ++ [.disconnecting])
        ({ conn with state_ := .kDisconnecting } : TcpConnection) := by
      refine h.speak hbefore (by simp [farewell]) ?_ (by simp) (fun _ => .inr (by simp))
      exact (List.append_nil _).symm
    rw [← List.append_assoc, heffects]
    split
    · rename_i hwriting
      have hafter : farewell ∉ tr ++ [(.disconnecting : SessionEvent I E)] := by
        rw [List.mem_append, not_or]
        exact ⟨hbefore, by simp [farewell]⟩
      refine hsaid.leave hafter rfl ?_ hwriting
      by_contra hsome
      have hwaits := hheeded hstate hsome
      rw [hwriting] at hwaits
      cases hwaits
    · rw [List.map_nil, List.append_nil]
      exact hsaid
  · rw [if_neg hstate, pure_eq_ok_iff, Prod.mk.injEq] at hshutdown
    obtain ⟨rfl, rfl⟩ := hshutdown
    rw [if_neg hstate, List.map_nil, List.append_nil, List.append_nil]
    exact h

/-- By induction over the script, where `said` stands for a send of some bytes before. -/
theorem Parting.follow {script : List (UserStep E)} {writes : Nat → WriteResult} {said : Prop}
    (h : Parting tr conn) (hsaid : said → conn.state_ = .kConnected → conn.Heeded)
    (hcourteous : Guarded (· = .shutdown) (fun before =>
      said ∨ ∃ message, message ≠ [] ∧ .send message ∈ before) script)
    (hfollow : conn.follow script writes = .ok (conn', es)) : Parting (tr ++ es) conn' := by
  induction script generalizing tr conn writes es said with
  | nil =>
    simp only [TcpConnection.follow, pure_eq_ok_iff, Prod.mk.injEq] at hfollow
    obtain ⟨rfl, rfl⟩ := hfollow
    rw [List.append_nil]
    exact h
  | cons step rest ih =>
    rw [guarded_cons_iff] at hcourteous
    obtain ⟨hfirst, hrest⟩ := hcourteous
    -- what is not a send of some bytes adds nothing to what was said
    have hother : (∀ message, step = .send message → message = []) →
        Guarded (· = .shutdown) (fun before =>
          said ∨ ∃ message, message ≠ [] ∧ .send message ∈ before) rest := by
      intro hnone
      refine hrest.mono fun before => ?_
      rintro (hsaid | ⟨message, hsome, hmem⟩)
      · exact .inl hsaid
      · rcases List.mem_cons.mp hmem with hstep | hmem
        · exact absurd (hnone message hstep.symm) hsome
        · exact .inr ⟨message, hsome, hmem⟩
    cases step with
    | event e =>
      simp only [TcpConnection.follow, bind_eq_ok_iff, pure_eq_ok_iff, Prod.mk.injEq] at hfollow
      obtain ⟨⟨conn₁, es₁⟩, hgo, rfl, rfl⟩ := hfollow
      have hparting : Parting (tr ++ [.user e]) conn :=
        h.silent (by simp [Speaks]) rfl id id id
      rw [List.append_cons]
      exact ih hparting hsaid (hother (by simp)) hgo
    | send message =>
      simp only [TcpConnection.follow, bind_eq_ok_iff, pure_eq_ok_iff, Prod.mk.injEq] at hfollow
      obtain ⟨⟨conn₁, effects⟩, hsend, ⟨conn₂, es₂⟩, hgo, rfl, rfl⟩ := hfollow
      have hmore : Guarded (· = .shutdown) (fun before =>
          (said ∨ message ≠ []) ∨ ∃ message, message ≠ [] ∧ .send message ∈ before) rest := by
        refine hrest.mono fun before => ?_
        rintro (hsaid' | ⟨message', hsome, hmem⟩)
        · exact .inl (.inl hsaid')
        · rcases List.mem_cons.mp hmem with hstep | hmem
          · rw [UserStep.send.injEq] at hstep
            exact .inl (.inr (hstep ▸ hsome))
          · exact .inr ⟨message', hsome, hmem⟩
      rw [← List.append_assoc]
      refine ih (h.send hsend) ?_ hmore hgo
      intro hsaid' hstate
      rw [TcpConnection.send] at hsend
      split at hsend
      · rename_i hconnected
        refine sendInloop_heeded hsend ?_
        exact hsaid'.symm.imp id (fun hsaid' => hsaid hsaid' hconnected)
      · rename_i hconnected
        rw [pure_eq_ok_iff, Prod.mk.injEq] at hsend
        rw [hsend.1] at hconnected
        exact absurd hstate hconnected
    | shutdown =>
      simp only [TcpConnection.follow, bind_eq_ok_iff, pure_eq_ok_iff, Prod.mk.injEq] at hfollow
      obtain ⟨⟨conn₁, effects⟩, hshutdown, ⟨conn₂, es₂⟩, hgo, rfl, rfl⟩ := hfollow
      have hheard : said := by
        refine (hfirst rfl).resolve_right ?_
        rintro ⟨message, _, hmem⟩
        cases hmem
      rw [← List.append_assoc]
      refine ih (h.shutdown (hsaid hheard) hshutdown) ?_ (hother (by simp)) hgo
      intro _ hstate
      rw [TcpConnection.shutdown] at hshutdown
      split at hshutdown
      · obtain ⟨_, rfl, _⟩ := shutdownInloop_eq_ok hshutdown
        cases hstate
      · rename_i hconnected
        rw [pure_eq_ok_iff, Prod.mk.injEq] at hshutdown
        rw [hshutdown.1] at hconnected
        exact absurd hstate hconnected

theorem Parting.callBack (h : Parting tr conn) {handler : Handler} {io : IoResult}
    {effects : List Effect} (hrun : conn.callBack conn.loop_ handler io = .ok (conn', effects)) :
    Parting (tr ++ effects.map .effect) conn' := by
  cases handler with
  | close =>
    obtain ⟨_, _, rfl, rfl⟩ := handleClose_eq_ok hrun
    exact h.silent (by simp [Speaks]) rfl id id (fun _ => Channel.isWriting_disableAll _)
  | error =>
    simp only [TcpConnection.callBack, handleError, pure_eq_ok_iff, Prod.mk.injEq] at hrun
    obtain ⟨rfl, rfl⟩ := hrun
    exact h.silent (by simp) rfl id id id
  | read =>
    obtain ⟨_, ⟨rfl, rfl | rfl⟩ | ⟨_, _, rfl, rfl⟩⟩ := handleRead_eq_ok hrun
    · exact h.silent (by simp [Speaks]) rfl id id id
    · exact h.silent (by simp) rfl id id id
    · exact h.silent (by simp [Speaks]) rfl id id (fun _ => Channel.isWriting_disableAll _)
  | write =>
    have hstream := callBack_stream hrun
    have hpending : conn.channel_.isWriting = true → farewell ∉ tr := by
      intro hwriting hmem
      rw [(h.parted hmem).2.2] at hwriting
      cases hwriting
    have hsent := (quiet_effects (I := I) (E := E) effects).1
    cases (handleWrite_eq_ok hrun).2 with
    | idle hmore => exact h.silent (by simp) rfl id id id
    | some hmore hwriting hsplit hout =>
      refine h.speak (hpending hwriting) (by simp [farewell]) ?_ ?_ .inl
      · rw [wire_effects, hsent, List.flatten_nil, List.append_nil]
        exact hstream
      · exact fun hstaying => ⟨hstaying, by simp⟩
    | @drained out hdrains hout =>
      have hbefore := hpending hdrains.1
      have hparting : Parting
          (tr ++ [.effect (.written conn.outputBuffer_.contents), .effect .updateChannel])
          { conn with outputBuffer_ := out, channel_ := conn.channel_.disableWriting } := by
        refine h.speak hbefore (by simp [farewell]) ?_ (fun hstaying => ⟨hstaying, by simp⟩) .inl
        simp [Session.wire, Session.sentMessages, hout]
      by_cases hstate : conn.state_ = .kDisconnecting
      · rw [if_pos hstate]
        have hafter : farewell ∉ tr ++ [(.effect (.written conn.outputBuffer_.contents) :
            SessionEvent I E), .effect .updateChannel] := by
          rw [List.mem_append, not_or]
          exact ⟨hbefore, by simp [farewell]⟩
        have hleft := hparting.leave hafter hstate hout (Channel.isWriting_disableWriting _)
        rw [List.append_assoc] at hleft
        exact hleft
      · rw [if_neg hstate]
        exact hparting

/-- While a connection disconnects, its FIN has gone or a write event will come for it. -/
structure Attentive (tr : List (SessionEvent I E)) (conn : TcpConnection) : Prop where
  interested : conn.Interested
  pending : conn.state_ = .kDisconnecting → farewell ∈ tr ∨ conn.channel_.isWriting = true

theorem Attentive.extend (h : Attentive tr conn) (hinterested : conn'.Interested)
    (hpending : conn'.state_ = .kDisconnecting → farewell ∈ es ∨ conn'.channel_.isWriting = true ∨
      conn.state_ = .kDisconnecting ∧ conn'.channel_.isWriting = conn.channel_.isWriting) :
    Attentive (tr ++ es) conn' where
  interested := hinterested
  pending := by
    intro hstate
    rw [List.mem_append]
    rcases hpending hstate with hgone | hwriting | ⟨hbefore, hsame⟩
    · exact .inl (.inr hgone)
    · exact .inr hwriting
    · rw [hsame]
      exact (h.pending hbefore).imp .inl id

theorem Attentive.send (h : Attentive tr conn) {message : Bytes} {io : WriteResult}
    {effects : List Effect} (hsend : conn.send conn.loop_ message io = .ok (conn', effects)) :
    Attentive (tr ++ (conn.gated (.sent message) ++ effects.map .effect)) conn' := by
  rw [TcpConnection.send] at hsend
  by_cases hstate : conn.state_ = .kConnected
  · rw [if_pos hstate] at hsend
    refine h.extend (sendInloop_interested hsend h.interested).1 fun hleaving => ?_
    rw [(sendInloop_same hsend).2, hstate] at hleaving
    cases hleaving
  · rw [if_neg hstate, pure_eq_ok_iff, Prod.mk.injEq] at hsend
    obtain ⟨rfl, rfl⟩ := hsend
    exact h.extend h.interested fun hleaving => .inr (.inr ⟨hleaving, rfl⟩)

theorem Attentive.shutdown (h : Attentive tr conn) {effects : List Effect}
    (hshutdown : conn.shutdown conn.loop_ = .ok (conn', effects)) :
    Attentive (tr ++ (conn.gated .disconnecting ++ effects.map .effect)) conn' := by
  rw [TcpConnection.shutdown] at hshutdown
  by_cases hstate : conn.state_ = .kConnected
  · rw [if_pos hstate] at hshutdown
    obtain ⟨_, rfl, rfl⟩ := shutdownInloop_eq_ok hshutdown
    refine h.extend ⟨h.interested.writing, h.interested.reading⟩ fun _ => ?_
    split
    · exact .inl (by simp [farewell])
    · rename_i hwriting
      rw [Bool.not_eq_false] at hwriting
      exact .inr (.inl hwriting)
  · rw [if_neg hstate, pure_eq_ok_iff, Prod.mk.injEq] at hshutdown
    obtain ⟨rfl, rfl⟩ := hshutdown
    exact h.extend h.interested fun hleaving => .inr (.inr ⟨hleaving, rfl⟩)

theorem Attentive.follow {script : List (UserStep E)} {writes : Nat → WriteResult}
    (h : Attentive tr conn) (hfollow : conn.follow script writes = .ok (conn', es)) :
    Attentive (tr ++ es) conn' := by
  induction script generalizing tr conn writes es with
  | nil =>
    simp only [TcpConnection.follow, pure_eq_ok_iff, Prod.mk.injEq] at hfollow
    obtain ⟨rfl, rfl⟩ := hfollow
    rw [List.append_nil]
    exact h
  | cons step rest ih =>
    cases step with
    | event e =>
      simp only [TcpConnection.follow, bind_eq_ok_iff, pure_eq_ok_iff, Prod.mk.injEq] at hfollow
      obtain ⟨⟨conn₁, es₁⟩, hgo, rfl, rfl⟩ := hfollow
      rw [List.append_cons]
      exact ih (h.extend h.interested fun hleaving => .inr (.inr ⟨hleaving, rfl⟩)) hgo
    | send message =>
      simp only [TcpConnection.follow, bind_eq_ok_iff, pure_eq_ok_iff, Prod.mk.injEq] at hfollow
      obtain ⟨⟨conn₁, effects⟩, hsend, ⟨conn₂, es₂⟩, hgo, rfl, rfl⟩ := hfollow
      rw [← List.append_assoc]
      exact ih (h.send hsend) hgo
    | shutdown =>
      simp only [TcpConnection.follow, bind_eq_ok_iff, pure_eq_ok_iff, Prod.mk.injEq] at hfollow
      obtain ⟨⟨conn₁, effects⟩, hshutdown, ⟨conn₂, es₂⟩, hgo, rfl, rfl⟩ := hfollow
      rw [← List.append_assoc]
      exact ih (h.shutdown hshutdown) hgo

theorem Attentive.callBack (h : Attentive tr conn) {handler : Handler} {io : IoResult}
    {effects : List Effect} (hrun : conn.callBack conn.loop_ handler io = .ok (conn', effects))
    (hstays : .closeCallBack ∉ effects) : Attentive (tr ++ effects.map .effect) conn' := by
  refine h.extend (callBack_interested hrun hstays h.interested).1 fun hleaving => ?_
  have hstate := (callBack_same hrun).2.symm.trans hleaving
  cases handler with
  | close =>
    obtain ⟨_, _, _, rfl⟩ := handleClose_eq_ok hrun
    exact absurd (by simp) hstays
  | error =>
    simp only [TcpConnection.callBack, handleError, pure_eq_ok_iff, Prod.mk.injEq] at hrun
    obtain ⟨rfl, _⟩ := hrun
    exact .inr (.inr ⟨hstate, rfl⟩)
  | read =>
    obtain ⟨_, ⟨rfl, _⟩ | ⟨_, _, _, rfl⟩⟩ := handleRead_eq_ok hrun
    · exact .inr (.inr ⟨hstate, rfl⟩)
    · exact absurd (by simp) hstays
  | write =>
    cases (handleWrite_eq_ok hrun).2 with
    | idle hmore => exact .inr (.inr ⟨hstate, rfl⟩)
    | some hmore hwriting hsplit hout => exact .inr (.inl hwriting)
    | drained hdrains hout =>
      rw [if_pos hstate]
      exact .inl (by simp [farewell])

end TcpConnection

namespace Session

open TcpConnection SessionEvent

variable {A I E : Type} {app : Application A I E} {s s' : Session A}
  {tr es : List (SessionEvent I E)}

/-- A connection that has not closed asks for what it waits for. -/
structure Alert (tr : List (SessionEvent I E)) (s : Session A) : Prop where
  inOrder : s.InOrder
  untouched : s.conn.state_ = .kConnecting → s.conn.Untouched
  attentive : s.closing = false → s.conn.state_ ≠ .kConnecting → Attentive tr s.conn

theorem Alert.attentive_of_open (h : Alert tr s) {handler : Handler} {rest : List Handler}
    (hhandlers : s.handlers = handler :: rest) (hclosing : s.closing = false) :
    Attentive tr s.conn := by
  refine h.attentive hclosing fun hstate => ?_
  rcases h.inOrder.open hhandlers with hopen | hopen <;> rw [hopen] at hstate <;> cases hstate

theorem Alert.step (h : Alert tr s) (hstep : Step app s es s') : Alert (tr ++ es) s' := by
  have hinOrder := h.inOrder.step hstep
  cases hstep with
  | receive hopen =>
    refine ⟨hinOrder, h.untouched, fun hclosing hstate => ?_⟩
    have hattentive := h.attentive hclosing hstate
    exact hattentive.extend hattentive.interested fun hleaving => .inr (.inr ⟨hleaving, rfl⟩)
  | receiveFin =>
    refine ⟨hinOrder, h.untouched, fun hclosing hstate => ?_⟩
    have hattentive := h.attentive hclosing hstate
    exact hattentive.extend hattentive.interested fun hleaving => .inr (.inr ⟨hleaving, rfl⟩)
  | established hstate =>
    exact ⟨hinOrder, nofun, fun _ _ => ⟨(h.untouched hstate).established _, nofun⟩⟩
  | poll hsome =>
    rw [List.append_nil]
    exact ⟨hinOrder, h.untouched, h.attentive⟩
  | @offers rest data input buf buf' kept script writes conn es hhandlers hbegins hdata hinput
      happ hfollow =>
    refine ⟨hinOrder, fun hstate => ?_, fun hclosing _ => ?_⟩
    · obtain hsame | ⟨_, hafter⟩ := (follow_followed hfollow).state
      · rcases h.inOrder.open hhandlers with hopen | hopen
        · exact absurd (hsame.symm.trans hstate) (by rw [hopen]; nofun)
        · exact absurd (hsame.symm.trans hstate) (by rw [hopen]; nofun)
      · rw [hafter] at hstate
        cases hstate
    · have hattentive := h.attentive_of_open hhandlers hclosing
      have hoffered : Attentive (tr ++ [.offered data input])
          { s.conn with inputBuffer_ := buf' } :=
        hattentive.extend ⟨hattentive.interested.writing, hattentive.interested.reading⟩
          fun hleaving => .inr (.inr ⟨hleaving, rfl⟩)
      rw [List.append_cons]
      exact hoffered.follow hfollow
  | @handler handler rest io conn effects hhandlers hrun hinput =>
    refine ⟨hinOrder, fun hstate => ?_, fun hclosing _ => ?_⟩
    · have hbefore := (callBack_same hrun).2.symm.trans hstate
      rcases h.inOrder.open hhandlers with hopen | hopen <;> rw [hopen] at hbefore <;> cases hbefore
    · have hstays : s.closing = false ∧ .closeCallBack ∉ effects := by
        simpa [Bool.or_eq_false_iff] using hclosing
      exact (h.attentive_of_open hhandlers hstays.1).callBack hrun hstays.2
  | destroyed hclosing hhandlers hstate =>
    refine ⟨hinOrder, nofun, fun hopen => ?_⟩
    rw [show s.closing = false from hopen] at hclosing
    cases hclosing

theorem alert_new (loop : LoopId) (name : Name) (sockfd : Int) :
    Alert ([] : List (SessionEvent I E)) (new app loop name sockfd) where
  inOrder := ⟨fun _ => ⟨rfl, rfl⟩, nofun⟩
  untouched := fun _ => ⟨rfl, WfBuffer.contents_new⟩
  attentive := fun _ hstate => absurd rfl hstate

theorem reach_alert (h : (machine app).Reach anyStep tr s) : Alert tr s := by
  refine h.invariant (I := fun tr s => Alert tr s) ?_ ?_
  · rintro s ⟨loop, name, sockfd, rfl⟩
    exact alert_new loop name sockfd
  · exact fun _ _ _ _ _ _ halert _ hstep => halert.step (step_cases hstep)

/-- The connection of a courteous application, from its first functor to its last. -/
structure Polite (tr : List (SessionEvent I E)) (s : Session A) : Prop extends Alert tr s where
  parting : Parting tr s.conn

theorem Polite.step (hcourteous : app.Courteous) (h : Polite tr s) (hstep : Step app s es s') :
    Polite (tr ++ es) s' := by
  refine ⟨h.toAlert.step hstep, ?_⟩
  cases hstep with
  | receive hopen => exact h.parting.silent (by simp [Speaks]) rfl id id id
  | receiveFin => exact h.parting.silent (by simp [Speaks]) rfl id id id
  | established hstate =>
    refine h.parting.silent (by simp [Speaks]) rfl (fun _ => .inl hstate) nofun ?_
    intro hwriting
    rw [Channel.isWriting_enableReading]
    exact hwriting
  | poll hsome =>
    rw [List.append_nil]
    exact h.parting
  | @offers rest data input buf buf' kept script writes conn es hhandlers hbegins hdata hinput
      happ hfollow =>
    have hscript := hcourteous _ _ _ _ _ _ happ
    have hfirst : Parting (tr ++ [.offered data input]) { s.conn with inputBuffer_ := buf' } :=
      -- the input buffer is no part of what the peer hears
      have h' : Parting tr { s.conn with inputBuffer_ := buf' } :=
        ⟨h.parting.outbound, h.parting.staying, h.parting.leaving, h.parting.parted,
          h.parting.whole, h.parting.last⟩
      h'.silent (by simp [Speaks]) rfl id id id
    have hsaid : Guarded (· = .shutdown) (fun before =>
        False ∨ ∃ message, message ≠ [] ∧ .send message ∈ before) script :=
      hscript.mono fun before hsome => .inr hsome
    rw [List.append_cons]
    exact hfirst.follow nofun hsaid hfollow
  | @handler handler rest io conn effects hhandlers hrun hinput => exact h.parting.callBack hrun
  | destroyed hclosing hhandlers hstate =>
    exact h.parting.silent (by simp [Speaks]) rfl (by simp) nofun
      fun _ => Channel.isWriting_disableAll _

theorem polite_new (loop : LoopId) (name : Name) (sockfd : Int) :
    Polite ([] : List (SessionEvent I E)) (new app loop name sockfd) where
  toAlert := alert_new loop name sockfd
  parting := ⟨WfBuffer.contents_new, fun _ => nofun, nofun, nofun, guarded_nil, guarded_nil⟩

theorem reach_polite (hcourteous : app.Courteous) (h : (machine app).Reach anyStep tr s) :
    Polite tr s := by
  refine h.invariant (I := fun tr s => Polite tr s) ?_ ?_
  · rintro s ⟨loop, name, sockfd, rfl⟩
    exact polite_new loop name sockfd
  · exact fun _ _ _ _ _ _ hpolite _ hstep => hpolite.step hcourteous (step_cases hstep)

end Session

end TcpNet
