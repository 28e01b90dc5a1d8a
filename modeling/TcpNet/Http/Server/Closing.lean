import TcpNet.Http.Server.HeadEnd
import TcpNet.Http.Server.Sequenced
import Mathlib.Data.List.Induction

open LineReader Trace Transition

namespace TcpNet

namespace HttpEvent

/-- A response of the run closes the connection. -/
def Closing (tr : List HttpEvent) : Prop :=
  ∃ response, some response ∈ outcomes tr ∧ response.closeConnection = true

instance (tr : List HttpEvent) : Decidable (Closing tr) :=
  decidable_of_iff ((outcomes tr).any (fun o => o.any (·.closeConnection)) = true) (by
    simp only [List.any_eq_true, Option.any_eq_true, Closing]
    constructor
    · rintro ⟨_, hmem, response, rfl, hclose⟩
      exact ⟨response, hmem, hclose⟩
    · rintro ⟨response, hmem, hclose⟩
      exact ⟨_, hmem, response, rfl, hclose⟩)

/-- The responses of the requests that were handed to the callback. -/
def responses (tr : List HttpEvent) : List HttpResponse := (outcomes tr).filterMap id

/-- Behind a response that closes the connection no request is handed to the
    callback, and every response is sent. -/
def Closes (tr : List HttpEvent) : Prop :=
  Guarded IsCallback (fun before => ¬ Closing before) tr ∧
    (responses tr).map HttpResponse.serialise <+: sent tr

theorem any_ends_iff {tr : List HttpEvent} :
    (outcomes tr).any ends = true ↔ none ∈ outcomes tr ∨ Closing tr := by
  rw [List.any_eq_true]
  constructor
  · rintro ⟨outcome, hmem, hends⟩
    cases outcome with
    | none => exact .inl hmem
    | some response => exact .inr ⟨response, hmem, hends⟩
  · rintro (hmem | ⟨response, hmem, hclose⟩)
    · exact ⟨none, hmem, rfl⟩
    · exact ⟨some response, hmem, hclose⟩

section Expected

variable {l : List (Option HttpResponse)}

theorem expected_of_not_ends (h : l.any ends = false) :
    expected l = (l.filterMap id).map HttpResponse.serialise := by
  induction l with
  | nil => rfl
  | cons outcome l ih =>
    rw [List.any_cons, Bool.or_eq_false_iff] at h
    cases outcome with
    | none => cases h.1
    | some response =>
      have hclose : response.closeConnection = false := h.1
      rw [expected, hclose, ih h.2]
      rfl

/-- Where no response comes behind the end of the conversation, every response is
    due. -/
theorem map_serialise_prefix
    (h : ∀ before response after, l = before ++ some response :: after →
      before.any ends = false) :
    (l.filterMap id).map HttpResponse.serialise <+: expected l := by
  induction l using List.reverseRecOn with
  | nil => exact List.prefix_rfl
  | append_singleton l outcome ih =>
    have hbefore := ih fun before response after hsplit =>
      h before response (after ++ [outcome]) (by rw [hsplit, List.append_assoc, List.cons_append])
    rw [expected_append, List.filterMap_append, List.map_append]
    cases outcome with
    | none =>
      rw [List.filterMap_cons_none rfl, List.filterMap_nil, List.map_nil, List.append_nil]
      exact hbefore.trans (List.prefix_append _ _)
    | some response =>
      have hnot := h l response [] rfl
      rw [expected_of_not_ends hnot, hnot, List.prefix_append_right_inj]
      simp only [List.filterMap_cons, id, List.filterMap_nil, List.map_cons, List.map_nil,
        Bool.false_eq_true, if_false, expected, ite_self]
      exact List.prefix_rfl

end Expected

end HttpEvent

namespace HttpConnection

open HttpEvent

/-- The bytes that wait and those of the message hold the rest of a head. -/
def Completes (conn : HttpConnection) (message : HttpMessage) : Prop :=
  HttpContext.HoldsHead conn.context_.inHead (conn.inputBuffer_.contents ++ message.data)

instance (conn : HttpConnection) (message : HttpMessage) : Decidable (Completes conn message) :=
  inferInstanceAs (Decidable (HttpContext.HoldsHead _ _))

/-- No message brings the end of a head behind a response that closes the connection. -/
def silentAfterClose : StepCondition HttpConnection HttpMessage HttpEvent :=
  fun tr conn message => Closing tr → ¬ Completes conn message

variable {tr es : List HttpEvent} {conn conn' : HttpConnection} {message : HttpMessage}

theorem completes_iff (h : conn.context_.Reading) :
    Completes conn message ↔ (conn.reading message).1 = .finished :=
  HttpContext.holdsHead_iff h message.receiveTime _

/-- A message leads to one outcome at most: the response to the request that it
    completes. -/
theorem outcomes_of_step (h : Step conn message es conn') :
    (∃ response, outcomes es = [some response] ∧ (conn.reading message).1 = .finished) ∨
      ((∀ response, some response ∉ outcomes es) ∧ (conn.reading message).1 ≠ .finished) := by
  cases h with
  | waits hread =>
    rw [hread]
    exact .inr ⟨by simp [outcomes, outcome], nofun⟩
  | refuses hread =>
    rw [hread]
    refine .inr ⟨fun response hmem => ?_, nofun⟩
    have hes : outcomes (.parseRequest conn.context_.state_ false ::
        gated conn.state_ [.sendInloop kBadRequest, .shutdownInloop]) = [none] :=
      congrArg (none :: ·) (outcomes_gated conn.state_ rfl)
    rw [hes, List.mem_singleton] at hmem
    cases hmem
  | @answers context _ hread =>
    refine .inl ⟨response message context.request_, ?_, congrArg Prod.fst hread⟩
    exact congrArg (_ :: ·) (outcomes_gated conn.state_ rfl)
  | @closes context _ hread =>
    refine .inl ⟨response message context.request_, ?_, congrArg Prod.fst hread⟩
    exact congrArg (_ :: ·) (outcomes_gated conn.state_ rfl)

theorem not_isCallback_gated (state : StateE) {es : List HttpEvent}
    (h : ∀ e ∈ es, ¬ IsCallback e) : ∀ e ∈ gated state es, ¬ IsCallback e := by
  unfold gated
  split
  · exact h
  · exact fun e he => (List.not_mem_nil he).elim

theorem guarded_callback_iff {Q : List HttpEvent → Prop} {state : HttpRequestParseState}
    {ok : Bool} {req : HttpRequest} {response : HttpResponse}
    (h : ∀ e ∈ es, ¬ IsCallback e) :
    Guarded IsCallback Q (.parseRequest state ok :: .httpCallback req response :: es) ↔
      Q [.parseRequest state ok] := by
  have hfront : Guarded IsCallback Q ([.parseRequest state ok] ++ [.httpCallback req response]) ↔
      Q [.parseRequest state ok] := guarded_concat_iff (by simp [IsCallback]) trivial
  rw [← hfront]
  constructor
  · exact fun hall => Guarded.of_append hall
  · exact fun hfirst => (guarded_append_iff hfirst).mpr (guarded_of_forall_not h)

/-- A message that completes a request keeps the callback silent behind a closing
    response only if there is none yet. -/
theorem guarded_step_iff (hguarded : Guarded IsCallback (fun before => ¬ Closing before) tr)
    (h : Step conn message es conn') :
    Guarded IsCallback (fun before => ¬ Closing before) (tr ++ es) ↔
      (Closing tr → (conn.reading message).1 ≠ .finished) := by
  have hparse : ∀ state, Closing (tr ++ [.parseRequest state true]) ↔ Closing tr := by
    intro state
    rw [Closing, Closing, outcomes_append]
    simp [outcomes, outcome]
  rw [guarded_append_iff hguarded]
  cases h with
  | waits hread =>
    rw [hread]
    exact iff_of_true (guarded_of_forall_not (by simp [IsCallback])) (by simp)
  | refuses hread =>
    rw [hread]
    refine iff_of_true (guarded_of_forall_not ?_) (by simp)
    intro e he
    rcases List.mem_cons.mp he with rfl | he
    · exact id
    · exact not_isCallback_gated conn.state_ (by simp [IsCallback]) e he
  | answers hread =>
    rw [guarded_callback_iff (not_isCallback_gated conn.state_ (by simp [IsCallback])), hparse,
      hread]
    simp only [ne_eq, not_true, imp_false]
  | closes hread =>
    rw [guarded_callback_iff (not_isCallback_gated conn.state_ (by simp [IsCallback])), hparse,
      hread]
    simp only [ne_eq, not_true, imp_false]

/-- In a run without requests behind a closing response, no response comes behind
    the end of the conversation. -/
theorem not_ends_of_response (h : machine.Reach silentAfterClose tr conn) :
    ∀ before response after, outcomes tr = before ++ some response :: after →
      before.any ends = false := by
  induction h with
  | init =>
    intro before response after hsplit
    exact absurd hsplit (by simp [outcomes])
  | @step tr es conn conn' message hreach hcond hstep ih =>
    intro before response after hsplit
    have hsequenced := reach_sequenced hreach
    rw [outcomes_append] at hsplit
    rcases append_cases hsplit with ⟨mid, rfl, hes⟩ | ⟨mid, hold⟩
    · rcases outcomes_of_step (step_of_ok hsequenced.reading hstep) with
        ⟨response', hone, hfinished⟩ | ⟨hno, _⟩
      · have hmid : mid = [] := by
          rw [hone, List.singleton_eq_append_iff] at hes
          rcases hes with ⟨hmid, _⟩ | ⟨_, hnil⟩
          · exact hmid
          · cases hnil
        rw [hmid, List.append_nil, Bool.eq_false_iff, ne_eq, any_ends_iff, not_or]
        refine ⟨hsequenced.notMem_of_finished hfinished, fun hclosing => ?_⟩
        exact hcond hclosing ((completes_iff hsequenced.reading).mpr hfinished)
      · exact absurd (hes ▸ List.mem_append_right mid List.mem_cons_self) (hno response)
    · exact ih before response mid hold

/-- No request is executed behind a closing response, and every response is sent,
    in exactly the runs in which no message completes a request there. -/
theorem closes_iff (h : machine.Reach anyStep tr conn) :
    Closes tr ↔ machine.Reach silentAfterClose tr conn := by
  have hguarded : Guarded IsCallback (fun before => ¬ Closing before) tr ↔
      machine.Reach silentAfterClose tr conn := by
    refine Machine.Reach.iff_condition guarded_nil (fun _ _ hall => hall.of_append) ?_ h
    intro tr conn message conn' es hreach hguarded hstep
    have hreading := (reach_sequenced hreach).reading
    rw [guarded_step_iff hguarded (step_of_ok hreading hstep), silentAfterClose,
      completes_iff hreading]
  constructor
  · exact fun hcloses => hguarded.mp hcloses.1
  · intro hreach
    refine ⟨hguarded.mpr hreach, ?_⟩
    rw [(reach_sequenced hreach).sent]
    exact map_serialise_prefix (not_ends_of_response hreach)

instance (tr : List HttpEvent) (conn : HttpConnection) (message : HttpMessage) :
    Decidable (silentAfterClose tr conn message) :=
  inferInstanceAs (Decidable (Closing tr → ¬ Completes conn message))

/-- A request by HTTP/1.0, and a part of another one behind its response. -/
theorem closes_iff_part : ∃ tr conn, machine.Reach silentAfterClose tr conn ∧ Closing tr ∧
    Closes tr := by
  have hruns : machine.runsIn silentAfterClose fresh
      [oldMessage, ⟨oldRequest.take 9, 8, defaultHttpCallback⟩] (fun tr _ => Closing tr) =
        true := by
    decide +kernel
  obtain ⟨tr, conn, hreach, htest⟩ := Machine.exists_reachIn rfl hruns
  exact ⟨tr, conn, hreach, of_decide_eq_true htest, (closes_iff hreach.any).mpr hreach⟩

/-- A second request behind the response that closes the connection is executed. -/
theorem executed_behind_close : ¬ ∀ tr conn, machine.Reach anyStep tr conn → Closes tr := by
  intro hall
  have hruns : machine.runs fresh [oldMessage, oldMessage]
      (fun tr _ => Passed (fun before e => IsCallback e ∧ Closing before) tr) = true := by
    decide +kernel
  obtain ⟨tr, conn, hreach, htest⟩ := Machine.exists_reach rfl hruns
  obtain ⟨before, e, after, hsplit, hcallback, hclosing⟩ := of_decide_eq_true htest
  exact (hall tr conn hreach).1 before e after hsplit hcallback hclosing

end HttpConnection

end TcpNet
