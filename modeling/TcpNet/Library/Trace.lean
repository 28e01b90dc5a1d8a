import Mathlib.Data.List.Basic
import Mathlib.Data.List.Induction

namespace Trace

variable {E : Type}

/-- Every event of kind `p` stands behind a history that meets `Q`. -/
def Guarded (p : E → Prop) (Q : List E → Prop) (tr : List E) : Prop :=
  ∀ before e after, tr = before ++ e :: after → p e → Q before

variable {p : E → Prop} {Q : List E → Prop} {tr es : List E}

theorem guarded_of_forall_not (h : ∀ e ∈ es, ¬ p e) : Guarded p Q es := by
  intro before e after hsplit hp
  refine absurd hp (h e ?_)
  rw [hsplit]
  exact List.mem_append_right _ List.mem_cons_self

theorem guarded_nil : Guarded p Q [] := guarded_of_forall_not (by simp)

/-- The first event of a trace stands behind nothing. -/
theorem guarded_cons_iff {e : E} :
    Guarded p Q (e :: es) ↔ (p e → Q []) ∧ Guarded p (fun before => Q (e :: before)) es := by
  constructor
  · intro h
    refine ⟨h [] e es rfl, ?_⟩
    rintro before e' after rfl hp
    exact h (e :: before) e' after rfl hp
  · rintro ⟨hfirst, hrest⟩ before e' after hsplit hp
    cases before with
    | nil =>
      rw [List.nil_append, List.cons.injEq] at hsplit
      obtain ⟨rfl, _⟩ := hsplit
      exact hfirst hp
    | cons first before =>
      rw [List.cons_append, List.cons.injEq] at hsplit
      obtain ⟨rfl, hsplit⟩ := hsplit
      exact hrest before e' after hsplit hp

theorem Guarded.mono {R : List E → Prop} (h : Guarded p Q tr) (hmono : ∀ before, Q before → R before) :
    Guarded p R tr :=
  fun before e after hsplit hp => hmono before (h before e after hsplit hp)

/-- No event stands behind one that has not come. -/
theorem guarded_of_notMem {e : E} (h : e ∉ tr) : Guarded p (e ∉ ·) tr := by
  rintro before e' after rfl _ hmem
  exact h (List.mem_append_left _ hmem)

theorem Guarded.of_append (h : Guarded p Q (tr ++ es)) : Guarded p Q tr := by
  intro before e after hsplit hp
  refine h before e (after ++ es) ?_ hp
  rw [hsplit, List.append_assoc, List.cons_append]

/-- An event of a longer trace is one of the new events or one of the old. -/
theorem append_cases {before after : List E} {e : E} (h : tr ++ es = before ++ e :: after) :
    (∃ mid, before = tr ++ mid ∧ es = mid ++ e :: after) ∨ ∃ mid, tr = before ++ e :: mid := by
  rcases List.append_eq_append_iff.mp h with ⟨mid, hbefore, hes⟩ | ⟨mid, hold, hrest⟩
  · exact .inl ⟨mid, hbefore, hes⟩
  · cases mid with
    | nil =>
      rw [List.append_nil] at hold
      exact .inl ⟨[], by rw [List.append_nil, hold], hrest.symm⟩
    | cons first mid =>
      rw [List.cons_append, List.cons.injEq] at hrest
      obtain ⟨rfl, _⟩ := hrest
      exact .inr ⟨mid, hold⟩

/-- New events keep a guarded trace guarded when they are, behind the old ones. -/
theorem guarded_append_iff (h : Guarded p Q tr) :
    Guarded p Q (tr ++ es) ↔ Guarded p (fun before => Q (tr ++ before)) es := by
  constructor
  · intro hall before e after hsplit hp
    refine hall (tr ++ before) e after ?_ hp
    rw [hsplit, List.append_assoc]
  · intro hnew before e after hsplit hp
    rcases append_cases hsplit with ⟨mid, rfl, hes⟩ | ⟨mid, hold⟩
    · exact hnew mid e after hes hp
    · exact h before e mid hold hp

/-- The event comes at the end, for the first time. -/
theorem guarded_concat_of_notMem {e : E} (h : e ∉ tr) : Guarded p (e ∉ ·) (tr ++ [e]) := by
  refine (guarded_append_iff (guarded_of_notMem h)).mpr ?_
  rw [guarded_cons_iff]
  refine ⟨fun _ => ?_, guarded_nil⟩
  rw [List.append_nil]
  exact h

/-- With one event of the kind, at the end, only the history in front of it counts. -/
theorem guarded_concat_iff {before : List E} {e : E} (hnone : ∀ e ∈ before, ¬ p e) (hp : p e) :
    Guarded p Q (before ++ [e]) ↔ Q before := by
  rw [guarded_append_iff (guarded_of_forall_not hnone)]
  constructor
  · intro h
    have hfirst : Q (before ++ []) := h [] e [] rfl hp
    rw [List.append_nil] at hfirst
    exact hfirst
  · intro h before' e' after hsplit _
    rw [List.singleton_eq_append_iff] at hsplit
    rcases hsplit with ⟨rfl, _⟩ | ⟨_, hnil⟩
    · rw [List.append_nil]
      exact h
    · cases hnil

theorem guarded_singleton_iff {e : E} (hp : p e) : Guarded p Q [e] ↔ Q [] := by
  rw [← List.nil_append [e]]
  exact guarded_concat_iff (List.forall_mem_nil _) hp

/-- Some event of the trace stands behind a history with which it meets `Q`. -/
def Passed (Q : List E → E → Prop) (tr : List E) : Prop :=
  ∃ before e after, tr = before ++ e :: after ∧ Q before e

theorem passed_nil {Q : List E → E → Prop} : ¬ Passed Q [] := by
  rintro ⟨before, e, after, hsplit, _⟩
  exact List.append_ne_nil_of_right_ne_nil before (List.cons_ne_nil e after) hsplit.symm

theorem passed_append_iff {Q : List E → E → Prop} :
    Passed Q (tr ++ es) ↔ Passed Q tr ∨ Passed (fun before => Q (tr ++ before)) es := by
  constructor
  · rintro ⟨before, e, after, hsplit, hQ⟩
    rcases append_cases hsplit with ⟨mid, rfl, hes⟩ | ⟨mid, hold⟩
    · exact .inr ⟨mid, e, after, hes, hQ⟩
    · exact .inl ⟨before, e, mid, hold, hQ⟩
  · rintro (⟨before, e, after, rfl, hQ⟩ | ⟨before, e, after, rfl, hQ⟩)
    · exact ⟨before, e, after ++ es, by rw [List.append_assoc, List.cons_append], hQ⟩
    · exact ⟨tr ++ before, e, after, by rw [List.append_assoc], hQ⟩

theorem passed_cons_iff {Q : List E → E → Prop} {e : E} :
    Passed Q (e :: es) ↔ Q [] e ∨ Passed (fun before => Q (e :: before)) es := by
  constructor
  · rintro ⟨before, e', after, hsplit, hQ⟩
    cases before with
    | nil =>
      rw [List.nil_append, List.cons.injEq] at hsplit
      exact .inl (hsplit.1 ▸ hQ)
    | cons first before =>
      rw [List.cons_append, List.cons.injEq] at hsplit
      exact .inr ⟨before, e', after, hsplit.2, hsplit.1 ▸ hQ⟩
  · rintro (hQ | ⟨before, e', after, rfl, hQ⟩)
    · exact ⟨[], e, es, rfl, hQ⟩
    · exact ⟨e :: before, e', after, rfl, hQ⟩

theorem not_passed_of_forall_not {Q : List E → E → Prop} (h : ∀ e ∈ es, ∀ before, ¬ Q before e) :
    ¬ Passed Q es := by
  rintro ⟨before, e, after, rfl, hQ⟩
  exact h e (List.mem_append_right _ List.mem_cons_self) before hQ

instance decidablePassed : (Q : List E → E → Prop) → [∀ before e, Decidable (Q before e)] →
    (tr : List E) → Decidable (Passed Q tr)
  | _, _, [] => .isFalse passed_nil
  | Q, _, e :: es =>
    have := decidablePassed (fun before => Q (e :: before)) es
    decidable_of_iff (Q [] e ∨ Passed (fun before => Q (e :: before)) es) passed_cons_iff.symm

section BeforeLast

variable {q : E → Bool}

/-- The history in front of the last event of kind `q`. -/
def beforeLast (q : E → Bool) (tr : List E) : List E :=
  (tr.reverse.dropWhile (fun e => !q e)).tail.reverse

theorem beforeLast_concat {e : E} :
    beforeLast q (tr ++ [e]) = if q e then tr else beforeLast q tr := by
  cases hq : q e <;> simp [beforeLast, hq]

theorem beforeLast_append_of_forall_not (h : ∀ e ∈ es, q e = false) :
    beforeLast q (tr ++ es) = beforeLast q tr := by
  induction es generalizing tr with
  | nil => rw [List.append_nil]
  | cons e es ih =>
    rw [List.append_cons, ih (fun e' he' => h e' (List.mem_cons_of_mem e he')), beforeLast_concat,
      h e List.mem_cons_self]
    rfl

/-- The last event of the kind, with none behind it. -/
theorem beforeLast_append_cons {e : E} (he : q e = true) (h : ∀ e ∈ es, q e = false) :
    beforeLast q (tr ++ e :: es) = tr := by
  rw [List.append_cons, beforeLast_append_of_forall_not h, beforeLast_concat, he]
  rfl

/-- The events behind the last event of kind `q`, or all where there is none. -/
def sinceLast (q : E → Bool) (tr : List E) : List E :=
  (tr.reverse.takeWhile (fun e => !q e)).reverse

theorem sinceLast_concat {e : E} :
    sinceLast q (tr ++ [e]) = if q e then [] else sinceLast q tr ++ [e] := by
  cases hq : q e <;> simp [sinceLast, hq]

theorem sinceLast_append_of_forall_not (h : ∀ e ∈ es, q e = false) :
    sinceLast q (tr ++ es) = sinceLast q tr ++ es := by
  induction es generalizing tr with
  | nil => rw [List.append_nil, List.append_nil]
  | cons e es ih =>
    rw [List.append_cons, ih (fun e' he' => h e' (List.mem_cons_of_mem e he')), sinceLast_concat,
      h e List.mem_cons_self]
    exact (List.append_cons _ e es).symm

/-- The last event of the kind, with none behind it. -/
theorem sinceLast_append_cons {e : E} (he : q e = true) (h : ∀ e ∈ es, q e = false) :
    sinceLast q (tr ++ e :: es) = es := by
  rw [List.append_cons, sinceLast_append_of_forall_not h, sinceLast_concat, if_pos he,
    List.nil_append]

/-- An event behind the last one of kind `q` is a new one behind the last of the new ones,
    or an old one, and no new one is of that kind. -/
theorem mem_sinceLast_append {e : E} :
    e ∈ sinceLast q (tr ++ es) ↔
      e ∈ sinceLast q es ∨ e ∈ sinceLast q tr ∧ ∀ e' ∈ es, q e' = false := by
  induction es using List.reverseRecOn with
  | nil => simp [sinceLast]
  | append_singleton es last ih =>
    rw [← List.append_assoc, sinceLast_concat, sinceLast_concat]
    cases hlast : q last with
    | true => simp [hlast]
    | false =>
      simp only [Bool.false_eq_true, if_false, List.mem_append, List.mem_singleton, ih]
      constructor
      · rintro ((hnew | ⟨hold, hnone⟩) | rfl)
        · exact .inl (.inl hnew)
        · refine .inr ⟨hold, ?_⟩
          rintro e' (hmem | rfl)
          · exact hnone e' hmem
          · exact hlast
        · exact .inl (.inr rfl)
      · rintro ((hnew | rfl) | ⟨hold, hnone⟩)
        · exact .inl (.inl hnew)
        · exact .inr rfl
        · exact .inl (.inr ⟨hold, fun e' hmem => hnone e' (.inl hmem)⟩)

theorem mem_sinceLast_cons {e first : E} :
    e ∈ sinceLast q (first :: es) ↔
      e ∈ sinceLast q es ∨ e = first ∧ q first = false ∧ ∀ e' ∈ es, q e' = false := by
  rw [← List.singleton_append, mem_sinceLast_append]
  cases hfirst : q first <;> simp [sinceLast, hfirst]

@[simp] theorem sinceLast_nil : sinceLast q ([] : List E) = [] := rfl

end BeforeLast

end Trace
