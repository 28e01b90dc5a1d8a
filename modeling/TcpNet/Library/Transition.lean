import Mathlib.Data.List.Basic

namespace Transition

/-- Why an input produces no next state: it cannot happen in the current state,
    or an assertion of the modelled program fails on it. -/
inductive Stop where
  | disabled
  | assertion
  deriving DecidableEq, Repr

/-- A machine reads an input in a state and either stops or moves on, emitting
    the observable events of that step. -/
structure Machine (S L E : Type) where
  init : S → Prop
  step : S → L → Except Stop (S × List E)

/-- A side condition on single steps: the events so far, the state before the
    step, and its input. -/
abbrev StepCondition (S L E : Type) := List E → S → L → Prop

variable {S L E : Type}

/-- The states and traces of the runs whose every step meets `C`. A run ends
    where an assertion fails: no rule continues past a stop. -/
inductive Machine.Reach (M : Machine S L E) (C : StepCondition S L E) : List E → S → Prop
  | init {s : S} : M.init s → M.Reach C [] s
  | step {tr es : List E} {s s' : S} {l : L} : M.Reach C tr s → C tr s l →
      M.step s l = .ok (s', es) → M.Reach C (tr ++ es) s'

/-- No condition on the steps: every run of the machine. -/
def anyStep : StepCondition S L E := fun _ _ _ => True

theorem Machine.Reach.mono {M : Machine S L E} {C D : StepCondition S L E}
    (himp : ∀ tr s l, C tr s l → D tr s l) {tr : List E} {s : S} (h : M.Reach C tr s) :
    M.Reach D tr s := by
  induction h with
  | init hinit => exact .init hinit
  | step _ hcond hstep ih => exact .step ih (himp _ _ _ hcond) hstep

theorem Machine.Reach.any {M : Machine S L E} {C : StepCondition S L E} {tr : List E} {s : S}
    (h : M.Reach C tr s) : M.Reach anyStep tr s :=
  h.mono (fun _ _ _ _ => trivial)

/-- The invariant rule: what holds initially and is kept by every admitted step
    holds in every state reached, together with the trace that led there. -/
theorem Machine.Reach.invariant {M : Machine S L E} {C : StepCondition S L E}
    {I : List E → S → Prop} (hinit : ∀ s, M.init s → I [] s)
    (hstep : ∀ tr s l s' es, M.Reach C tr s → I tr s → C tr s l →
      M.step s l = .ok (s', es) → I (tr ++ es) s')
    {tr : List E} {s : S} (h : M.Reach C tr s) : I tr s := by
  induction h with
  | init h0 => exact hinit _ h0
  | step hreach hcond hs ih => exact hstep _ _ _ _ _ hreach ih hcond hs

/-- A property of traces that each step keeps exactly when the step meets `C`
    holds of a run exactly when all its steps meet `C`. Losing the property is
    final, so the condition can be read off step by step. -/
theorem Machine.Reach.iff_condition {M : Machine S L E} {C : StepCondition S L E}
    {P : List E → Prop} (hnil : P [])
    (hcut : ∀ tr es, P (tr ++ es) → P tr)
    (hstep : ∀ tr s l s' es, M.Reach C tr s → P tr →
      M.step s l = .ok (s', es) → (P (tr ++ es) ↔ C tr s l))
    {tr : List E} {s : S} (h : M.Reach anyStep tr s) : P tr ↔ M.Reach C tr s := by
  have holds : ∀ {tr s}, M.Reach C tr s → P tr := by
    intro tr s hreach
    induction hreach with
    | init _ => exact hnil
    | step hreach hcond hs ih => exact (hstep _ _ _ _ _ hreach ih hs).mpr hcond
  refine ⟨fun hP => ?_, holds⟩
  induction h with
  | init h0 => exact .init h0
  | step _ _ hs ih =>
    have hbefore := hcut _ _ hP
    have hreach := ih hbefore
    exact .step hreach ((hstep _ _ _ _ _ hreach hbefore hs).mp hP) hs

/-- The machine that goes on from `s`. -/
def Machine.after (M : Machine S L E) (s : S) : Machine S L E := { M with init := fun s' => s' = s }

/-- A run that goes on from the end of another one is the rest of a longer run. -/
theorem Machine.Reach.trans {M : Machine S L E} {C D : StepCondition S L E} {tr tr' : List E}
    {s s' : S} (h : M.Reach C tr s) (hafter : (M.after s).Reach D tr' s') :
    M.Reach anyStep (tr ++ tr') s' := by
  induction hafter with
  | init hinit =>
    rw [List.append_nil, show _ = s from hinit]
    exact h.any
  | step _ _ hstep ih =>
    rw [← List.append_assoc]
    exact ih.step trivial hstep

/-- Follow a list of inputs, up to the first one that stops. -/
def Machine.exec (M : Machine S L E) (s : S) : List L → Except Stop (S × List E)
  | [] => .ok (s, [])
  | l :: rest =>
    match M.step s l with
    | .error e => .error e
    | .ok (s', es) =>
      match M.exec s' rest with
      | .error e => .error e
      | .ok (s'', es') => .ok (s'', es ++ es')

theorem Machine.exec_unique {M : Machine S L E} {s s' s'' : S} {tr es : List E} {ls : List L}
    (h : M.exec s ls = .ok (s', tr)) (h' : M.exec s ls = .ok (s'', es)) : s' = s'' ∧ tr = es := by
  rw [h, Except.ok.injEq, Prod.mk.injEq] at h'
  exact h'

/-- By induction over the first part. -/
theorem Machine.exec_append {M : Machine S L E} {s s' s'' : S} {tr es : List E} {ls ls' : List L}
    (h : M.exec s ls = .ok (s', tr)) (h' : M.exec s' ls' = .ok (s'', es)) :
    M.exec s (ls ++ ls') = .ok (s'', tr ++ es) := by
  induction ls generalizing s tr with
  | nil =>
    simp only [Machine.exec, Except.ok.injEq, Prod.mk.injEq] at h
    obtain ⟨rfl, rfl⟩ := h
    exact h'
  | cons first rest ih =>
    simp only [Machine.exec] at h
    rw [List.cons_append, Machine.exec]
    cases hfirst : M.step s first with
    | error e => rw [hfirst] at h; cases h
    | ok next =>
      obtain ⟨s₁, es₁⟩ := next
      rw [hfirst] at h
      cases hrest : M.exec s₁ rest with
      | error e => simp only [hrest] at h; cases h
      | ok last =>
        obtain ⟨s₂, es₂⟩ := last
        simp only [hrest, Except.ok.injEq, Prod.mk.injEq] at h
        obtain ⟨rfl, rfl⟩ := h
        simp only [ih hrest, List.append_assoc]

theorem Machine.exec_singleton {M : Machine S L E} {s s' : S} {es : List E} {l : L}
    (hstep : M.step s l = .ok (s', es)) : M.exec s [l] = .ok (s', es) := by
  simp only [Machine.exec, hstep, List.append_nil]

theorem Machine.exec_concat {M : Machine S L E} {s s' s'' : S} {tr es : List E} {ls : List L}
    {l : L} (h : M.exec s ls = .ok (s', tr)) (hstep : M.step s' l = .ok (s'', es)) :
    M.exec s (ls ++ [l]) = .ok (s'', tr ++ es) :=
  M.exec_append h (M.exec_singleton hstep)

theorem Machine.Reach.exec {M : Machine S L E} {C : StepCondition S L E} {s s' : S}
    {tr es : List E} {ls : List L} (hcond : ∀ l ∈ ls, ∀ tr s, C tr s l) (h : M.Reach C tr s)
    (hexec : M.exec s ls = .ok (s', es)) : M.Reach C (tr ++ es) s' := by
  induction ls generalizing s tr es with
  | nil =>
    simp only [Machine.exec, Except.ok.injEq, Prod.mk.injEq] at hexec
    obtain ⟨rfl, rfl⟩ := hexec
    rw [List.append_nil]
    exact h
  | cons l rest ih =>
    simp only [Machine.exec] at hexec
    cases hstep : M.step s l with
    | error e => rw [hstep] at hexec; cases hexec
    | ok next =>
      obtain ⟨s₁, es₁⟩ := next
      rw [hstep] at hexec
      cases hrest : M.exec s₁ rest with
      | error e => simp only [hrest] at hexec; cases hexec
      | ok last =>
        obtain ⟨s₂, es₂⟩ := last
        simp only [hrest, Except.ok.injEq, Prod.mk.injEq] at hexec
        obtain ⟨rfl, rfl⟩ := hexec
        rw [← List.append_assoc]
        have hfirst := h.step (hcond l List.mem_cons_self tr s) hstep
        exact ih (fun l' hl' => hcond l' (List.mem_cons_of_mem _ hl')) hfirst hrest

/-- The inputs `ls` go through and end in a state, with a trace, that pass `test`. -/
def Machine.runs (M : Machine S L E) (s : S) (ls : List L) (test : List E → S → Bool) : Bool :=
  match M.exec s ls with
  | .error _ => false
  | .ok (s', tr) => test tr s'

theorem Machine.exists_reach_of {M : Machine S L E} {C : StepCondition S L E} {s : S}
    {ls : List L} {test : List E → S → Bool} (hinit : M.init s)
    (hcond : ∀ l ∈ ls, ∀ tr s, C tr s l) (hruns : M.runs s ls test = true) :
    ∃ tr s', M.Reach C tr s' ∧ test tr s' = true := by
  unfold Machine.runs at hruns
  cases hexec : M.exec s ls with
  | error e => rw [hexec] at hruns; cases hruns
  | ok last =>
    obtain ⟨s', tr⟩ := last
    rw [hexec] at hruns
    have hreach := Machine.Reach.exec hcond (.init hinit) hexec
    rw [List.nil_append] at hreach
    exact ⟨tr, s', hreach, hruns⟩

theorem Machine.exists_reach {M : Machine S L E} {s : S} {ls : List L}
    {test : List E → S → Bool} (hinit : M.init s) (hruns : M.runs s ls test = true) :
    ∃ tr s', M.Reach anyStep tr s' ∧ test tr s' = true :=
  Machine.exists_reach_of hinit (fun _ _ _ _ => trivial) hruns

/-- Follow a list of inputs as long as every step meets `C`, and keep the trace. -/
def Machine.execIn (M : Machine S L E) (C : StepCondition S L E)
    [∀ tr s l, Decidable (C tr s l)] (tr : List E) (s : S) : List L → Except Stop (S × List E)
  | [] => .ok (s, tr)
  | l :: rest =>
    if C tr s l then
      match M.step s l with
      | .error e => .error e
      | .ok (s', es) => M.execIn C (tr ++ es) s' rest
    else .error .disabled

theorem Machine.Reach.execIn {M : Machine S L E} {C : StepCondition S L E}
    [∀ tr s l, Decidable (C tr s l)] {s s' : S} {tr tr' : List E} {ls : List L}
    (h : M.Reach C tr s) (hexec : M.execIn C tr s ls = .ok (s', tr')) : M.Reach C tr' s' := by
  induction ls generalizing s tr with
  | nil =>
    simp only [Machine.execIn, Except.ok.injEq, Prod.mk.injEq] at hexec
    obtain ⟨rfl, rfl⟩ := hexec
    exact h
  | cons l rest ih =>
    simp only [Machine.execIn] at hexec
    split at hexec
    · rename_i hcond
      cases hstep : M.step s l with
      | error e => rw [hstep] at hexec; cases hexec
      | ok next =>
        obtain ⟨s₁, es₁⟩ := next
        rw [hstep] at hexec
        exact ih (h.step hcond hstep) hexec
    · cases hexec

/-- The inputs `ls` meet `C`, and end in a state, with a trace, that pass `test`. -/
def Machine.runsIn (M : Machine S L E) (C : StepCondition S L E)
    [∀ tr s l, Decidable (C tr s l)] (s : S) (ls : List L) (test : List E → S → Bool) : Bool :=
  match M.execIn C [] s ls with
  | .error _ => false
  | .ok (s', tr) => test tr s'

theorem Machine.exists_reachIn {M : Machine S L E} {C : StepCondition S L E}
    [∀ tr s l, Decidable (C tr s l)] {s : S} {ls : List L} {test : List E → S → Bool}
    (hinit : M.init s) (hruns : M.runsIn C s ls test = true) :
    ∃ tr s', M.Reach C tr s' ∧ test tr s' = true := by
  unfold Machine.runsIn at hruns
  cases hexec : M.execIn C [] s ls with
  | error e => rw [hexec] at hruns; cases hruns
  | ok last =>
    obtain ⟨s', tr⟩ := last
    rw [hexec] at hruns
    exact ⟨tr, s', Machine.Reach.execIn (.init hinit) hexec, hruns⟩

/-- Forward simulation: `abs` maps initial states to initial states, and every
    step to a step on the translated input, with the events seen through `ev`.
    A step without a translated input changes nothing that the abstraction sees. -/
structure Simulation {S' L' E' : Type} (M : Machine S L E) (N : Machine S' L' E')
    (abs : S → S') (lab : S → L → Option L') (ev : E → List E') (C : StepCondition S L E) :
    Prop where
  init : ∀ s, M.init s → N.init (abs s)
  step : ∀ tr s l s' es, M.Reach C tr s → C tr s l → M.step s l = .ok (s', es) →
    match lab s l with
    | none => abs s' = abs s ∧ es.flatMap ev = []
    | some l' => N.step (abs s) l' = .ok (abs s', es.flatMap ev)

theorem Simulation.reach {S' L' E' : Type} {M : Machine S L E} {N : Machine S' L' E'}
    {abs : S → S'} {lab : S → L → Option L'} {ev : E → List E'} {C : StepCondition S L E}
    (hsim : Simulation M N abs lab ev C) {tr : List E} {s : S} (h : M.Reach C tr s) :
    N.Reach anyStep (tr.flatMap ev) (abs s) := by
  induction h with
  | init h0 => exact .init (hsim.init _ h0)
  | @step tr es s s' l hreach hcond hs ih =>
    have hstep := hsim.step _ _ _ _ _ hreach hcond hs
    rw [List.flatMap_append]
    cases hlab : lab s l with
    | none =>
      rw [hlab] at hstep
      obtain ⟨hsame, hquiet⟩ := hstep
      rw [hsame, hquiet, List.append_nil]
      exact ih
    | some l' =>
      rw [hlab] at hstep
      exact .step ih trivial hstep

section Guards

variable {A B : Type}

/-- Turn a test into a step that is possible only where the test holds. -/
def enabled (test : Prop) [Decidable test] : Except Stop Unit :=
  if test then .ok () else .error .disabled

/-- An assertion of the program: where it fails, the run ends. -/
def require (test : Prop) [Decidable test] : Except Stop Unit :=
  if test then .ok () else .error .assertion

theorem bind_eq_ok_iff {x : Except Stop A} {f : A → Except Stop B} {y : B} :
    (x >>= f) = .ok y ↔ ∃ a, x = .ok a ∧ f a = .ok y := by
  cases x <;> simp [Bind.bind, Except.bind]

@[simp] theorem ok_bind {a : A} {f : A → Except Stop B} : (Except.ok a >>= f) = f a := rfl

@[simp] theorem error_bind {e : Stop} {f : A → Except Stop B} :
    ((Except.error e : Except Stop A) >>= f) = .error e := rfl

theorem bind_eq_error_iff {x : Except Stop A} {f : A → Except Stop B} {e : Stop} :
    (x >>= f) = .error e ↔ x = .error e ∨ ∃ a, x = .ok a ∧ f a = .error e := by
  cases x <;> simp [Bind.bind, Except.bind]

theorem enabled_of {test : Prop} [Decidable test] (h : test) : enabled test = .ok () :=
  if_pos h

theorem require_of {test : Prop} [Decidable test] (h : test) : require test = .ok () :=
  if_pos h

@[simp] theorem enabled_eq_ok_iff {test : Prop} [Decidable test] {u : Unit} :
    enabled test = .ok u ↔ test := by
  unfold enabled
  split <;> simp_all

@[simp] theorem enabled_ne_assertion {test : Prop} [Decidable test] :
    ¬ enabled test = .error .assertion := by
  unfold enabled
  split <;> simp

@[simp] theorem require_eq_ok_iff {test : Prop} [Decidable test] {u : Unit} :
    require test = .ok u ↔ test := by
  unfold require
  split <;> simp_all

@[simp] theorem require_eq_assertion_iff {test : Prop} [Decidable test] :
    require test = .error .assertion ↔ ¬ test := by
  unfold require
  split <;> simp_all

@[simp] theorem pure_eq_ok_iff {x y : A} : (pure x : Except Stop A) = .ok y ↔ x = y := by
  simp [pure, Except.pure]

@[simp] theorem pure_ne_error {x : A} {e : Stop} : ¬ (pure x : Except Stop A) = .error e := by
  simp [pure, Except.pure]

/-- The value of a computation that is known to go through. -/
def value : (x : Except Stop A) → (∃ a, x = .ok a) → A
  | .ok a, _ => a
  | .error _, h => False.elim (by obtain ⟨a, ha⟩ := h; cases ha)

theorem eq_ok_value {x : Except Stop A} (h : ∃ a, x = .ok a) : x = .ok (value x h) := by
  obtain ⟨a, rfl⟩ := h
  rfl

/-- The value of a computation together with a fact that every result satisfies. -/
def attach {P : A → Prop} (x : Except Stop A) (h : ∀ a, x = .ok a → P a) :
    Except Stop { a : A // P a } :=
  match x, h with
  | .ok a, h => .ok ⟨a, h a rfl⟩
  | .error e, _ => .error e

theorem attach_eq_ok_iff {P : A → Prop} {x : Except Stop A} {h : ∀ a, x = .ok a → P a}
    {y : { a : A // P a }} : attach x h = .ok y ↔ x = .ok y.1 := by
  cases x with
  | error e => simp [attach]
  | ok a => simp [attach, Subtype.ext_iff]

end Guards

end Transition
