import TcpNet.Library.Search

namespace LineReader

variable {A C D : Type}

/-- What the handler of a line decides: take the line and go on, take it as the
    last one, or leave it where it is and give up. -/
inductive Verdict (C : Type) where
  | more (c : C)
  | last (c : C)
  | refuse (c : C)

/-- Why a reader stopped: no separator in sight, a last line, or a refused one. -/
inductive Outcome where
  | waiting
  | finished
  | refused
  deriving DecidableEq, Repr

/-- Whether no line was refused. -/
def Outcome.ok (outcome : Outcome) : Bool := outcome ≠ .refused

def Verdict.map (f : C → D) : Verdict C → Verdict D
  | .more c => .more (f c)
  | .last c => .last (f c)
  | .refuse c => .refuse (f c)

variable [DecidableEq A]

theorem length_lt_of_cut {sep v line rest : List A} (hsep : sep ≠ [])
    (h : Search.cut sep v = some (line, rest)) : rest.length < v.length := by
  have hsplit := congrArg List.length (Search.cut_eq_some h)
  have hpos := List.length_pos_of_ne_nil hsep
  simp only [List.length_append] at hsplit
  omega

/-- Hand line after line of `v` to `handle`, which keeps its own state. -/
def read (sep : List A) (hsep : sep ≠ []) (handle : C → List A → Verdict C) (c : C)
    (v : List A) : Outcome × C × List A :=
  match _hcut : Search.cut sep v with
  | none => (.waiting, c, v)
  | some (line, rest) =>
    match handle c line with
    | .more c' => read sep hsep handle c' rest
    | .last c' => (.finished, c', rest)
    | .refuse c' => (.refused, c', v)
termination_by v.length
decreasing_by exact length_lt_of_cut hsep _hcut

variable {sep : List A} {hsep : sep ≠ []} {handle : C → List A → Verdict C} {c c' : C}
  {v v' line rest : List A}

theorem read_of_none (h : Search.cut sep v = none) :
    read sep hsep handle c v = (.waiting, c, v) := by
  rw [read]
  split
  · rfl
  · rename_i hsome
    rw [h] at hsome
    cases hsome

theorem read_of_some (h : Search.cut sep v = some (line, rest)) :
    read sep hsep handle c v =
      match handle c line with
      | .more c' => read sep hsep handle c' rest
      | .last c' => (.finished, c', rest)
      | .refuse c' => (.refused, c', v) := by
  rw [read]
  split
  · rename_i hnone
    rw [h] at hnone
    cases hnone
  · rename_i line' rest' hsome
    rw [h, Option.some.injEq, Prod.mk.injEq] at hsome
    obtain ⟨rfl, rfl⟩ := hsome
    rfl

/-- The rule for a property of readings: one case for each way a line can go. -/
theorem read_induction (sep : List A) (hsep : sep ≠ []) (handle : C → List A → Verdict C)
    {motive : C → List A → Outcome × C × List A → Prop}
    (hwaiting : ∀ c v, Search.cut sep v = none → motive c v (.waiting, c, v))
    (hlast : ∀ c v line rest c', Search.cut sep v = some (line, rest) →
      handle c line = .last c' → motive c v (.finished, c', rest))
    (hrefuse : ∀ c v line rest c', Search.cut sep v = some (line, rest) →
      handle c line = .refuse c' → motive c v (.refused, c', v))
    (hmore : ∀ c v line rest c', Search.cut sep v = some (line, rest) →
      handle c line = .more c' → motive c' rest (read sep hsep handle c' rest) →
      motive c v (read sep hsep handle c' rest))
    (c : C) (v : List A) : motive c v (read sep hsep handle c v) := by
  induction hlength : v.length using Nat.strongRecOn generalizing c v with
  | ind n ih =>
    cases hcut : Search.cut sep v with
    | none =>
      rw [read_of_none hcut]
      exact hwaiting c v hcut
    | some cut =>
      obtain ⟨line, rest⟩ := cut
      rw [read_of_some hcut]
      cases hhandle : handle c line with
      | more c' =>
        have hshort := length_lt_of_cut hsep hcut
        exact hmore c v line rest c' hcut hhandle (ih _ (hlength ▸ hshort) c' rest rfl)
      | last c' => exact hlast c v line rest c' hcut hhandle
      | refuse c' => exact hrefuse c v line rest c' hcut hhandle

/-- A line that was refused still stands in front. -/
theorem read_of_refused (h : read sep hsep handle c v = (.refused, c', v')) :
    ∃ d line rest, Search.cut sep v' = some (line, rest) ∧ handle d line = .refuse c' := by
  induction c, v using read_induction sep hsep handle with
  | hwaiting c v hcut => cases h
  | hlast c v line rest d hcut hhandle => cases h
  | hrefuse c v line rest d hcut hhandle =>
    simp only [Prod.mk.injEq, true_and] at h
    obtain ⟨rfl, rfl⟩ := h
    exact ⟨c, line, rest, hcut, hhandle⟩
  | hmore c v line rest d hcut hhandle ih => exact ih h

/-- Append a piece to what a reading left and read on, unless the reading is over. -/
def feed (sep : List A) (hsep : sep ≠ []) (handle : C → List A → Verdict C)
    (reading : Outcome × C × List A) (w : List A) : Outcome × C × List A :=
  match reading with
  | (.waiting, c, v) => read sep hsep handle c (v ++ w)
  | (outcome, c, v) => (outcome, c, v ++ w)

/-- Reading goes on where it stopped: bytes behind a text that was too short are
    read as if they had been there from the start. -/
theorem read_append (sep : List A) (hsep : sep ≠ []) (handle : C → List A → Verdict C) (c : C)
    (v w : List A) :
    read sep hsep handle c (v ++ w) = feed sep hsep handle (read sep hsep handle c v) w := by
  induction c, v using read_induction sep hsep handle with
  | hwaiting c v hcut => rfl
  | hlast c v line rest c' hcut hhandle =>
    rw [read_of_some (Search.cut_append hcut w)]
    simp only [hhandle, feed]
  | hrefuse c v line rest c' hcut hhandle =>
    rw [read_of_some (Search.cut_append hcut w)]
    simp only [hhandle, feed]
  | hmore c v line rest c' hcut hhandle ih =>
    rw [read_of_some (Search.cut_append hcut w)]
    simp only [hhandle]
    exact ih

/-- The lines that a reading comes to, each with the state of the handler there. -/
inductive Meets (sep : List A) (handle : C → List A → Verdict C) :
    C → List A → C → List A → Prop
  | here {c : C} {v line rest : List A} (hcut : Search.cut sep v = some (line, rest)) :
      Meets sep handle c v c line
  | later {c c' d : C} {v line rest line' : List A} (hcut : Search.cut sep v = some (line, rest))
      (hmore : handle c line = .more c') (hmeets : Meets sep handle c' rest d line') :
      Meets sep handle c v d line'

theorem not_meets_of_none {d : C} (h : Search.cut sep v = none) :
    ¬ Meets sep handle c v d line := by
  intro hmeets
  cases hmeets with
  | here hcut =>
    rw [h] at hcut
    cases hcut
  | later hcut =>
    rw [h] at hcut
    cases hcut

theorem meets_of_some {d : C} {line' : List A} (h : Search.cut sep v = some (line, rest)) :
    Meets sep handle c v d line' ↔
      d = c ∧ line' = line ∨ ∃ c', handle c line = .more c' ∧ Meets sep handle c' rest d line' := by
  constructor
  · intro hmeets
    cases hmeets with
    | here hcut =>
      rw [h, Option.some.injEq, Prod.mk.injEq] at hcut
      exact .inl ⟨rfl, hcut.1.symm⟩
    | later hcut hmore hmeets =>
      rw [h, Option.some.injEq, Prod.mk.injEq] at hcut
      obtain ⟨rfl, rfl⟩ := hcut
      exact .inr ⟨_, hmore, hmeets⟩
  · rintro (⟨rfl, rfl⟩ | ⟨c', hmore, hmeets⟩)
    · exact .here h
    · exact .later h hmore hmeets

theorem read_nil : read sep hsep handle c [] = (.waiting, c, []) := by
  refine read_of_none ?_
  cases hcut : Search.cut sep ([] : List A) with
  | none => rfl
  | some cut =>
    obtain ⟨line, rest⟩ := cut
    exact absurd (length_lt_of_cut hsep hcut) (Nat.not_lt_zero _)

/-- A reader does not look at what a map of its states forgets. -/
theorem read_map {f : C → D} {handle' : D → List A → Verdict D}
    (hhandle : ∀ c line, handle' (f c) line = (handle c line).map f) (c : C) (v : List A) :
    read sep hsep handle' (f c) v =
      ((read sep hsep handle c v).1, f (read sep hsep handle c v).2.1,
        (read sep hsep handle c v).2.2) := by
  induction c, v using read_induction sep hsep handle with
  | hwaiting c v hcut => exact read_of_none hcut
  | hlast c v line rest c' hcut hline =>
    rw [read_of_some hcut, hhandle, hline, Verdict.map]
  | hrefuse c v line rest c' hcut hline =>
    rw [read_of_some hcut, hhandle, hline, Verdict.map]
  | hmore c v line rest c' hcut hline ih =>
    rw [read_of_some hcut, hhandle, hline, Verdict.map]
    exact ih

end LineReader
