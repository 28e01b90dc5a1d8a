import Mathlib.Data.List.Basic
import Mathlib.Data.List.TakeDrop

namespace Search

variable {A : Type} [DecidableEq A]

/-- The first index at which `pat` occurs in `v`. -/
def search (pat : List A) : List A → Option Nat
  | [] => if pat = [] then some 0 else none
  | a :: v => if pat <+: a :: v then some 0 else (search pat v).map (· + 1)

theorem search_eq_some_iff {pat v : List A} {n : Nat} :
    search pat v = some n ↔
      n ≤ v.length ∧ pat <+: v.drop n ∧ ∀ m, m < n → ¬ pat <+: v.drop m := by
  induction v generalizing n with
  | nil =>
    by_cases hpat : pat = []
    · simp only [search, hpat, if_true, Option.some.injEq, List.length_nil, List.nil_prefix,
        true_and, List.drop_nil, not_true_eq_false]
      constructor
      · rintro rfl
        exact ⟨Nat.le_refl 0, by omega⟩
      · rintro ⟨hn, _⟩
        omega
    · simp [search, hpat]
  | cons a v ih =>
    by_cases hp : pat <+: a :: v
    · simp only [search, hp, if_true, Option.some.injEq]
      constructor
      · rintro rfl
        exact ⟨Nat.zero_le _, by simpa using hp, by omega⟩
      · rintro ⟨_, _, hfirst⟩
        by_contra hne
        exact hfirst 0 (by omega) (by simpa using hp)
    · simp only [search, hp, if_false, Option.map_eq_some_iff, ih]
      constructor
      · rintro ⟨m, ⟨hm, hat, hfirst⟩, rfl⟩
        refine ⟨by simpa using hm, by simpa using hat, ?_⟩
        rintro (_ | k) hk
        · simpa using hp
        · simpa using hfirst k (by omega)
      · rintro ⟨hn, hat, hfirst⟩
        cases n with
        | zero => exact absurd (by simpa using hat) hp
        | succ m =>
          refine ⟨m, ⟨by simpa using hn, by simpa using hat, fun k hk => ?_⟩, rfl⟩
          simpa using hfirst (k + 1) (by omega)

theorem search_add_length_le {pat v : List A} {n : Nat} (h : search pat v = some n) :
    n + pat.length ≤ v.length := by
  obtain ⟨hn, hat, _⟩ := search_eq_some_iff.mp h
  have hlen := hat.length_le
  rw [List.length_drop] at hlen
  omega

/-- A match is stable: bytes written behind the searched text neither move nor
    remove the first occurrence. -/
theorem search_append {pat v : List A} {n : Nat} (h : search pat v = some n) (w : List A) :
    search pat (v ++ w) = some n := by
  have hroom := search_add_length_le h
  obtain ⟨hn, hat, hfirst⟩ := search_eq_some_iff.mp h
  refine search_eq_some_iff.mpr ⟨by simp; omega, ?_, fun m hm hpre => hfirst m hm ?_⟩
  · rw [List.drop_append_of_le_length hn]
    exact hat.trans (List.prefix_append _ _)
  · rw [List.drop_append_of_le_length (by omega)] at hpre
    exact List.prefix_of_prefix_length_le hpre (List.prefix_append _ _)
      (by rw [List.length_drop]; omega)

/-- What stands behind a match has no part in it. -/
theorem search_of_append {pat v w : List A} {n : Nat} (h : search pat (v ++ w) = some n)
    (hroom : n + pat.length ≤ v.length) : search pat v = some n := by
  obtain ⟨hn, hat, hfirst⟩ := search_eq_some_iff.mp h
  refine search_eq_some_iff.mpr ⟨by omega, ?_, fun m hm hpre => hfirst m hm ?_⟩
  · rw [List.drop_append_of_le_length (by omega)] at hat
    exact List.prefix_of_prefix_length_le hat (List.prefix_append _ _)
      (by rw [List.length_drop]; omega)
  · rw [List.drop_append_of_le_length (by omega)]
    exact hpre.trans (List.prefix_append _ _)

theorem search_cons_append {a : A} {p line : List A} (h : a ∉ line) (rest : List A) :
    search (a :: p) (line ++ (a :: p) ++ rest) = some line.length := by
  refine search_eq_some_iff.mpr ⟨by simp, ?_, ?_⟩
  · rw [List.append_assoc, List.drop_left]
    exact List.prefix_append _ _
  · intro m hm hpre
    rw [List.append_assoc, List.drop_append_of_le_length (by omega)] at hpre
    have hhead := List.drop_eq_getElem_cons hm
    rw [hhead, List.cons_append] at hpre
    have ha := (List.cons_prefix_cons.mp hpre).1
    exact h (ha ▸ List.getElem_mem hm)

/-- What stands in front of the first occurrence of `pat`, and what stands behind
    it. -/
def cut (pat v : List A) : Option (List A × List A) :=
  (search pat v).map fun n => (v.take n, v.drop (n + pat.length))

theorem cut_eq_some {pat v line rest : List A} (h : cut pat v = some (line, rest)) :
    v = line ++ pat ++ rest := by
  obtain ⟨n, hn, heq⟩ := Option.map_eq_some_iff.mp h
  rw [Prod.mk.injEq] at heq
  obtain ⟨rfl, rfl⟩ := heq
  obtain ⟨_, ⟨tail, htail⟩, _⟩ := search_eq_some_iff.mp hn
  have hdrop : v.drop (n + pat.length) = tail := by
    rw [← List.drop_drop, ← htail, List.drop_left]
  rw [hdrop, List.append_assoc, htail, List.take_append_drop]

theorem cut_append {pat v line rest : List A} (h : cut pat v = some (line, rest)) (w : List A) :
    cut pat (v ++ w) = some (line, rest ++ w) := by
  obtain ⟨n, hn, heq⟩ := Option.map_eq_some_iff.mp h
  rw [Prod.mk.injEq] at heq
  obtain ⟨rfl, rfl⟩ := heq
  have hle := search_add_length_le hn
  rw [cut, search_append hn, Option.map_some, List.take_append_of_le_length (by omega),
    List.drop_append_of_le_length hle]

/-- The first line is the same with any other text behind it. -/
theorem cut_replace {pat v line rest : List A} (h : cut pat v = some (line, rest))
    (rest' : List A) : cut pat (line ++ pat ++ rest') = some (line, rest') := by
  have hsplit := cut_eq_some h
  obtain ⟨n, hn, heq⟩ := Option.map_eq_some_iff.mp h
  rw [Prod.mk.injEq] at heq
  have hlength : line.length = n := by
    rw [← heq.1, List.length_take]
    have hle := search_add_length_le hn
    omega
  rw [hsplit, ← hlength] at hn
  have hfront : search pat (line ++ pat) = some line.length :=
    search_of_append hn (Nat.le_of_eq List.length_append.symm)
  have hcut : cut pat (line ++ pat) = some (line, []) := by
    rw [cut, hfront, Option.map_some, List.take_left, ← List.length_append, List.drop_length]
  exact cut_append hcut rest'

theorem cut_cons_append {a : A} {p line : List A} (h : a ∉ line) (rest : List A) :
    cut (a :: p) (line ++ (a :: p) ++ rest) = some (line, rest) := by
  rw [cut, search_cons_append h, Option.map_some, ← List.drop_drop]
  simp only [List.append_assoc, List.take_left, List.drop_left]

end Search
