import Mathlib.Data.List.Basic
import Mathlib.Data.List.DropRight
import Mathlib.Data.List.TakeDrop

namespace Memory

variable {A : Type}

/-- The cells of a vector from index `i` up to, not including, index `j`. -/
def slice (v : List A) (i j : Nat) : List A := (v.drop i).take (j - i)

/-- Overwrite the cells starting at index `i` with `data`. Nothing is added:
    the caller has to make sure that the data fits. -/
def copyInto (v : List A) (i : Nat) (data : List A) : List A :=
  v.take i ++ data ++ v.drop (i + data.length)

/-- Change the number of cells to `n`, new cells holding `fill`. -/
def resize (v : List A) (n : Nat) (fill : A) : List A :=
  v.take n ++ List.replicate (n - v.length) fill

/-- Read the cells from `i` up to `j`, where there are as many. -/
def load (v : List A) (i j : Nat) : Option (List A) :=
  if j ≤ v.length then some (slice v i j) else none

/-- Overwrite cells, where all of them are there. -/
def store (v : List A) (i : Nat) (data : List A) : Option (List A) :=
  if i + data.length ≤ v.length then some (copyInto v i data) else none

theorem load_of_le {v : List A} {i j : Nat} (h : j ≤ v.length) : load v i j = some (slice v i j) :=
  if_pos h

theorem store_of_le {v data : List A} {i : Nat} (h : i + data.length ≤ v.length) :
    store v i data = some (copyInto v i data) :=
  if_pos h

theorem length_slice {v : List A} {i j : Nat} (hj : j ≤ v.length) :
    (slice v i j).length = j - i := by
  simp only [slice, List.length_take, List.length_drop]
  omega

@[simp] theorem slice_self (v : List A) (i : Nat) : slice v i i = [] := by
  simp [slice]

theorem slice_drop (v : List A) (i j n : Nat) : slice v (i + n) j = (slice v i j).drop n := by
  simp only [slice, List.drop_take, List.drop_drop]
  congr 1
  omega

theorem slice_append_slice {v : List A} {i j k : Nat} (hij : i ≤ j) (hjk : j ≤ k) :
    slice v i j ++ slice v j k = slice v i k := by
  have hsplit : k - i = (j - i) + (k - j) := by omega
  have hstart : i + (j - i) = j := by omega
  simp only [slice, hsplit, List.take_add, List.drop_drop, hstart]

@[simp] theorem length_copyInto {v data : List A} {i : Nat} (hfit : i + data.length ≤ v.length) :
    (copyInto v i data).length = v.length := by
  simp only [copyInto, List.length_append, List.length_take, List.length_drop]
  omega

theorem length_of_store {v v' data : List A} {i : Nat} (h : store v i data = some v') :
    v'.length = v.length := by
  unfold store at h
  split at h
  · rename_i hfit
    rw [← Option.some.inj h, length_copyInto hfit]
  · cases h

/-- The overwritten cells read back as the data. -/
theorem slice_copyInto_data (v data : List A) {i : Nat} (hi : i ≤ v.length) :
    slice (copyInto v i data) i (i + data.length) = data := by
  have hlen : (v.take i).length = i := by simp [hi]
  rw [slice, copyInto, List.append_assoc, List.drop_append_of_le_length (by omega),
    List.drop_of_length_le (by omega)]
  simp

/-- Cells before the overwritten ones are unchanged. -/
theorem slice_copyInto_before {v data : List A} {i j k : Nat} (hk : k ≤ i) (hi : i ≤ v.length) :
    slice (copyInto v i data) j k = slice v j k := by
  have hlen : (v.take i).length = i := by simp [hi]
  by_cases hjk : j ≤ k
  · rw [slice, copyInto, List.append_assoc, List.drop_append_of_le_length (by omega),
      List.take_append_of_le_length (by simp; omega), List.drop_take, List.take_take, slice]
    congr 1
    omega
  · have hempty : k - j = 0 := by omega
    simp [slice, hempty]

/-- Cells behind the overwritten ones are unchanged. -/
theorem slice_copyInto_after {v data : List A} {i j k : Nat}
    (hfit : i + data.length ≤ v.length) (hj : i + data.length ≤ j) :
    slice (copyInto v i data) j k = slice v j k := by
  have hlen : (v.take i ++ data).length = i + data.length := by simp; omega
  have hrest : j - (i + data.length) + (i + data.length) = j := by omega
  have hdrop : (copyInto v i data).drop j = v.drop j := by
    rw [copyInto, List.drop_append, List.drop_of_length_le (by omega), hlen, List.drop_drop,
      List.nil_append]
    congr 1
    omega
  rw [slice, hdrop, slice]

theorem length_resize (v : List A) (n : Nat) (fill : A) : (resize v n fill).length = n := by
  simp only [resize, List.length_append, List.length_take, List.length_replicate]
  omega

theorem slice_resize {v : List A} {i j n : Nat} (fill : A) (hn : j ≤ n) (hj : j ≤ v.length) :
    slice (resize v n fill) i j = slice v i j := by
  by_cases hij : i ≤ j
  · have hlen : (v.take n).length = min n v.length := by simp
    rw [slice, resize, List.drop_append_of_le_length (by omega),
      List.take_append_of_le_length (by simp; omega), List.drop_take, List.take_take, slice]
    congr 1
    omega
  · have hempty : j - i = 0 := by omega
    simp [slice, hempty]

theorem take_copyInto {v data : List A} {i : Nat} (hi : i ≤ v.length) :
    (copyInto v i data).take i = v.take i := by
  have hlen : (v.take i).length = i := List.length_take_of_le hi
  rw [copyInto, List.append_assoc, List.take_append_of_le_length (by omega),
    List.take_of_length_le (by omega)]

/-- Up to the end of the data. -/
theorem take_copyInto_add {v : List A} (data : List A) {i : Nat} (hi : i ≤ v.length) :
    (copyInto v i data).take (i + data.length) = v.take i ++ data := by
  have hlen : (v.take i ++ data).length = i + data.length := by simp [hi]
  rw [copyInto, List.take_append_of_le_length (by omega), List.take_of_length_le (by omega)]

section ScanBack

variable (p : A → Bool)

/-- The loop `while (p(*--i)) {}`, which ends where it reads in front of the cells. -/
def scanBack (v : List A) : Nat → Option Nat
  | 0 => none
  | i + 1 => do
    let a ← v[i]?
    if p a then scanBack v i else return i

variable {p} {v : List A} {i : Nat}

/-- The loop stops at the last cell in front of `i` without `p`. -/
theorem scanBack_eq_some (hi : i ≤ v.length) (hsome : (v.take i).rdropWhile p ≠ []) :
    ∃ j, scanBack p v i = some j ∧ j < i ∧ v.take (j + 1) = (v.take i).rdropWhile p := by
  induction i with
  | zero => exact absurd rfl hsome
  | succ i ih =>
    have hlt : i < v.length := hi
    have hsplit : v.take (i + 1) = v.take i ++ [v[i]] := List.take_succ_eq_append_getElem hlt
    rw [scanBack, List.getElem?_eq_getElem hlt]
    simp only [Option.bind_eq_bind, Option.bind_some]
    by_cases hp : p v[i] = true
    · rw [if_pos hp]
      rw [hsplit, List.rdropWhile_concat_pos _ _ _ hp] at hsome ⊢
      obtain ⟨j, hscan, hj, htake⟩ := ih (Nat.le_of_lt hlt) hsome
      exact ⟨j, hscan, Nat.lt_succ_of_lt hj, htake⟩
    · rw [if_neg hp]
      refine ⟨i, rfl, Nat.lt_succ_self i, ?_⟩
      rw [hsplit, List.rdropWhile_concat_neg _ _ _ hp]

theorem scanBack_eq_none (hnone : ∀ a ∈ v.take i, p a) : scanBack p v i = none := by
  induction i with
  | zero => rfl
  | succ i ih =>
    rw [scanBack]
    cases hcell : v[i]? with
    | none => rfl
    | some a =>
      have hmem : a ∈ v.take (i + 1) := by
        rw [List.mem_take_iff_getElem]
        obtain ⟨hlt, hget⟩ := List.getElem?_eq_some_iff.mp hcell
        exact ⟨i, by omega, hget⟩
      simp only [Option.bind_eq_bind, Option.bind_some, if_pos (hnone a hmem)]
      exact ih fun a hin => hnone a (List.take_subset_take_left v (Nat.le_succ i) hin)

/-- What is appended makes no difference exactly if all of it is dropped. -/
theorem rdropWhile_append_eq_iff {w : List A} :
    (v ++ w).rdropWhile p = v.rdropWhile p ↔ ∀ a ∈ w, p a := by
  induction w using List.reverseRecOn with
  | nil => simp
  | append_singleton w a ih =>
    rw [← List.append_assoc, List.forall_mem_append, List.forall_mem_singleton]
    by_cases hp : p a = true
    · rw [List.rdropWhile_concat_pos _ _ _ hp, ih, and_iff_left hp]
    · rw [List.rdropWhile_concat_neg _ _ _ hp]
      refine iff_of_false (fun heq => ?_) fun hall => hp hall.2
      have hle := (List.rdropWhile_prefix p v).length_le
      rw [← heq] at hle
      simp only [List.length_append, List.length_singleton] at hle
      omega

end ScanBack

end Memory
