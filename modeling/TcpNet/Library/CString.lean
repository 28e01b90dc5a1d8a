import TcpNet.Library.Memory
import Mathlib.Algebra.Group.Nat.Defs

open Memory

namespace CString

/-- `INT_MAX`. -/
def intMax : Nat := 2 ^ 31 - 1

variable {A : Type} [OfNat A 0]

/-- What of a text fits into `size` cells with the zero behind it. -/
def fitting (size : Nat) (text : List A) : List A :=
  if size = 0 then [] else text.take (size - 1) ++ [0]

/-- `snprintf(buf + pos, size, ...)`, where `text` is the whole of what is printed: the
    number that it returns, and the array. For a text of more than `INT_MAX` characters it
    returns a negative number, and `left` is what stands in the cells behind. There is no
    result where it writes outside of the array. -/
def snprintf (buf : List A) (pos size : Nat) (text left : List A) : Option (Int × List A) :=
  if text.length ≤ intMax then do
    let buf ← store buf pos (fitting size text)
    return (text.length, buf)
  else do
    let buf ← store buf pos (left.take size)
    return (-1, buf)

/-- The string in an array: the cells in front of the first zero. -/
def string [DecidableEq A] (buf : List A) : List A := buf.takeWhile (· ≠ 0)

variable {buf text : List A} {pos size : Nat}

theorem length_fitting_le : (fitting size text).length ≤ size := by
  unfold fitting
  split
  · exact Nat.zero_le _
  · simp only [List.length_append, List.length_take, List.length_singleton]
    omega

/-- The cells in front of the text stay as they are, and the text is cut off where the
    cells end. -/
theorem snprintf_spec (left : List A) (hfit : pos + size ≤ buf.length)
    (htext : text.length ≤ intMax) :
    ∃ buf', snprintf buf pos size text left = some (↑text.length, buf') ∧
      buf'.length = buf.length ∧
      ∃ rest, buf' = buf.take pos ++ fitting size text ++ rest := by
  have hstore : pos + (fitting size text).length ≤ buf.length := by
    have hle : (fitting size text).length ≤ size := length_fitting_le
    omega
  refine ⟨_, ?_, length_copyInto hstore, _, rfl⟩
  rw [snprintf, if_pos htext, store_of_le hstore]
  rfl

theorem snprintf_of_long (left : List A) (hfit : pos + size ≤ buf.length)
    (htext : intMax < text.length) :
    ∃ buf', snprintf buf pos size text left = some (-1, buf') ∧ buf'.length = buf.length ∧
      ∃ rest, buf' = buf.take pos ++ rest := by
  have hstore : pos + (left.take size).length ≤ buf.length := by
    rw [List.length_take]
    omega
  refine ⟨_, ?_, length_copyInto hstore, _, List.append_assoc ..⟩
  rw [snprintf, if_neg (Nat.not_le.mpr htext), store_of_le hstore]
  rfl

/-- What is read of a text that was printed behind `head`, up to where it is cut off. -/
theorem take_fitting {head rest : List A} {i : Nat} (hsize : i + 1 ≤ head.length + size)
    (htext : i ≤ head.length + text.length) :
    (head ++ fitting size text ++ rest).take i = (head ++ text).take i := by
  by_cases hzero : size = 0
  · rw [List.append_assoc, List.take_append_of_le_length (by omega),
      List.take_append_of_le_length (by omega)]
  · have hkeep : (head ++ text.take (size - 1)).length =
        head.length + min (size - 1) text.length := by
      rw [List.length_append, List.length_take]
    have hcut : head ++ text.take (size - 1) = (head ++ text).take (head.length + (size - 1)) := by
      rw [List.take_length_add_append]
    rw [fitting, if_neg hzero, ← List.append_assoc, List.append_assoc,
      List.take_append_of_le_length (by omega), hcut, List.take_take, Nat.min_eq_left (by omega)]

theorem string_fitting [DecidableEq A] (hsize : 0 < size) (hzero : 0 ∉ text) (rest : List A) :
    string (fitting size text ++ rest) = text.take (size - 1) := by
  have hnonzero : ∀ a ∈ text.take (size - 1), decide (a ≠ 0) = true := by
    intro a hmem
    refine decide_eq_true ?_
    rintro rfl
    exact hzero (List.mem_of_mem_take hmem)
  rw [string, fitting, if_neg (Nat.ne_of_gt hsize), List.append_assoc,
    List.takeWhile_append_of_pos hnonzero, List.singleton_append,
    List.takeWhile_cons_of_neg (by simp), List.append_nil]

/-- What is printed into an array, as a string. -/
theorem string_snprintf [DecidableEq A] (left : List A) (hsize : 0 < size)
    (hfit : size ≤ buf.length) (htext : text.length ≤ intMax) (hzero : 0 ∉ text) :
    ∃ buf', snprintf buf 0 size text left = some (↑text.length, buf') ∧
      string buf' = text.take (size - 1) := by
  obtain ⟨buf', hprint, _, rest, hbuf'⟩ := snprintf_spec left
    (show 0 + size ≤ buf.length by rwa [Nat.zero_add]) htext
  refine ⟨buf', hprint, ?_⟩
  rw [hbuf', List.take_zero, List.nil_append, string_fitting hsize hzero]

end CString
