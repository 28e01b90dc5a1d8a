import Mathlib.Data.List.Count
import Mathlib.Data.List.Perm.Subperm

namespace Cutoff

variable {A B : Type}

/-- The items that carry anything. -/
def loaded (payload : A → List B) (items : List A) : List A :=
  items.filter (fun a => !(payload a).isEmpty)

/-- The items issued that carry anything are among the first ones executed, and all
    that these carry is in `output`. -/
def Delivered (payload : A → List B) (issued executed : List A) (output : List B) : Prop :=
  ∃ n, List.Subperm (loaded payload issued) (executed.take n) ∧
    (executed.take n).flatMap payload <+: output

variable [DecidableEq A]

/-- The items in the queue that were issued in time. -/
def waiting (issued executed queue : List A) : List A :=
  queue.filter (· ∈ issued.diff executed)

/-- What is executed behind the last of the items issued. -/
def behind : List A → List A → List A
  | [], executed => executed
  | _ :: _, [] => []
  | a :: issued, b :: executed => behind ((a :: issued).erase b) executed

section Behind

variable {issued executed : List A}

theorem behind_suffix (issued executed : List A) : behind issued executed <:+ executed := by
  induction executed generalizing issued with
  | nil => cases issued <;> exact List.suffix_refl _
  | cons b executed ih =>
    cases issued with
    | nil => exact List.suffix_refl _
    | cons a issued => exact (ih _).trans (List.suffix_cons b executed)

theorem subperm_cons_iff (issued executed : List A) (b : A) :
    List.Subperm issued (b :: executed) ↔ List.Subperm (issued.erase b) executed := by
  rw [List.subperm_iff_count, List.subperm_iff_count]
  refine forall_congr' (fun a => ?_)
  rw [List.count_erase, List.count_cons]
  omega

/-- The items issued are among the first `n` executed where these reach up to the
    last of them. -/
theorem subperm_take_iff (issued executed : List A) (n : Nat) :
    List.Subperm issued (executed.take n) ↔
      List.Subperm issued executed ∧ executed.length ≤ n + (behind issued executed).length := by
  induction executed generalizing issued n with
  | nil =>
    cases issued <;> simp [behind]
  | cons b executed ih =>
    cases issued with
    | nil => simp [behind, List.nil_subperm]
    | cons a issued =>
      cases n with
      | zero =>
        have hlength := (behind_suffix ((a :: issued).erase b) executed).length_le
        simp only [List.take_zero, List.subperm_nil, reduceCtorEq, behind, List.length_cons,
          false_iff, not_and]
        omega
      | succ n =>
        rw [List.take_succ_cons, subperm_cons_iff, ih, subperm_cons_iff, behind, List.length_cons]
        refine and_congr_right (fun _ => ?_)
        omega

end Behind

theorem loaded_subperm_iff {payload : A → List B} {issued executed : List A} :
    List.Subperm (loaded payload issued) executed ↔
      ∀ a ∈ issued.diff executed, payload a = [] := by
  rw [List.subperm_iff_count]
  refine forall_congr' (fun a => ?_)
  rw [← List.count_pos_iff, List.count_diff, loaded]
  by_cases hempty : payload a = []
  · have hnone : a ∉ issued.filter (fun a => !(payload a).isEmpty) := by simp [hempty]
    simp [hempty, List.count_eq_zero_of_not_mem hnone]
  · rw [List.count_filter (by simpa using hempty)]
    simp only [hempty, imp_false]
    omega

/-- Every issuer has its items executed or queued, in any order among the others'. -/
theorem subperm_of_filter {K : Type} [DecidableEq K] (key : A → K) {issued items : List A}
    (h : ∀ k, List.Subperm (issued.filter (key · = k)) (items.filter (key · = k))) :
    List.Subperm issued items := by
  rw [List.subperm_iff_count]
  intro a
  have hmine := List.subperm_iff_count.mp (h (key a)) a
  rw [List.count_filter (by simp), List.count_filter (by simp)] at hmine
  exact hmine

theorem waiting_eq_nil {issued executed : List A} (h : List.Subperm issued executed)
    (queue : List A) : waiting issued executed queue = [] := by
  rw [waiting, List.filter_eq_nil_iff]
  intro a _ hmem
  have hcount := List.subperm_iff_count.mp h a
  rw [decide_eq_true_eq, ← List.count_pos_iff, List.count_diff] at hmem
  omega

/-- What was issued in time is executed or waits in the queue. -/
theorem mem_waiting_iff {issued executed queue : List A} {a : A}
    (h : List.Subperm issued (executed ++ queue)) :
    a ∈ waiting issued executed queue ↔ a ∈ issued.diff executed := by
  have hcount := List.subperm_iff_count.mp h a
  rw [List.count_append] at hcount
  rw [waiting, List.mem_filter, decide_eq_true_eq]
  refine ⟨And.right, fun hmem => ⟨?_, hmem⟩⟩
  rw [← List.count_pos_iff, List.count_diff] at hmem
  exact List.count_pos_iff.mp (by omega)

/-- With `rest` of the executed items not yet in the output, everything issued in
    time is delivered exactly when what waits of it carries nothing, and `rest` fits
    into what was executed behind it. -/
theorem delivered_iff {issued executed queue : List A} {payload : A → List B}
    {output rest : List B} (h : List.Subperm issued (executed ++ queue))
    (hstream : output ++ rest = executed.flatMap payload) :
    Delivered payload issued executed output ↔
      (∀ a ∈ waiting issued executed queue, payload a = []) ∧
        rest.length ≤ ((behind (loaded payload issued) executed).flatMap payload).length := by
  simp only [mem_waiting_iff h, ← loaded_subperm_iff, Delivered, subperm_take_iff, and_assoc,
    exists_and_left]
  refine and_congr_right (fun _ => ?_)
  obtain ⟨first, hfirst⟩ := behind_suffix (loaded payload issued) executed
  have hsplit : first.flatMap payload ++
      (behind (loaded payload issued) executed).flatMap payload = output ++ rest := by
    rw [← List.flatMap_append, hfirst, hstream]
  have hbytes := congrArg List.length hsplit
  have hlength := congrArg List.length hfirst
  simp only [List.length_append] at hbytes hlength
  constructor
  · rintro ⟨n, hn, hwritten⟩
    have hreach : first.flatMap payload <+: output := by
      refine .trans ?_ hwritten
      rw [← hfirst, List.take_append, List.flatMap_append, List.take_of_length_le (by omega)]
      exact List.prefix_append _ _
    have hle := hreach.length_le
    omega
  · intro hfits
    refine ⟨first.length, by omega, ?_⟩
    rw [← hfirst, List.take_left]
    have hfront : first.flatMap payload <+: output ++ rest := by
      rw [← hsplit]
      exact List.prefix_append _ _
    exact List.prefix_of_prefix_length_le hfront (List.prefix_append _ _) (by omega)

end Cutoff
