import Mathlib.Data.List.Sort
import Mathlib.Data.List.TakeWhile

/-- A `std::set`: its elements in strictly increasing order. -/
structure OrderedSet (A : Type) [LinearOrder A] where
  elems : List A
  sorted : elems.Pairwise (· < ·)

namespace OrderedSet

variable {A : Type} [LinearOrder A]

instance : DecidableEq (OrderedSet A) := fun s s' =>
  decidable_of_iff (s.elems = s'.elems) (by cases s; cases s'; simp)

def empty : OrderedSet A := ⟨[], .nil⟩

def size (s : OrderedSet A) : Nat := s.elems.length

/-- The first element, if there is one. -/
def begin? (s : OrderedSet A) : Option A := s.elems.head?

theorem sorted_orderedInsert {l : List A} (h : l.Pairwise (· < ·)) {a : A} (hnew : a ∉ l) :
    (l.orderedInsert (· ≤ ·) a).Pairwise (· < ·) := by
  have hle : (l.orderedInsert (· ≤ ·) a).Pairwise (· ≤ ·) :=
    List.Pairwise.orderedInsert a l (h.imp le_of_lt)
  have hnodup : (l.orderedInsert (· ≤ ·) a).Nodup :=
    (List.perm_orderedInsert (· ≤ ·) a l).nodup_iff.mpr (List.nodup_cons.mpr ⟨hnew, h.imp ne_of_lt⟩)
  exact (hle.and hnodup).imp (fun hboth => lt_of_le_of_ne hboth.1 hboth.2)

/-- Insert an element. An element that is there already stays as it is. -/
def insert (s : OrderedSet A) (a : A) : OrderedSet A :=
  if h : a ∈ s.elems then s
  else ⟨s.elems.orderedInsert (· ≤ ·) a, sorted_orderedInsert s.sorted h⟩

def erase (s : OrderedSet A) (a : A) : OrderedSet A :=
  ⟨s.elems.erase a, s.sorted.sublist List.erase_sublist⟩

/-- The elements in front of `lower_bound(a)`. -/
def below (s : OrderedSet A) (a : A) : List A := s.elems.takeWhile (· < a)

/-- The elements from `lower_bound(a)` on. -/
def above (s : OrderedSet A) (a : A) : OrderedSet A :=
  ⟨s.elems.dropWhile (· < a), s.sorted.sublist (List.dropWhile_sublist _)⟩

theorem perm_insert {s : OrderedSet A} {a : A} (h : a ∉ s.elems) :
    List.Perm (s.insert a).elems (a :: s.elems) := by
  rw [insert, dif_neg h]
  exact List.perm_orderedInsert _ a s.elems

@[simp] theorem elems_erase (s : OrderedSet A) (a : A) : (s.erase a).elems = s.elems.erase a := rfl

theorem below_append_above (s : OrderedSet A) (a : A) :
    s.below a ++ (s.above a).elems = s.elems :=
  List.takeWhile_append_dropWhile

theorem begin_mem {s : OrderedSet A} {a : A} (h : s.begin? = some a) : a ∈ s.elems :=
  List.mem_of_head? h

theorem begin_le {s : OrderedSet A} {a b : A} (h : s.begin? = some a) (hb : b ∈ s.elems) :
    a ≤ b := by
  have hsorted := s.sorted
  rw [begin?] at h
  cases hall : s.elems with
  | nil => rw [hall] at h; cases h
  | cons first rest =>
    rw [hall] at h hb hsorted
    cases h
    rcases List.mem_cons.mp hb with rfl | hrest
    · exact le_refl b
    · exact le_of_lt (List.rel_of_pairwise_cons hsorted hrest)

theorem notMem_of_begin_none {s : OrderedSet A} {a : A} (h : s.begin? = none) : a ∉ s.elems := by
  rw [List.head?_eq_none_iff.mp h]
  exact List.not_mem_nil

/-- The first element from `lower_bound(a)` on is not below `a`. -/
theorem le_of_begin_above {s : OrderedSet A} {a b : A} (h : (s.above a).begin? = some b) :
    a ≤ b := by
  have hhead := List.head?_dropWhile_not (fun x => decide (x < a)) s.elems
  rw [begin?, above] at h
  rw [h] at hhead
  simpa using hhead

theorem le_of_mem_above {s : OrderedSet A} {a b : A} (h : b ∈ (s.above a).elems) : a ≤ b := by
  cases hbegin : (s.above a).begin? with
  | none => exact absurd h (notMem_of_begin_none hbegin)
  | some first => exact le_trans (le_of_begin_above hbegin) (begin_le hbegin h)

/-- The order decides which elements are in front of `lower_bound(a)`. -/
theorem below_eq_filter (s : OrderedSet A) (a : A) : s.below a = s.elems.filter (· < a) := by
  have hbelow : (s.below a).filter (· < a) = s.below a := by
    apply List.filter_eq_self.mpr
    intro b hb
    rw [below] at hb
    exact List.mem_takeWhile_imp (p := fun x => decide (x < a)) hb
  have habove : (s.above a).elems.filter (· < a) = [] := by
    apply List.filter_eq_nil_iff.mpr
    intro b hb
    rw [decide_eq_true_iff]
    exact not_lt_of_ge (le_of_mem_above hb)
  rw [← s.below_append_above a, List.filter_append, hbelow, habove, List.append_nil]

end OrderedSet
