import Mathlib.Data.List.Nodup
import Mathlib.Logic.Function.Basic

namespace Files

/-- A directory, the files that its names lead to, and the open descriptors of a process.
    A file stays the same when its name changes. -/
structure Disk (N A : Type) where
  link : N → Option Nat
  content : Nat → List A
  opened : Int → Option Nat
  created : Nat

namespace Disk

variable {N A : Type} [DecidableEq N]

/-- No name leads to a file that is still to be created. -/
def Sound (d : Disk N A) : Prop := ∀ name file, d.link name = some file → file < d.created

/-- The content of the file that a name leads to. -/
def read (d : Disk N A) (name : N) : Option (List A) := (d.link name).map d.content

/-- `rename`, which fails where the old name leads nowhere. What the new name led to is no
    longer found under it. -/
def rename (d : Disk N A) (old new : N) : Option (Disk N A) :=
  match d.link old with
  | none => none
  | some file =>
    if d.link new = some file then some d
    else some { d with
      link := Function.update (Function.update d.link old none) new (some file) }

/-- `open` with `O_APPEND | O_CREAT`, which returns `fd`. -/
def openAppend (d : Disk N A) (name : N) (fd : Int) : Disk N A :=
  match d.link name with
  | some file => { d with opened := Function.update d.opened fd (some file) }
  | none => { d with
      link := Function.update d.link name (some d.created)
      content := Function.update d.content d.created []
      opened := Function.update d.opened fd (some d.created)
      created := d.created + 1 }

/-- `dup2`, which fails where `fd` is not open or `fd'` is no descriptor. -/
def dup2 (d : Disk N A) (fd fd' : Int) : Option (Disk N A) :=
  match d.opened fd with
  | none => none
  | some file =>
    if fd' < 0 then none else some { d with opened := Function.update d.opened fd' (some file) }

def close (d : Disk N A) (fd : Int) : Disk N A :=
  { d with opened := Function.update d.opened fd none }

/-- `write` to a descriptor that was opened with `O_APPEND`. -/
def write (d : Disk N A) (fd : Int) (data : List A) : Option (Disk N A) :=
  match d.opened fd with
  | none => none
  | some file => some { d with content := Function.update d.content file (d.content file ++ data) }

end Disk

/-- One file of a log that is kept in several. -/
structure Volume (N A : Type) where
  name : N
  file : Nat
  text : List A

/-- A volume is found under its name, with its text in it. -/
structure Filed {N A : Type} (d : Disk N A) (v : Volume N A) : Prop where
  link : d.link v.name = some v.file
  content : d.content v.file = v.text
  bound : v.file < d.created

/-- A log in several files, of which the last one is written to by way of `fd`. -/
structure Holds {N A : Type} (d : Disk N A) (fd : Int) (done : List (Volume N A))
    (last : Volume N A) : Prop where
  earlier : ∀ v ∈ done, Filed d v
  current : Filed d last
  distinct : ((done ++ [last]).map Volume.file).Nodup
  opened : d.opened fd = some last.file

section Volumes

variable {N A : Type} {d : Disk N A} {fd : Int} {done : List (Volume N A)} {v last : Volume N A}

theorem Filed.read (h : Filed d v) : d.read v.name = some v.text := by
  rw [Disk.read, h.link, Option.map_some, h.content]

/-- Different files have different names. -/
theorem Filed.name_ne {v' : Volume N A} (h : Filed d v) (h' : Filed d v')
    (hfile : v.file ≠ v'.file) : v.name ≠ v'.name := by
  intro hsame
  have hlink := h.link
  rw [hsame, h'.link, Option.some.injEq] at hlink
  exact hfile hlink.symm

theorem Filed.name_ne_of_unused {name : N} (h : Filed d v) (hunused : d.link name = none) :
    v.name ≠ name := by
  rintro rfl
  exact Option.some_ne_none _ (h.link.symm.trans hunused)

theorem Holds.all (h : Holds d fd done last) : ∀ v ∈ done ++ [last], Filed d v :=
  List.forall_mem_append.mpr ⟨h.earlier, List.forall_mem_singleton.mpr h.current⟩

theorem Holds.file_ne (h : Holds d fd done last) (hv : v ∈ done) : v.file ≠ last.file := by
  have hdistinct := h.distinct
  rw [List.map_append, List.nodup_append] at hdistinct
  exact hdistinct.2.2 v.file (List.mem_map_of_mem hv) last.file (by simp)

theorem Holds.names (h : Holds d fd done last) : ((done ++ [last]).map Volume.name).Nodup := by
  have hdistinct := h.distinct
  rw [List.Nodup, List.pairwise_map] at hdistinct ⊢
  exact hdistinct.imp_of_mem fun hv hv' => (h.all _ hv).name_ne (h.all _ hv')

/-- More text goes to the last volume. -/
theorem Holds.write (h : Holds d fd done last) (data : List A) :
    ∃ d' : Disk N A, d.write fd data = some d' ∧
      Holds d' fd done { last with text := last.text ++ data } := by
  have hwrite : d.write fd data = some { d with
      content := Function.update d.content last.file (d.content last.file ++ data) } := by
    simp only [Disk.write, h.opened]
  refine ⟨_, hwrite, fun v hv => ?_, ?_, ?_, h.opened⟩
  · have hfiled := h.earlier v hv
    exact ⟨hfiled.link, (Function.update_of_ne (h.file_ne hv) _ _).trans hfiled.content,
      hfiled.bound⟩
  · refine ⟨h.current.link, (Function.update_self ..).trans ?_, h.current.bound⟩
    rw [h.current.content]
  · simpa using h.distinct

end Volumes

namespace Holds

variable {N A : Type} [DecidableEq N] {d d' : Disk N A} {fd fd' : Int}
  {done : List (Volume N A)} {last : Volume N A} {name : N}

/-- The last volume can get any name that is not used. -/
theorem rename_ne_none (h : Holds d fd done last) (hunused : d.link name = none) :
    d.rename last.name name ≠ none := by
  simp only [Disk.rename, h.current.link, hunused, if_neg (Option.some_ne_none _).symm]
  exact Option.some_ne_none _

/-- A new name for the last volume. -/
theorem rename (h : Holds d fd done last) (hunused : d.link name = none)
    (hgo : d.rename last.name name = some d') :
    Holds d' fd done { last with name := name } ∧ d'.link last.name = none := by
  simp only [Disk.rename, h.current.link, hunused, if_neg (Option.some_ne_none _).symm,
    Option.some.injEq] at hgo
  subst hgo
  refine ⟨⟨fun v hv => ?_, ?_, ?_, h.opened⟩, ?_⟩
  · have hfiled := h.earlier v hv
    have hother := hfiled.name_ne h.current (h.file_ne hv)
    refine ⟨?_, hfiled.content, hfiled.bound⟩
    exact (Function.update_of_ne (hfiled.name_ne_of_unused hunused) _ _).trans
      ((Function.update_of_ne hother _ _).trans hfiled.link)
  · exact ⟨Function.update_self .., h.current.content, h.current.bound⟩
  · simpa using h.distinct
  · exact (Function.update_of_ne (h.current.name_ne_of_unused hunused) _ _).trans
      (Function.update_self ..)

/-- A new volume behind the last one, opened by way of another descriptor. -/
theorem reopen (h : Holds d fd done last) (hfree : d.link name = none) (hfd : 0 ≤ fd)
    (hother : fd' ≠ fd) :
    ∃ d', (d.openAppend name fd').dup2 fd' fd = some d' ∧
      Holds (d'.close fd') fd (done ++ [last]) ⟨name, d.created, []⟩ := by
  have hdup : (d.openAppend name fd').dup2 fd' fd = some { d.openAppend name fd' with
      opened := Function.update (d.openAppend name fd').opened fd (some d.created) } := by
    simp only [Disk.dup2, Disk.openAppend, hfree, Function.update_self,
      if_neg (Int.not_lt.mpr hfd)]
  refine ⟨_, hdup, fun v hv => ?_, ?_, ?_, ?_⟩
  · have hfiled := h.all v hv
    simp only [Disk.openAppend, hfree, Disk.close]
    exact ⟨(Function.update_of_ne (hfiled.name_ne_of_unused hfree) _ _).trans hfiled.link,
      (Function.update_of_ne (Nat.ne_of_lt hfiled.bound) _ _).trans hfiled.content,
      Nat.lt_succ_of_lt hfiled.bound⟩
  · simp only [Disk.openAppend, hfree, Disk.close]
    exact ⟨Function.update_self .., Function.update_self .., Nat.lt_succ_self _⟩
  · rw [List.map_append, List.nodup_append]
    refine ⟨h.distinct, List.nodup_singleton _, fun file hfile created hcreated => ?_⟩
    obtain ⟨v, hv, rfl⟩ := List.mem_map.mp hfile
    rw [List.map_singleton, List.mem_singleton] at hcreated
    rw [hcreated]
    exact Nat.ne_of_lt (h.all v hv).bound
  · exact (Function.update_of_ne hother.symm _ _).trans (Function.update_self ..)

/-- The file of a name, opened to begin a log. -/
theorem start (hsound : d.Sound) (name : N) (fd : Int) :
    ∃ file, Holds (d.openAppend name fd) fd [] ⟨name, file, (d.read name).getD []⟩ := by
  cases hlink : d.link name with
  | some file =>
    refine ⟨file, List.forall_mem_nil _, ?_, List.nodup_singleton _, ?_⟩
    · simp only [Disk.openAppend, hlink, Disk.read, Option.map_some, Option.getD_some]
      exact ⟨hlink, rfl, hsound name file hlink⟩
    · simp only [Disk.openAppend, hlink, Function.update_self]
  | none =>
    refine ⟨d.created, List.forall_mem_nil _, ?_, List.nodup_singleton _, ?_⟩
    · simp only [Disk.openAppend, hlink, Disk.read, Option.map_none, Option.getD_none]
      exact ⟨Function.update_self .., Function.update_self .., Nat.lt_succ_self _⟩
    · simp only [Disk.openAppend, hlink, Function.update_self]

end Holds

end Files
