import TcpNet.Logging

open CString

namespace TcpNet.Logger

/-- The line that a record should be: its text, cut off and without the newlines at its
    end, and one newline. -/
def lineOf (stamp message : Bytes) : Bytes :=
  ((stamp ++ message).take 1022).rdropWhile (· = 10) ++ [10]

/-- The message is no longer than `vsnprintf` can tell, or what is lost without it are
    newlines at the end of the line, or nothing. -/
def Expandable (stamp message : Bytes) : Prop :=
  message.length ≤ intMax ∨ stamp.length = 1023 ∨
    stamp.getLast? = some 10 ∧ ∀ c ∈ message.take (1022 - stamp.length), c = 10

variable {stamp message left : Bytes} {buf : Bytes} {pb : Nat}

theorem printTo_eq (buf text left : Bytes) (hpb : pb ≤ bufSize) :
    printTo buf pb bufSize text left = CString.snprintf buf pb (bufSize - pb) text left := by
  have hsize : (((bufSize : Int) - pb) % 2 ^ 64).toNat = bufSize - pb := by
    simp only [bufSize] at hpb ⊢
    omega
  rw [printTo, if_neg (by omega), hsize, Int.toNat_natCast]

/-- With room for two more cells, the line is what stands in front of `pb` without its
    newlines. Where there is nothing else, the loop leaves `buf`. -/
theorem endLine_eq (hbuf : pb + 2 ≤ buf.length) :
    endLine buf pb =
      if (buf.take pb).rdropWhile (· = 10) = [] then none
      else some ((buf.take pb).rdropWhile (· = 10) ++ [10]) := by
  by_cases hnone : (buf.take pb).rdropWhile (· = 10) = []
  · have hall := List.rdropWhile_eq_nil_iff.mp hnone
    rw [if_pos hnone, endLine, Int.toNat_natCast, Memory.scanBack_eq_none hall]
    rfl
  rw [if_neg hnone]
  obtain ⟨last, hscan, hlast, htake⟩ := Memory.scanBack_eq_some (by omega) hnone
  have hnewline : Memory.store buf (last + 1) [10] = some (Memory.copyInto buf (last + 1) [10]) :=
    Memory.store_of_le (by simp only [List.length_singleton]; omega)
  have hlength : (Memory.copyInto buf (last + 1) [10]).length = buf.length :=
    Memory.length_of_store hnewline
  have hzero : Memory.store (Memory.copyInto buf (last + 1) [10]) (last + 2) [0] =
      some (Memory.copyInto (Memory.copyInto buf (last + 1) [10]) (last + 2) [0]) :=
    Memory.store_of_le (by simp only [List.length_singleton]; omega)
  rw [endLine, Int.toNat_natCast, hscan]
  simp only [Option.bind_eq_bind, Option.bind_some, Option.pure_def, hnewline, hzero]
  rw [Memory.take_copyInto (by omega)]
  have hline : (Memory.copyInto buf (last + 1) [10]).take (last + 1 + 1) =
      buf.take (last + 1) ++ [10] := Memory.take_copyInto_add [10] (by omega)
  rw [htake] at hline
  exact congrArg some hline

section Line

variable {full : Vector Byte bufSize}

/-- Behind the first `snprintf`. -/
theorem line_of_stamp (full : Vector Byte bufSize) (message left : Bytes)
    (hstamp : stamp.length ≤ 1023) :
    ∃ buf : Bytes, buf.length = bufSize ∧ buf.take stamp.length = stamp ∧
      stamp.length + (bufSize - stamp.length) ≤ buf.length ∧
      line full stamp message left =
        (CString.snprintf buf stamp.length (bufSize - stamp.length) message left).bind
          fun printed => endLine printed.2 (min (stamp.length + printed.1) (bufSize - 2)) := by
  have hfull : full.toList.length = bufSize := Vector.length_toList
  have hshort : stamp.length ≤ intMax := by
    simp only [intMax]
    omega
  obtain ⟨buf, hprint, hlength, rest, hbuf⟩ := snprintf_spec left
    (show 0 + bufSize ≤ full.toList.length by omega) hshort
  refine ⟨buf, hlength.trans hfull, ?_, ?_, ?_⟩
  · rw [hbuf, take_fitting (by simp only [bufSize]; omega) (by omega), List.take_zero,
      List.nil_append, List.take_length]
  · rw [hlength, hfull, bufSize]
    omega
  · have hfirst := (printTo_eq full.toList stamp left (Nat.zero_le bufSize)).trans hprint
    rw [Int.natCast_zero] at hfirst
    simp only [line, Option.bind_eq_bind, hfirst, Option.bind_some, Int.zero_add,
      printTo_eq buf message left (show stamp.length ≤ bufSize by simp only [bufSize]; omega)]

/-- A message that can be told is cut off where the line ends. -/
theorem line_spec (hstamp : stamp.length ≤ 1023) (hmessage : message.length ≤ intMax)
    (hsome : ((stamp ++ message).take 1022).rdropWhile (· = 10) ≠ []) :
    line full stamp message left = some (lineOf stamp message) := by
  obtain ⟨buf₁, hlength₁, htake₁, hfits, hline⟩ := line_of_stamp full message left hstamp
  obtain ⟨buf, hprint, hlength, rest, hbuf⟩ := snprintf_spec left hfits hmessage
  have hpb : min ((stamp.length : Int) + message.length) (bufSize - 2) =
      (min (stamp.length + message.length) 1022 : Nat) := by
    simp only [bufSize]
    omega
  have htext : buf.take (min (stamp.length + message.length) 1022) =
      (stamp ++ message).take 1022 := by
    rw [hbuf, htake₁, take_fitting (by simp only [bufSize]; omega) (by omega), Nat.min_comm,
      ← List.take_take, ← List.length_append, List.take_length]
  have hroom : min (stamp.length + message.length) 1022 + 2 ≤ buf.length := by
    rw [hlength, hlength₁, bufSize]
    omega
  rw [hline, hprint]
  simp only [Option.bind_some, hpb, endLine_eq hroom, htext, if_neg hsome, lineOf]

/-- Where `vsnprintf` fails, `pb` is one in front of where the message starts. -/
theorem line_of_long (hpos : 0 < stamp.length) (hstamp : stamp.length ≤ 1023)
    (hmessage : intMax < message.length) :
    line full stamp message left =
      if stamp.dropLast.rdropWhile (· = 10) = [] then none
      else some (stamp.dropLast.rdropWhile (· = 10) ++ [10]) := by
  obtain ⟨buf₁, hlength₁, htake₁, hfits, hline⟩ := line_of_stamp full message left hstamp
  obtain ⟨buf, hprint, hlength, rest, hbuf⟩ := snprintf_of_long left hfits hmessage
  have hpb : min ((stamp.length : Int) + -1) (bufSize - 2) = (stamp.length - 1 : Nat) := by
    simp only [bufSize]
    omega
  have htext : buf.take (stamp.length - 1) = stamp.dropLast := by
    rw [hbuf, htake₁, List.take_append_of_le_length (by omega), List.dropLast_eq_take]
  have hroom : stamp.length - 1 + 2 ≤ buf.length := by
    rw [hlength, hlength₁, bufSize]
    omega
  rw [hline, hprint]
  simp only [Option.bind_some, hpb, endLine_eq hroom, htext]

end Line

/-- A line that does not start with a newline is not all newlines. -/
theorem text_ne_nil (message : Bytes) (hpos : 0 < stamp.length) (hhead : stamp.head? ≠ some 10) :
    ((stamp ++ message).take 1022).rdropWhile (· = 10) ≠ [] := by
  cases stamp with
  | nil => cases hpos
  | cons first stamp =>
    rw [ne_eq, List.rdropWhile_eq_nil_iff]
    intro hall
    rw [List.cons_append, List.take_succ_cons, List.forall_mem_cons] at hall
    exact hhead (congrArg some (of_decide_eq_true hall.1))

theorem take_text {front : Bytes} {last : Byte} (hstamp : front.length + 1 ≤ 1023) :
    (front ++ [last] ++ message).take 1022 =
      front ++ if front.length = 1022 then [] else last :: message.take (1021 - front.length) := by
  rw [List.append_assoc, List.take_append, List.take_of_length_le (by omega)]
  split
  · rename_i hfull
    rw [hfull, Nat.sub_self, List.take_zero]
  · have hsucc : 1022 - front.length = 1021 - front.length + 1 := by omega
    rw [hsucc, List.singleton_append, List.take_succ_cons]

theorem ended_eq_iff {text text' : Bytes} (hsome : text' ≠ []) :
    (if text = [] then none else some (text ++ [10])) = some (text' ++ [10]) ↔ text = text' := by
  split
  · rename_i hnone
    rw [hnone]
    exact iff_of_false nofun hsome.symm
  · rw [Option.some.injEq, List.append_cancel_right_eq]

/-- What is lost of a message that is too long has to be newlines, or behind the end of
    the line. -/
theorem emits_long_iff {full : Vector Byte bufSize} (hpos : 0 < stamp.length)
    (hstamp : stamp.length ≤ 1023) (hhead : stamp.head? ≠ some 10)
    (hmessage : intMax < message.length) :
    line full stamp message left = some (lineOf stamp message) ↔ stamp.length = 1023 ∨
      stamp.getLast? = some 10 ∧ ∀ c ∈ message.take (1022 - stamp.length), c = 10 := by
  have hsome := text_ne_nil message hpos hhead
  rw [line_of_long hpos hstamp hmessage]
  obtain ⟨front, last, rfl⟩ := List.eq_nil_or_concat' stamp |>.resolve_left
    (List.ne_nil_of_length_pos hpos)
  rw [List.length_append, List.length_singleton] at hstamp
  rw [take_text hstamp] at hsome
  rw [List.dropLast_concat, lineOf, take_text hstamp, ended_eq_iff hsome, eq_comm,
    Memory.rdropWhile_append_eq_iff, List.length_append, List.length_singleton,
    List.getLast?_concat, Option.some.injEq]
  split
  · rename_i hfull
    exact iff_of_true (List.forall_mem_nil _) (.inl (by omega))
  · rename_i hfull
    have hrest : 1022 - (front.length + 1) = 1021 - front.length := by omega
    rw [or_iff_right (by omega), hrest, List.forall_mem_cons]
    simp only [decide_eq_true_eq]

/-- For every text in front that fits and does not start with a newline, `record` stays
    inside of its buffer and writes the line that it should, exactly if the message is no
    longer than an `int` can tell, or nothing but newlines is lost without it. -/
theorem emits_iff (full : Vector Byte bufSize) (left : Bytes) (hpos : 0 < stamp.length)
    (hstamp : stamp.length ≤ 1023) (hhead : stamp.head? ≠ some 10) :
    line full stamp message left = some (lineOf stamp message) ↔ Expandable stamp message := by
  by_cases hmessage : message.length ≤ intMax
  · exact iff_of_true (line_spec hstamp hmessage (text_ne_nil message hpos hhead)) (.inl hmessage)
  · rw [emits_long_iff hpos hstamp hhead (Nat.lt_of_not_le hmessage), Expandable,
      or_iff_right hmessage]

/-- The text in front of a message in `a:1`. -/
def sampleStamp : Bytes := formatStamp ⟨117, 6, 5, 12, 0, 0⟩ 0 31 .INFO (ascii ['a']) 1

/-- A message with two newlines at its end. -/
theorem emits_iff_newlines : line (Vector.replicate bufSize 0) sampleStamp [104, 105, 10, 10] [] =
    some (sampleStamp ++ [104, 105, 10]) := by
  have hexpandable : Expandable sampleStamp [104, 105, 10, 10] := .inl (by decide)
  rw [(emits_iff (Vector.replicate bufSize 0) [] (by decide +kernel) (by decide +kernel)
    (by decide +kernel)).mpr hexpandable]
  decide +kernel

/-- A message of more than `INT_MAX` characters is lost, and a space in front of it. -/
theorem emits_long : ¬ ∀ (full : Vector Byte bufSize) (stamp message left : Bytes),
    0 < stamp.length → stamp.length ≤ 1023 → stamp.head? ≠ some 10 → 0 ∉ message →
    line full stamp message left = some (lineOf stamp message) := by
  intro hall
  have hlong : intMax < (List.replicate (2 ^ 31) (97 : Byte)).length := by
    rw [List.length_replicate]
    decide
  have hline := hall (Vector.replicate bufSize 0) sampleStamp (List.replicate (2 ^ 31) 97) []
    (by decide +kernel) (by decide +kernel) (by decide +kernel)
    fun hmem => absurd (List.eq_of_mem_replicate hmem) (by decide)
  rw [emits_long_iff (by decide +kernel) (by decide +kernel) (by decide +kernel) hlong] at hline
  obtain hlength | ⟨hlast, _⟩ := hline
  · exact absurd hlength (by decide +kernel)
  · exact absurd hlast (by decide +kernel)

section Stamp

theorem le_of_mem_zeroPadded {width : Nat} {n : Int} {c : Byte} (h : c ∈ zeroPadded width n) :
    45 ≤ c := by
  simp only [zeroPadded, List.mem_append, List.mem_replicate] at h
  obtain (hsign | ⟨_, rfl⟩) | hdigit := h
  · split at hsign
    · rw [List.mem_singleton.mp hsign]
      decide
    · cases hsign
  · decide
  · exact UInt8.le_trans (by decide) (digit_of_mem_decimal hdigit).1

theorem zeroPadded_ne_nil (width : Nat) (n : Int) : zeroPadded width n ≠ [] :=
  List.append_ne_nil_of_right_ne_nil _ (decimal_ne_nil _)

variable (t : Tm) (tv_usec tid : Int) (level : LogLevel) (file : Bytes) (lineno : Int)

/-- A line starts with the year. -/
theorem head_stamp : ∃ first, 45 ≤ first ∧
    (formatStamp t tv_usec tid level file lineno).head? = some first := by
  obtain ⟨first, year, hyear⟩ := List.exists_cons_of_ne_nil
    (zeroPadded_ne_nil 4 (t.tm_year + 1900))
  have hmem : first ∈ zeroPadded 4 (t.tm_year + 1900) := by
    rw [hyear]
    exact List.mem_cons_self
  have hfirst := le_of_mem_zeroPadded hmem
  refine ⟨first, hfirst, ?_⟩
  rw [formatStamp, List.flatten_cons, hyear, List.cons_append, List.head?_cons]

/-- What `record` writes, as long as the name of the file is not too long. -/
theorem record_spec (logger : Logger) (full : Vector Byte bufSize) (left : Bytes)
    (hstamp : (formatStamp t tv_usec tid level file lineno).length ≤ 1023)
    (hmessage : message.length ≤ intMax) :
    record logger t tv_usec tid level file lineno message full left =
      some (if logger.fd_ = -1 then 1 else logger.fd_,
        lineOf (formatStamp t tv_usec tid level file lineno) message) := by
  obtain ⟨first, hfirst, hhead⟩ := head_stamp t tv_usec tid level file lineno
  have hpos : 0 < (formatStamp t tv_usec tid level file lineno).length :=
    List.length_pos_of_mem (List.mem_of_mem_head? hhead)
  have hnewline : (formatStamp t tv_usec tid level file lineno).head? ≠ some 10 := by
    rw [hhead, ne_eq, Option.some.injEq]
    rintro rfl
    exact absurd hfirst (by decide)
  rw [record, line_spec hstamp hmessage (text_ne_nil message hpos hnewline)]
  rfl

end Stamp

end TcpNet.Logger
