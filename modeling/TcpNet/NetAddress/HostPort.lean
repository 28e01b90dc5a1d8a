import TcpNet.NetAddress

open CString

namespace TcpNet

/-- What a rendering should be: the address, a colon, and the port. -/
def hostPort (a : IPv4) (port : UInt16) : Bytes := a.dotted ++ 58 :: decimal port.toNat

namespace NetAddress

/-- The text of `NetAddress(a, port)`. -/
def rendering (inet : Inet) (buf : Vector Byte 32) (a : IPv4) (port : UInt16) : Option Bytes :=
  (ofIp inet a.dotted port).toHostPort inet buf

/-- The port is no negative `short` and the text has up to 15 characters, or the first five
    digits of what is printed are the port and all that is left of it. -/
def Fits (a : IPv4) (port : UInt16) : Prop :=
  port.toNat < 2 ^ 15 ∧ (hostPort a port).length ≤ 15 ∨
    a.dotted.length = 9 ∧ port.toNat = 42949

/-- The digits of the port that are not cut off. -/
def shown (a : IPv4) (port : UInt16) : Bytes :=
  (decimal (asUnsigned port.toInt16)).take (14 - a.dotted.length)

variable {inet : Inet} {buf : Vector Byte 32} {a a' : IPv4} {port port' : UInt16}

theorem asUnsigned_eq (port : UInt16) : asUnsigned port.toInt16 =
    if port.toNat < 2 ^ 15 then port.toNat else port.toNat + (2 ^ 32 - 2 ^ 16) := by
  have hextend : asUnsigned port.toInt16 = (port.toBitVec.signExtend 32).toNat := rfl
  have hbound := port.toNat_lt
  have hvalue : port.toBitVec.toNat = port.toNat := rfl
  rw [hextend, BitVec.toNat_signExtend, BitVec.msb_eq_decide, BitVec.toNat_setWidth, hvalue]
  by_cases hsmall : port.toNat < 2 ^ 15
  · rw [if_pos hsmall, if_neg (by rw [decide_eq_true_iff]; omega)]
    omega
  · rw [if_neg hsmall, if_pos (by rw [decide_eq_true_iff]; omega)]
    omega

theorem asUnsigned_lt (n : Int16) : asUnsigned n < 10 ^ 10 :=
  Nat.lt_trans n.toInt32.toUInt32.toNat_lt (by decide)

theorem string_dotted (a : IPv4) : string a.dotted = a.dotted := by
  refine List.takeWhile_eq_self_iff.mpr fun c hmem => decide_eq_true ?_
  rintro rfl
  exact absurd (IPv4.dotted_chars hmem).1 (by decide)

/-- The first 15 characters are left of what `snprintf` prints, whoever made the address. -/
theorem toHostPort_eq {self : NetAddress} (hhost : self.host inet = a.dotted) :
    self.toHostPort inet buf = some ((a.dotted ++
      58 :: decimal (asUnsigned (inet.ntohs self.addr_.sin_port).toInt16)).take 15) := by
  generalize hport : asUnsigned (inet.ntohs self.addr_.sin_port).toInt16 = port
  have hdigits : (decimal port).length ≤ 10 :=
    length_decimal_le (by decide) (hport ▸ asUnsigned_lt _)
  have hshort : (a.dotted ++ 58 :: decimal port).length ≤ intMax := by
    have hlong := a.length_dotted.2
    rw [List.length_append, List.length_cons, intMax]
    omega
  have hzero : 0 ∉ a.dotted ++ 58 :: decimal port := by
    intro hmem
    obtain hmem | hmem | hmem := by simpa only [List.mem_append, List.mem_cons] using hmem
    · exact absurd (IPv4.dotted_chars hmem).1 (by decide)
    · exact absurd hmem (by decide)
    · exact notMem_decimal (by decide) hmem
  have hbuf : buf.toList.length = 32 := Vector.length_toList
  have hroom : INET_ADDRSTRLEN ≤ buf.toList.length := by
    rw [hbuf]
    decide
  obtain ⟨buf', hprint, hstring⟩ := string_snprintf [] (by decide) hroom hshort hzero
  simp only [toHostPort, hhost, string_dotted, hport, hprint, Option.bind_eq_bind,
    Option.bind_some, Option.pure_def, hstring]
  rfl

/-- The host goes to the system and comes back. -/
theorem host_ofIp (inet : Inet) (a : IPv4) (port : UInt16) :
    (ofIp inet a.dotted port).host inet = a.dotted := by
  obtain ⟨addr, hpton, hntop⟩ := inet.ntop_pton a
  have hlong : a.dotted.length < INET_ADDRSTRLEN := Nat.lt_succ_of_le a.length_dotted.2
  simp only [host, ofIp, string_dotted, hpton, hntop, if_pos hlong]

theorem rendering_eq (inet : Inet) (buf : Vector Byte 32) (a : IPv4) (port : UInt16) :
    rendering inet buf a port = some (a.dotted ++
      if a.dotted.length < 15 then 58 :: shown a port else []) := by
  have hport : inet.ntohs (ofIp inet a.dotted port).addr_.sin_port = port :=
    inet.ntohs_htons port
  rw [rendering, toHostPort_eq (host_ofIp inet a port), hport, List.take_append,
    List.take_of_length_le a.length_dotted.2]
  split
  · have hsucc : 15 - a.dotted.length = 14 - a.dotted.length + 1 := by omega
    rw [hsucc, List.take_succ_cons, shown]
  · have hnone : 15 - a.dotted.length = 0 := by omega
    rw [hnone, List.take_zero]

/-- What is left of the digits is the port in full. -/
theorem renders_iff_shown :
    rendering inet buf a port = some (hostPort a port) ↔
      a.dotted.length < 15 ∧ shown a port = decimal port.toNat := by
  rw [rendering_eq, Option.some.injEq, hostPort, List.append_cancel_left_eq]
  split
  · rename_i hlong
    rw [List.cons.injEq, eq_self_iff_true, true_and, and_iff_right hlong]
  · rename_i hlong
    exact iff_of_false nofun fun h => hlong h.1

/-- The digits of a negative `short` start with 42949. -/
theorem take_of_negative (hport : 2 ^ 15 ≤ port.toNat) :
    ∃ low : Bytes, low.length = 5 ∧ decimal (asUnsigned port.toInt16) = decimal 42949 ++ low := by
  have hbound := port.toNat_lt
  have hvalue := asUnsigned_eq port
  rw [if_neg (by omega)] at hvalue
  have hquotient : asUnsigned port.toInt16 / 10 ^ 5 = 42949 := by omega
  rw [← hquotient]
  exact decimal_eq_append (by omega)

theorem shown_eq_iff_fits :
    a.dotted.length < 15 ∧ shown a port = decimal port.toNat ↔ Fits a port := by
  have hbound := port.toNat_lt
  have hhost := a.length_dotted
  have htext : (hostPort a port).length = a.dotted.length + 1 + (decimal port.toNat).length := by
    rw [hostPort, List.length_append, List.length_cons]
    omega
  have hpos := List.length_pos_of_ne_nil (decimal_ne_nil port.toNat)
  rw [shown, Fits, htext]
  by_cases hsmall : port.toNat < 2 ^ 15
  · rw [asUnsigned_eq, if_pos hsmall, List.take_eq_self_iff]
    omega
  · have hle : (decimal port.toNat).length ≤ 5 := length_decimal_le (by decide) (by omega)
    have hge : ¬ (decimal port.toNat).length ≤ 4 := by
      rw [length_decimal_le_iff (by decide)]
      omega
    obtain ⟨low, hlow, hsplit⟩ := take_of_negative (Nat.le_of_not_lt hsmall)
    have hfive : (decimal 42949).length = 5 := by decide +kernel
    rw [hsplit]
    constructor
    · rintro ⟨_, hport⟩
      have hlength := congrArg List.length hport
      rw [List.length_take, List.length_append, hfive, hlow] at hlength
      have hnine : a.dotted.length = 9 := by omega
      rw [hnine, List.take_left' hfive, decimal_inj] at hport
      exact .inr ⟨hnine, hport.symm⟩
    · rintro (⟨hpositive, _⟩ | ⟨hnine, hport⟩)
      · exact absurd hpositive hsmall
      · rw [hnine, hport, List.take_left' hfive]
        exact ⟨by decide, rfl⟩

/-- The address is what stands in front of the first colon. -/
theorem takeWhile_rendering (a : IPv4) (digits : Bytes) :
    (a.dotted ++ if a.dotted.length < 15 then 58 :: digits else []).takeWhile (· ≠ 58) =
      a.dotted := by
  have hcolon : ∀ c ∈ a.dotted, decide (c ≠ 58) = true := by
    intro c hmem
    refine decide_eq_true ?_
    rintro rfl
    exact absurd (IPv4.dotted_chars hmem).2 (by decide)
  rw [List.takeWhile_append_of_pos hcolon]
  split
  · rw [List.takeWhile_cons_of_neg (by decide), List.append_nil]
  · rw [List.takeWhile_nil, List.append_nil]

theorem rendering_eq_iff {buf' : Vector Byte 32} :
    rendering inet buf a port = rendering inet buf' a' port' ↔
      a = a' ∧ shown a port = shown a' port' := by
  rw [rendering_eq, rendering_eq, Option.some.injEq]
  constructor
  · intro h
    have hhost := congrArg (List.takeWhile (· ≠ 58)) h
    rw [takeWhile_rendering, takeWhile_rendering, IPv4.dotted_inj] at hhost
    subst hhost
    refine ⟨rfl, ?_⟩
    rw [List.append_cancel_left_eq] at h
    by_cases hlong : a.dotted.length < 15
    · rw [if_pos hlong, if_pos hlong, List.cons.injEq] at h
      exact h.2
    · have hnone : 14 - a.dotted.length = 0 := by omega
      rw [shown, shown, hnone, List.take_zero, List.take_zero]
  · rintro ⟨rfl, hshown⟩
    rw [hshown]

/-- A rendering is the address and the port in full exactly if these fit, and those that fit
    are rendered differently. -/
theorem renders_iff (inet : Inet) (buf : Vector Byte 32) :
    (∀ a port, rendering inet buf a port = some (hostPort a port) ↔ Fits a port) ∧
      ∀ a port a' port', Fits a port → Fits a' port' →
        rendering inet buf a port = rendering inet buf a' port' → a = a' ∧ port = port' := by
  refine ⟨fun a port => renders_iff_shown.trans shown_eq_iff_fits, ?_⟩
  intro a port a' port' hfits hfits' hsame
  obtain ⟨rfl, hshown⟩ := rendering_eq_iff.mp hsame
  rw [(shown_eq_iff_fits.mpr hfits).2, (shown_eq_iff_fits.mpr hfits').2, decimal_inj,
    UInt16.toNat_inj] at hshown
  exact ⟨rfl, hshown⟩

/-- The address 127.0.0.1 with the port 8000. -/
theorem renders_iff_local :
    rendering Inet.littleEndian (Vector.replicate 32 0) ⟨127, 0, 0, 1⟩ 8000 =
      some (ascii ['1', '2', '7', '.', '0', '.', '0', '.', '1', ':', '8', '0', '0', '0']) := by
  have hfits : Fits ⟨127, 0, 0, 1⟩ 8000 := .inl (by decide +kernel)
  rw [((renders_iff Inet.littleEndian (Vector.replicate 32 0)).1 ⟨127, 0, 0, 1⟩ 8000).mpr hfits]
  decide +kernel

/-- The port 40000 is printed as 4294941760, less what is cut off, and two ports of an
    address of 15 characters cannot be told apart. -/
theorem renders_negative :
    (¬ ∀ (inet : Inet) (buf : Vector Byte 32) (a : IPv4) (port : UInt16),
      rendering inet buf a port = some (hostPort a port)) ∧
    ¬ ∀ (inet : Inet) (buf : Vector Byte 32) (a a' : IPv4) (port port' : UInt16),
      (a, port) ≠ (a', port') → rendering inet buf a port ≠ rendering inet buf a' port' := by
  constructor
  · intro hall
    have hrendering := hall Inet.littleEndian (Vector.replicate 32 0) ⟨0, 0, 0, 0⟩ 40000
    revert hrendering
    decide +kernel
  · intro hall
    refine hall Inet.littleEndian (Vector.replicate 32 0) ⟨192, 168, 100, 100⟩
      ⟨192, 168, 100, 100⟩ 80 81 (by decide) ?_
    decide +kernel

end NetAddress

end TcpNet
