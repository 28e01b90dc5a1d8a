import TcpNet.Decimal
import TcpNet.Library.CString

open CString

namespace TcpNet

/-- An address of four numbers. -/
structure IPv4 where
  first : UInt8
  second : UInt8
  third : UInt8
  fourth : UInt8
  deriving DecidableEq, Repr

/-- The four numbers with dots between them. -/
def IPv4.dotted (a : IPv4) : Bytes :=
  decimal a.first.toNat ++ 46 :: (decimal a.second.toNat ++ 46 ::
    (decimal a.third.toNat ++ 46 :: decimal a.fourth.toNat))

/-- The functions of the system that turn addresses and ports over. `inet_pton` has no
    result where it returns 0 or less. -/
structure Inet where
  inet_pton : Bytes → Option UInt32
  inet_ntop : UInt32 → Bytes
  htons : UInt16 → UInt16
  ntohs : UInt16 → UInt16
  ntop_pton : ∀ a : IPv4, ∃ addr, inet_pton a.dotted = some addr ∧ inet_ntop addr = a.dotted
  ntohs_htons : ∀ port, ntohs (htons port) = port

/-- A `struct sockaddr_in`, whose family is always `AF_INET`. -/
structure SockAddrIn where
  sin_addr : UInt32
  sin_port : UInt16
  deriving DecidableEq, Repr

def INET_ADDRSTRLEN : Nat := 16

/-- What `%u` makes of a `short`, which is passed as an `int`. -/
def asUnsigned (n : Int16) : Nat := n.toInt32.toUInt32.toNat

structure NetAddress where
  addr_ : SockAddrIn
  deriving DecidableEq, Repr

namespace NetAddress

variable (inet : Inet)

/-- The constructor from a port. `htonl(INADDR_ANY)` is 0. -/
def ofPort (port : UInt16) : NetAddress := ⟨0, inet.htons port⟩

/-- The constructor from a text and a port. Where the text is no address, the address
    stays as `bzero` leaves it. -/
def ofIp (ip : Bytes) (port : UInt16) : NetAddress :=
  let addr_ : SockAddrIn := ⟨0, 0⟩
  let addr_ :=
    match inet.inet_pton (string ip) with
    | some sin_addr => { addr_ with sin_addr }
    | none => addr_
  ⟨{ addr_ with sin_port := inet.htons port }⟩

def ofSockAddr (addr : SockAddrIn) : NetAddress := ⟨addr⟩

/-- `char host[INET_ADDRSTRLEN] = "INVALID"` behind `inet_ntop`, which fails where the
    text and the zero behind it do not fit. -/
def host (self : NetAddress) : Bytes :=
  let text := inet.inet_ntop self.addr_.sin_addr
  if text.length < INET_ADDRSTRLEN then text
  else ascii ['I', 'N', 'V', 'A', 'L', 'I', 'D']

/-- `buf` holds anything at first. The size that `snprintf` gets is that of `host`. -/
def toHostPort (self : NetAddress) (buf : Vector Byte 32) : Option Bytes := do
  let port : Int16 := (inet.ntohs self.addr_.sin_port).toInt16
  let text := string (self.host inet) ++ 58 :: decimal (asUnsigned port)
  let (_, buf) ← CString.snprintf buf.toList 0 INET_ADDRSTRLEN text []
  return string buf

end NetAddress

section Dotted

variable {a a' : IPv4}

theorem IPv4.dotted_chars {c : Byte} (h : c ∈ a.dotted) : 46 ≤ c ∧ c ≤ 57 := by
  have hdigit : ∀ {n}, c ∈ decimal n → 46 ≤ c ∧ c ≤ 57 := fun hmem =>
    ⟨UInt8.le_trans (by decide) (digit_of_mem_decimal hmem).1, (digit_of_mem_decimal hmem).2⟩
  have hdot : c = 46 → 46 ≤ c ∧ c ≤ 57 := by
    rintro rfl
    decide
  simp only [dotted, List.mem_append, List.mem_cons] at h
  obtain h | h | h | h | h | h | h := h
  · exact hdigit h
  · exact hdot h
  · exact hdigit h
  · exact hdot h
  · exact hdigit h
  · exact hdot h
  · exact hdigit h

theorem IPv4.splitOn_dotted (a : IPv4) : a.dotted.splitOn 46 =
    [decimal a.first.toNat, decimal a.second.toNat, decimal a.third.toNat,
      decimal a.fourth.toNat] := by
  have hdot : ∀ n, (46 : Byte) ∉ decimal n := fun n => notMem_decimal (by decide)
  rw [dotted, List.splitOn_append_cons_self_of_not_mem (hdot _),
    List.splitOn_append_cons_self_of_not_mem (hdot _),
    List.splitOn_append_cons_self_of_not_mem (hdot _), List.splitOn_eq_singleton (hdot _)]

theorem IPv4.dotted_inj : a.dotted = a'.dotted ↔ a = a' := by
  constructor
  · intro h
    have hsplit := a.splitOn_dotted
    rw [h, a'.splitOn_dotted] at hsplit
    simp only [List.cons.injEq, decimal_inj, UInt8.toNat_inj, and_true] at hsplit
    obtain ⟨h₁, h₂, h₃, h₄⟩ := hsplit
    cases a
    cases a'
    simp only [IPv4.mk.injEq]
    exact ⟨h₁.symm, h₂.symm, h₃.symm, h₄.symm⟩
  · exact congrArg IPv4.dotted

/-- An address has 7 to 15 characters. -/
theorem IPv4.length_dotted (a : IPv4) : 7 ≤ a.dotted.length ∧ a.dotted.length ≤ 15 := by
  have hnumber : ∀ n : UInt8, 0 < (decimal n.toNat).length ∧ (decimal n.toNat).length ≤ 3 :=
    fun n => ⟨List.length_pos_of_ne_nil (decimal_ne_nil _),
      length_decimal_le (by decide) (Nat.lt_trans n.toNat_lt (by decide))⟩
  obtain ⟨hpos₁, hle₁⟩ := hnumber a.first
  obtain ⟨hpos₂, hle₂⟩ := hnumber a.second
  obtain ⟨hpos₃, hle₃⟩ := hnumber a.third
  obtain ⟨hpos₄, hle₄⟩ := hnumber a.fourth
  simp only [dotted, List.length_append, List.length_cons]
  omega

end Dotted

namespace Inet

/-- A number from 0 to 255. -/
def octet (text : Bytes) : Option UInt8 :=
  ((List.range 256).find? (fun n => decimal n = text)).map UInt8.ofNat

/-- The bytes of an address in memory, as a number of a little-endian host. -/
def pack (a : IPv4) : UInt32 :=
  UInt32.ofNat (a.first.toNat + 2 ^ 8 * a.second.toNat + 2 ^ 16 * a.third.toNat +
    2 ^ 24 * a.fourth.toNat)

def unpack (addr : UInt32) : IPv4 :=
  ⟨UInt8.ofNat addr.toNat, UInt8.ofNat (addr.toNat / 2 ^ 8), UInt8.ofNat (addr.toNat / 2 ^ 16),
    UInt8.ofNat (addr.toNat / 2 ^ 24)⟩

def swapBytes (port : UInt16) : UInt16 :=
  UInt16.ofNat (port.toNat % 2 ^ 8 * 2 ^ 8 + port.toNat / 2 ^ 8)

theorem octet_decimal (n : UInt8) : octet (decimal n.toNat) = some n := by
  have hfind : (List.range 256).find? (fun m => decimal m = decimal n.toNat) = some n.toNat := by
    rw [List.find?_range_eq_some]
    refine ⟨decide_eq_true rfl, List.mem_range.mpr n.toNat_lt, fun m hm => ?_⟩
    rw [Bool.not_eq_true', decide_eq_false_iff_not, decimal_inj]
    omega
  rw [octet, hfind, Option.map_some, UInt8.ofNat_toNat]

theorem unpack_pack (a : IPv4) : unpack (pack a) = a := by
  obtain ⟨first, second, third, fourth⟩ := a
  have h₁ := first.toNat_lt
  have h₂ := second.toNat_lt
  have h₃ := third.toNat_lt
  have h₄ := fourth.toNat_lt
  have hpack : (pack ⟨first, second, third, fourth⟩).toNat = first.toNat +
      2 ^ 8 * second.toNat + 2 ^ 16 * third.toNat + 2 ^ 24 * fourth.toNat := by
    refine UInt32.toNat_ofNat_of_lt' ?_
    change first.toNat + 2 ^ 8 * second.toNat + 2 ^ 16 * third.toNat + 2 ^ 24 * fourth.toNat <
      2 ^ 32
    omega
  simp only [unpack, hpack, IPv4.mk.injEq, ← UInt8.toNat_inj, UInt8.toNat_ofNat']
  omega

theorem swapBytes_swapBytes (port : UInt16) : swapBytes (swapBytes port) = port := by
  have hbound := port.toNat_lt
  have hvalue : ∀ p : UInt16, (swapBytes p).toNat = p.toNat % 2 ^ 8 * 2 ^ 8 + p.toNat / 2 ^ 8 :=
    fun p => UInt16.toNat_ofNat_of_lt' (by
      have hlt := p.toNat_lt
      rw [UInt16.size]
      omega)
  rw [← UInt16.toNat_inj, hvalue, hvalue]
  omega

/-- A host with the low byte of a number first. -/
def littleEndian : Inet where
  inet_pton text :=
    match text.splitOn 46 with
    | [first, second, third, fourth] => do
      return pack ⟨← octet first, ← octet second, ← octet third, ← octet fourth⟩
    | _ => none
  inet_ntop addr := (unpack addr).dotted
  htons := swapBytes
  ntohs := swapBytes
  ntop_pton a := by
    refine ⟨pack a, ?_, congrArg IPv4.dotted (unpack_pack a)⟩
    simp only [a.splitOn_dotted, octet_decimal]
    rfl
  ntohs_htons := swapBytes_swapBytes

end Inet

end TcpNet
