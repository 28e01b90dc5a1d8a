import TcpNet.Buffer
import Mathlib.Algebra.Group.Nat.Defs

namespace TcpNet

/-- A number in decimal digits, as `%d` and `%zd` write it. -/
def decimal (n : Nat) : Bytes := ascii (Nat.toDigits 10 n)

theorem toNat_toUInt8 {c : Char} (h : c.isDigit = true) :
    c.toUInt8.toNat = c.toNat ∧ 48 ≤ c.toNat ∧ c.toNat ≤ 57 := by
  have hrange : 48 ≤ c.toNat ∧ c.toNat ≤ 57 := Char.isDigit_iff_toNat.mp h
  have hvalue : c.toUInt8.toNat = c.toNat % 256 := rfl
  exact ⟨by omega, hrange⟩

theorem foldl_ascii {text : List Char} (h : ∀ c ∈ text, c.isDigit = true) (n : Nat) :
    (ascii text).foldl (fun n c => 10 * n + (c.toNat - 48)) n = Nat.ofDigitChars 10 text n := by
  induction text generalizing n with
  | nil => rfl
  | cons c text ih =>
    obtain ⟨hvalue, _⟩ := toNat_toUInt8 (h c List.mem_cons_self)
    have hrest := ih (fun c' hc' => h c' (List.mem_cons_of_mem c hc')) (10 * n + (c.toNat - 48))
    rw [ascii] at hrest
    rw [ascii, List.map_cons, List.foldl_cons, hvalue, Nat.ofDigitChars_cons, hrest]
    rfl

theorem isDigit_of_mem_toDigits {n : Nat} : ∀ c ∈ Nat.toDigits 10 n, c.isDigit = true :=
  fun _ hc => Nat.isDigit_of_mem_toDigits (by decide) (by decide) hc

theorem decimal_ne_nil (n : Nat) : decimal n ≠ [] := by
  rw [decimal, ascii, ne_eq, List.map_eq_nil_iff]
  exact Nat.toDigits_ne_nil

/-- The value of the digits, read from the left. -/
theorem foldl_decimal (n : Nat) :
    (decimal n).foldl (fun n c => 10 * n + (c.toNat - 48)) 0 = n := by
  rw [decimal, foldl_ascii isDigit_of_mem_toDigits, Nat.ofDigitChars_ten_toDigits]

theorem decimal_inj {m n : Nat} : decimal m = decimal n ↔ m = n := by
  constructor
  · intro h
    rw [← foldl_decimal m, h, foldl_decimal]
  · exact congrArg decimal

/-- Every character of a decimal is a digit. -/
theorem digit_of_mem_decimal {n : Nat} {c : Byte} (hc : c ∈ decimal n) : 48 ≤ c ∧ c ≤ 57 := by
  obtain ⟨digit, hdigit, rfl⟩ := List.mem_map.mp hc
  obtain ⟨hvalue, hlow, hhigh⟩ := toNat_toUInt8 (isDigit_of_mem_toDigits digit hdigit)
  rw [UInt8.le_iff_toNat_le, UInt8.le_iff_toNat_le, hvalue]
  exact ⟨hlow, hhigh⟩

theorem notMem_decimal {n : Nat} {c : Byte} (hc : c < 48) : c ∉ decimal n := by
  intro hmem
  have hdigit := (digit_of_mem_decimal hmem).1
  rw [UInt8.le_iff_toNat_le] at hdigit
  rw [UInt8.lt_iff_toNat_lt] at hc
  omega

theorem length_decimal_le_iff {n k : Nat} (hk : 0 < k) : (decimal n).length ≤ k ↔ n < 10 ^ k := by
  rw [decimal, ascii, List.length_map]
  exact Nat.length_toDigits_le_iff (by decide) hk

theorem length_decimal_le {n k : Nat} (hk : 0 < k) (h : n < 10 ^ k) : (decimal n).length ≤ k :=
  (length_decimal_le_iff hk).mpr h

/-- The digits in front of the last `k`. -/
theorem decimal_eq_append {n k : Nat} (h : 10 ^ k ≤ n) :
    ∃ low : Bytes, low.length = k ∧ decimal n = decimal (n / 10 ^ k) ++ low := by
  induction k with
  | zero => exact ⟨[], rfl, by rw [Nat.pow_zero, Nat.div_one, List.append_nil]⟩
  | succ k ih =>
    have hsmaller : 10 ^ k ≤ n := Nat.le_trans (Nat.pow_le_pow_right (by decide) (Nat.le_succ k)) h
    obtain ⟨low, hlength, hsplit⟩ := ih hsmaller
    have hten : 10 ≤ n / 10 ^ k := by
      rw [Nat.le_div_iff_mul_le (Nat.pow_pos (by decide)), Nat.mul_comm, ← Nat.pow_succ]
      exact h
    have hlast : decimal (n / 10 ^ k) =
        decimal (n / 10 ^ (k + 1)) ++ ascii [Nat.digitChar (n / 10 ^ k % 10)] := by
      rw [decimal, Nat.toDigits_of_base_le (by decide) hten, Nat.div_div_eq_div_mul, ← Nat.pow_succ,
        ascii, List.map_append]
      rfl
    refine ⟨ascii [Nat.digitChar (n / 10 ^ k % 10)] ++ low, ?_, ?_⟩
    · rw [List.length_append, hlength, Nat.add_comm]
      rfl
    · rw [hsplit, hlast, List.append_assoc]

end TcpNet
