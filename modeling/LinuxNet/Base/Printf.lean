-- SUMMARY: The decimal numeral that printf writes for an int.
import LinuxNet.Base.Stoi
import Mathlib.Data.Nat.Digits.Lemmas
import Mathlib.Tactic.NormNum.Basic

/-! # Numbers in texts -/

namespace LinuxNet

/-- `%d` of a 32-bit `int`. -/
def printInt (x : BitVec 32) : List UInt8 :=
  if x.toInt < 0 then minus :: decimal x.toInt.natAbs else decimal x.toInt.natAbs

theorem decimal_length {n k : Nat} (h : n < 10 ^ k) (hk : 0 < k) : (decimal n).length ≤ k := by
  unfold decimal
  split
  · exact hk
  · rw [List.length_map, List.length_reverse]
    exact (Nat.digits_length_le_iff (by decide) n).2 h

/-- The numeral is a string, of a sign and ten digits at most. -/
theorem printInt_isText (x : BitVec 32) :
    0 ∉ printInt x ∧ printInt x ≠ [] ∧ (printInt x).length ≤ 11 := by
  have hdigits : 0 ∉ decimal x.toInt.natAbs := fun hmem =>
    absurd (decimal_isDigit hmem) (by decide)
  have hlength : (decimal x.toInt.natAbs).length ≤ 10 := by
    apply decimal_length _ (by decide)
    have hlo := BitVec.le_toInt x
    have hhi := BitVec.toInt_lt (x := x)
    norm_num at hlo hhi ⊢
    omega
  unfold printInt
  split
  · refine ⟨fun hmem => ?_, List.cons_ne_nil _ _, Nat.succ_le_succ hlength⟩
    rcases List.mem_cons.1 hmem with h | h
    · exact absurd h (by decide)
    · exact hdigits h
  · exact ⟨hdigits, decimal_ne_nil _, hlength.trans (by decide)⟩

theorem printInt_ofNat {n : Nat} (h : n < 2 ^ 31) : printInt (BitVec.ofNat 32 n) = decimal n := by
  have htoNat : (BitVec.ofNat 32 n).toNat = n := by
    rw [BitVec.toNat_ofNat, Nat.mod_eq_of_lt (by omega)]
  have htoInt : (BitVec.ofNat 32 n).toInt = n := by
    rw [BitVec.toInt_eq_toNat_of_lt (by omega), htoNat]
  rw [printInt, htoInt, if_neg (by omega), Int.natAbs_natCast]

theorem decimal_injective : Function.Injective decimal :=
  Function.LeftInverse.injective digitsValue_decimal

theorem minus_not_mem_decimal {n : Nat} : minus ∉ decimal n := fun hmem =>
  absurd (decimal_isDigit hmem) (by decide)

/-- The numeral gives the number. -/
theorem printInt_injective : Function.Injective printInt := by
  intro x y h
  apply BitVec.eq_of_toInt_eq
  unfold printInt at h
  split at h <;> split at h
  · have habs := decimal_injective (List.cons.inj h).2
    omega
  · exact absurd (h ▸ List.mem_cons_self) minus_not_mem_decimal
  · exact absurd (h ▸ List.mem_cons_self) minus_not_mem_decimal
  · have habs := decimal_injective h
    omega

/-- There is no space in a numeral. -/
theorem printInt_word {x : BitVec 32} : ∀ b ∈ printInt x, isSpace b = false := by
  have hdigits : ∀ b ∈ decimal x.toInt.natAbs, isSpace b = false := fun b hb =>
    (isDigit_not (decimal_isDigit hb)).1
  unfold printInt
  split
  · intro b hb
    rcases List.mem_cons.1 hb with rfl | hb
    · decide
    · exact hdigits b hb
  · exact hdigits

end LinuxNet
