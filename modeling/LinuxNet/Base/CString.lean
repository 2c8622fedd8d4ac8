-- SUMMARY: The C string in a zeroed buffer of which a prefix has been stored.
import LinuxNet.Base.Socket
import Mathlib.Data.List.TakeWhile

/-! # C strings in buffers -/

namespace LinuxNet

variable {bytes rest : List UInt8} {size n k : Nat}

theorem cString_append (h : 0 ∉ bytes) (rest : List UInt8) :
    cString (bytes ++ rest) = bytes ++ cString rest :=
  List.takeWhile_append_of_pos fun _ hb => decide_eq_true fun he => h (he ▸ hb)

theorem cString_eq_self (h : 0 ∉ bytes) : cString bytes = bytes :=
  List.takeWhile_eq_self_iff.2 fun _ hb => decide_eq_true fun he => h (he ▸ hb)

theorem zero_not_mem_cString : 0 ∉ cString bytes := fun hmem => by
  unfold cString at hmem
  simpa using List.mem_takeWhile_imp hmem

theorem cString_append_of_mem (h : 0 ∈ bytes) : cString (bytes ++ rest) = cString bytes := by
  have hshort : (cString bytes).length ≠ bytes.length := fun hlength => by
    have hself := (List.takeWhile_prefix _).eq_of_length hlength
    exact absurd rfl (of_decide_eq_true (List.takeWhile_eq_self_iff.1 hself 0 h))
  exact (List.takeWhile_append).trans (if_neg hshort)

/-- A string ends at its terminator, if not before. -/
theorem cString_terminated : cString (bytes ++ 0 :: rest) = cString bytes := by
  by_cases hzero : 0 ∈ bytes
  · exact cString_append_of_mem hzero
  · rw [cString_append hzero, cString_eq_self hzero]
    exact List.append_nil bytes

theorem cString_append_zeros : cString (bytes ++ List.replicate k 0) = cString bytes := by
  unfold cString
  have hzeros : (List.replicate k (0 : UInt8)).takeWhile (· ≠ 0) = [] := by
    simp
  rw [List.takeWhile_append, hzeros, List.append_nil]
  split
  · exact ((List.takeWhile_prefix _).eq_of_length ‹_›).symm
  · rfl

/-- The zeros behind the bytes stored are not part of the string. -/
theorem cString_filled : cString (filled size bytes) = cString bytes := cString_append_zeros

theorem take_cString : (cString bytes).take n = cString (bytes.take n) := List.take_takeWhile

/-- Cutting a string beyond the length of a literal does not make it the literal. -/
theorem cString_take_eq_iff {word : List UInt8} (hlt : word.length < n) :
    cString (bytes.take n) = word ↔ cString bytes = word := by
  rw [← take_cString]
  constructor
  · intro h
    have hlen : min n (cString bytes).length = word.length := by
      rw [← List.length_take, h]
    rw [← h, List.take_of_length_le (by omega)]
  · rintro rfl
    exact List.take_of_length_le hlt.le

end LinuxNet
