-- SUMMARY: Arrays that are filled from the front, without repetition, and compacted by moving the last entry.
import Mathlib.Logic.Function.Basic

/-! # Dense arrays

The first `n` slots of an array hold different entries, and the others are
empty. An entry is added behind the last one. An entry that is removed is
replaced by the last one, whose slot is then cleared; the two may be the same. -/

namespace LinuxNet

variable {α : Type*} {f : Nat → Option α} {n i : Nat} {x y : α}

structure Dense (n : Nat) (f : Nat → Option α) : Prop where
  filled : ∀ i, (f i).isSome ↔ i < n
  inj : ∀ i j x, f i = some x → f j = some x → i = j

/-- `f` after the last of `n + 1` entries has been moved to slot `i`. -/
def moveLast (f : Nat → Option α) (n i : Nat) : Nat → Option α :=
  Function.update (Function.update f i (f n)) n none

namespace Dense

theorem exists_eq_some (h : Dense n f) (hi : i < n) : ∃ x, f i = some x :=
  Option.isSome_iff_exists.1 ((h.filled i).2 hi)

theorem lt (h : Dense n f) (hx : f i = some x) : i < n :=
  (h.filled i).1 (by simp [hx])

theorem eq_none (h : Dense n f) (hi : n ≤ i) : f i = none := by
  rw [← Option.not_isSome_iff_eq_none, h.filled]
  omega

/-! ## Adding behind the last entry -/

theorem push (h : Dense n f) (hx : ∀ i, f i ≠ some x) :
    Dense (n + 1) (Function.update f n (some x)) := by
  constructor
  · intro i
    by_cases hi : i = n
    · simp [hi]
    · rw [Function.update_of_ne hi, h.filled]
      omega
  · intro i j y hi hj
    by_cases hin : i = n <;> by_cases hjn : j = n
    · rw [hin, hjn]
    · rw [hin, Function.update_self] at hi
      rw [Function.update_of_ne hjn, ← hi] at hj
      exact absurd hj (hx j)
    · rw [hjn, Function.update_self] at hj
      rw [Function.update_of_ne hin, ← hj] at hi
      exact absurd hi (hx i)
    · rw [Function.update_of_ne hin] at hi
      rw [Function.update_of_ne hjn] at hj
      exact h.inj i j y hi hj

theorem exists_push (h : Dense n f) :
    (∃ i, Function.update f n (some x) i = some y) ↔ y = x ∨ ∃ i, f i = some y := by
  constructor
  · rintro ⟨i, hi⟩
    by_cases hin : i = n
    · rw [hin, Function.update_self] at hi
      exact .inl (Option.some.inj hi).symm
    · rw [Function.update_of_ne hin] at hi
      exact .inr ⟨i, hi⟩
  · rintro (rfl | ⟨i, hi⟩)
    · exact ⟨n, Function.update_self ..⟩
    · have hne : i ≠ n := Nat.ne_of_lt (h.lt hi)
      exact ⟨i, by rw [Function.update_of_ne hne, hi]⟩

/-! ## Removing by moving the last entry -/

theorem moveLast_apply (f : Nat → Option α) (n i j : Nat) :
    moveLast f n i j = if j = n then none else if j = i then f n else f j := by
  simp only [moveLast, Function.update_apply]

/-- An entry that is there afterwards comes from another slot than the removed one. -/
theorem moveLast_eq_some {j : Nat} (h : moveLast f n i j = some y) :
    ∃ k, k ≠ i ∧ f k = some y ∧ j ≠ n ∧ (k = n ∧ j = i ∨ k = j) := by
  rw [moveLast_apply] at h
  by_cases hjn : j = n
  · simp [hjn] at h
  · rw [if_neg hjn] at h
    by_cases hji : j = i
    · rw [if_pos hji] at h
      exact ⟨n, fun he => hjn (hji.trans he.symm), h, hjn, .inl ⟨rfl, hji⟩⟩
    · rw [if_neg hji] at h
      exact ⟨j, hji, h, hjn, .inr rfl⟩

theorem of_moveLast (h : Dense (n + 1) f) (hi : i < n + 1) : Dense n (moveLast f n i) := by
  constructor
  · intro j
    rw [moveLast_apply]
    by_cases hjn : j = n
    · simp [hjn]
    · by_cases hji : j = i
      · rw [if_neg hjn, if_pos hji, h.filled]
        omega
      · rw [if_neg hjn, if_neg hji, h.filled]
        omega
  · intro j j' y hj hj'
    obtain ⟨k, hki, hk, hjn, hkj⟩ := moveLast_eq_some hj
    obtain ⟨k', hki', hk', hjn', hkj'⟩ := moveLast_eq_some hj'
    have hkk := h.inj k k' y hk hk'
    omega

theorem exists_moveLast (h : Dense (n + 1) f) (hi : f i = some x) :
    (∃ j, moveLast f n i j = some y) ↔ y ≠ x ∧ ∃ j, f j = some y := by
  constructor
  · rintro ⟨j, hj⟩
    obtain ⟨k, hki, hk, -, -⟩ := moveLast_eq_some hj
    exact ⟨fun he => hki (h.inj k i x (he ▸ hk) hi), k, hk⟩
  · rintro ⟨hne, k, hk⟩
    have hki : k ≠ i := fun he => by
      rw [he, hi] at hk
      exact hne (Option.some.inj hk).symm
    by_cases hkn : k = n
    · refine ⟨i, ?_⟩
      rw [moveLast_apply, if_neg (fun he => hki (hkn.trans he.symm)), if_pos rfl, ← hkn, hk]
    · exact ⟨k, by rw [moveLast_apply, if_neg hkn, if_neg hki, hk]⟩

end Dense

end LinuxNet
