-- SUMMARY: The lowest number outside of a finite set, and how many numbers below a limit are outside of it.
import Mathlib.Data.Finset.Card
import Mathlib.Data.Fintype.EquivFin

/-! # Unused numbers

A pool of numbers from which the lowest unused one is taken. As long as there
is an unused number below a limit, the one that is taken is below it too. -/

namespace LinuxNet

variable {S : Finset Nat} {limit x : Nat}

/-- The lowest number that is not in use. -/
def lowestUnused (S : Finset Nat) : Nat := Nat.find (Infinite.exists_notMem_finset S)

/-- The unused numbers below a limit. -/
def unused (limit : Nat) (S : Finset Nat) : Finset Nat := Finset.range limit \ S

theorem lowestUnused_notMem (S : Finset Nat) : lowestUnused S ∉ S :=
  Nat.find_spec (Infinite.exists_notMem_finset S)

theorem lowestUnused_pos (h : 0 ∈ S) : 0 < lowestUnused S :=
  Nat.pos_of_ne_zero fun h0 => lowestUnused_notMem S (h0 ▸ h)

theorem lowestUnused_range (n : Nat) : lowestUnused (Finset.range n) = n := by
  apply (Nat.find_eq_iff _).2
  simp

theorem mem_unused : x ∈ unused limit S ↔ x < limit ∧ x ∉ S := by
  rw [unused, Finset.mem_sdiff, Finset.mem_range]

theorem lowestUnused_mem_unused (h : 0 < (unused limit S).card) :
    lowestUnused S ∈ unused limit S := by
  obtain ⟨x, hx⟩ := Finset.card_pos.1 h
  obtain ⟨hlt, hnew⟩ := mem_unused.1 hx
  have hle : lowestUnused S ≤ x := Nat.find_min' _ hnew
  exact mem_unused.2 ⟨hle.trans_lt hlt, lowestUnused_notMem S⟩

/-! ## Taking a number and giving it back -/

theorem unused_insert : unused limit (insert x S) = (unused limit S).erase x := by
  ext y
  simp only [mem_unused, Finset.mem_insert, Finset.mem_erase]
  tauto

theorem card_unused_insert (h : x ∈ unused limit S) :
    (unused limit (insert x S)).card + 1 = (unused limit S).card := by
  rw [unused_insert, Finset.card_erase_add_one h]

theorem card_unused_erase (hlt : x < limit) (h : x ∈ S) :
    (unused limit (S.erase x)).card = (unused limit S).card + 1 := by
  have hmem : x ∈ unused limit (S.erase x) := mem_unused.2 ⟨hlt, Finset.notMem_erase x S⟩
  rw [← card_unused_insert hmem, Finset.insert_erase h]

theorem card_unused_erase_le (S : Finset Nat) (x limit : Nat) :
    (unused limit S).card ≤ (unused limit (S.erase x)).card := by
  apply Finset.card_le_card
  intro y hy
  obtain ⟨hlt, hnew⟩ := mem_unused.1 hy
  exact mem_unused.2 ⟨hlt, fun hmem => hnew (Finset.mem_of_mem_erase hmem)⟩

/-- A set of numbers below `limit` leaves the ones from `limit` on unused. -/
theorem le_card_unused (h : ∀ x ∈ S, x < limit) (n : Nat) : n ≤ (unused (limit + n) S).card := by
  have hsub : S ⊆ Finset.range limit := fun x hx => Finset.mem_range.2 (h x hx)
  have hcard := Finset.card_le_card hsub
  have hdiff := Finset.le_card_sdiff S (Finset.range (limit + n))
  rw [Finset.card_range] at hcard hdiff
  rw [unused]
  omega

end LinuxNet
