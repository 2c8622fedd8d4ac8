-- SUMMARY: Scanning a table whose entries are removed by moving the last entry into a slot that has been passed.
import Mathlib.Data.List.Nodup

/-! # Scans that lose the entries they move

A scan goes through the slots of a table up to a bound. A flagged entry that
leaves is replaced by the last one, and the bound is lowered; the scan goes on
behind the slot, so that it does not come to the entry that has been moved. -/

namespace LinuxNet

variable {α : Type*} {leaves : α → Bool} {n k : Nat} {x : α} {p : α × Bool}
  {L : List (α × Bool)}

/-- The slots that a scan comes to, of the `n` first ones. -/
def skipScan (leaves : α → Bool) : Nat → List (α × Bool) → List (α × Bool)
  | 0, _ => []
  | _ + 1, [] => []
  | n + 1, p :: L => p :: skipScan leaves (if p.2 && leaves p.1 then n - 1 else n) L

/-- A scan goes through the table in order, and stops early. -/
theorem skipScan_eq_take (leaves : α → Bool) (n : Nat) (L : List (α × Bool)) :
    skipScan leaves n L = L.take (skipScan leaves n L).length := by
  induction L generalizing n with
  | nil => cases n <;> rfl
  | cons p L ih =>
    cases n with
    | zero => rfl
    | succ n =>
      rw [skipScan, List.length_cons, List.take_succ_cons, ← ih]

/-- A scan comes to a slot exactly if fewer entries in front of it leave than there
are slots from there on. -/
theorem lt_length_skipScan_iff (hn : n ≤ L.length) : k < (skipScan leaves n L).length ↔
    k + (L.take k).countP (fun p => p.2 && leaves p.1) < n := by
  induction L generalizing n k with
  | nil =>
    obtain rfl : n = 0 := Nat.le_zero.1 hn
    simp [skipScan]
  | cons p L ih =>
    cases n with
    | zero => simp [skipScan]
    | succ n =>
      rw [List.length_cons] at hn
      rw [skipScan, List.length_cons]
      cases k with
      | zero => simp
      | succ k =>
        rw [Nat.succ_lt_succ_iff, List.take_succ_cons, List.countP_cons]
        cases hleave : p.2 && leaves p.1 with
        | false =>
          rw [if_neg Bool.false_ne_true, if_neg Bool.false_ne_true, ih (by omega)]
          omega
        | true =>
          rw [if_pos rfl, if_pos rfl, ih (by omega)]
          omega

/-- A scan comes to every slot exactly if no entry in front of the last one leaves. -/
theorem length_skipScan_iff (hn : n ≤ L.length) : (∀ k < n, k < (skipScan leaves n L).length) ↔
    ∀ p ∈ L.take (n - 1), (p.2 && leaves p.1) = false := by
  have hcount : (∀ p ∈ L.take (n - 1), (p.2 && leaves p.1) = false) ↔
      (L.take (n - 1)).countP (fun p => p.2 && leaves p.1) = 0 := by
    simp only [List.countP_eq_zero, Bool.not_eq_true]
  rw [hcount]
  constructor
  · intro hall
    rcases Nat.eq_zero_or_pos n with rfl | hpos
    · rfl
    · have hlast := (lt_length_skipScan_iff hn).1 (hall (n - 1) (by omega))
      omega
  · intro hnone k hk
    rw [lt_length_skipScan_iff hn]
    have hle : (L.take k).countP (fun p => p.2 && leaves p.1) ≤
        (L.take (n - 1)).countP (fun p => p.2 && leaves p.1) :=
      (List.take_sublist_take_left (by omega)).countP_le
    omega

/-- A scan of different entries comes to an entry if it comes to its slot. -/
theorem mem_skipScan_iff (hnodup : (L.map Prod.fst).Nodup) (hk : L[k]? = some p) :
    p.1 ∈ (skipScan leaves n L).map Prod.fst ↔ k < (skipScan leaves n L).length := by
  have htake := skipScan_eq_take leaves n L
  generalize (skipScan leaves n L).length = m at htake ⊢
  rw [htake]
  constructor
  · intro hmem
    obtain ⟨q, hq, hqp⟩ := List.mem_map.1 hmem
    obtain ⟨j, hj⟩ := List.mem_iff_getElem?.1 hq
    rw [List.getElem?_take] at hj
    obtain ⟨hjm, hj⟩ := Option.ite_none_right_eq_some.1 hj
    have hlt : k < (L.map Prod.fst).length := by
      rw [List.length_map]
      exact (List.getElem?_eq_some_iff.1 hk).1
    have hsame : (L.map Prod.fst)[k]? = (L.map Prod.fst)[j]? := by
      rw [List.getElem?_map, List.getElem?_map, hk, hj, Option.map_some, Option.map_some, hqp]
    rwa [(List.getElem?_inj hlt hnodup).1 hsame]
  · intro hkm
    have hin : (L.take m)[k]? = some p := by
      rw [List.getElem?_take, if_pos hkm, hk]
    exact List.mem_map_of_mem (List.mem_of_getElem? hin)

/-- The flagged entries that a scan comes to are served, once each. -/
theorem count_skipScan [DecidableEq α] (hnodup : (L.map Prod.fst).Nodup)
    (hk : L[k]? = some (x, true)) :
    (((skipScan leaves n L).filter (·.2)).map Prod.fst).count x =
      if k < (skipScan leaves n L).length then 1 else 0 := by
  have htake := skipScan_eq_take leaves n L
  have hscan : x ∈ (skipScan leaves n L).map Prod.fst ↔ k < (skipScan leaves n L).length :=
    mem_skipScan_iff hnodup hk
  have hserved : (((skipScan leaves n L).filter (·.2)).map Prod.fst).Nodup := by
    rw [htake]
    exact hnodup.sublist ((List.filter_sublist.trans (List.take_sublist _ L)).map Prod.fst)
  have hmem : x ∈ ((skipScan leaves n L).filter (·.2)).map Prod.fst ↔
      k < (skipScan leaves n L).length := by
    constructor
    · exact fun hx => hscan.1 ((List.filter_sublist.map Prod.fst).subset hx)
    · intro hlt
      have hin : (skipScan leaves n L)[k]? = some (x, true) := by
        rw [htake, List.getElem?_take, if_pos hlt, hk]
      exact List.mem_map_of_mem (List.mem_filter.2 ⟨List.mem_of_getElem? hin, rfl⟩)
  simp only [hserved.count, hmem]

end LinuxNet
