-- SUMMARY: The orders in which the entries of a hash map can be gone through.
import Mathlib.Data.List.Nodup
import Mathlib.Logic.Function.Basic

/-! # Iteration orders

A loop over a hash map goes through its entries in some order. -/

namespace LinuxNet

variable {K V : Type}

/-- `order` goes through the entries of the map, once through each. -/
structure Enumerates (order : List (K × V)) (map : K → Option V) : Prop where
  nodup : (order.map Prod.fst).Nodup
  mem_iff : ∀ key val, (key, val) ∈ order ↔ map key = some val

namespace Enumerates

variable {order order' : List (K × V)} {map : K → Option V} {key : K} {val : V}

theorem empty : Enumerates [] (fun _ : K => (none : Option V)) :=
  ⟨List.nodup_nil, fun key val => iff_of_false List.not_mem_nil (by simp)⟩

theorem perm (h : Enumerates order map) (hperm : order.Perm order') : Enumerates order' map where
  nodup := ((hperm.map Prod.fst).nodup_iff).1 h.nodup
  mem_iff := fun key val => hperm.mem_iff.symm.trans (h.mem_iff key val)

/-- A key that the map does not have. -/
theorem not_mem (h : Enumerates order map) (hkey : map key = none) : key ∉ order.map Prod.fst := by
  intro hmem
  obtain ⟨⟨k, v⟩, hentry, rfl⟩ := List.mem_map.1 hmem
  have hsome := (h.mem_iff k v).1 hentry
  rw [hkey] at hsome
  cases hsome

theorem lookup [BEq K] [LawfulBEq K] (h : Enumerates order map) (key : K) :
    order.lookup key = map key := by
  cases hval : order.lookup key with
  | some val =>
    obtain ⟨before, after, rfl, -⟩ := List.lookup_eq_some_iff.1 hval
    exact ((h.mem_iff key val).1 (by simp)).symm
  | none =>
    cases hmap : map key with
    | none => rfl
    | some val =>
      have hmem := (h.mem_iff key val).2 hmap
      simpa using List.lookup_eq_none_iff.1 hval _ hmem

variable [DecidableEq K]

/-- An entry for a new key. -/
theorem concat (h : Enumerates order map) (hkey : map key = none) (val : V) :
    Enumerates (order ++ [(key, val)]) (Function.update map key (some val)) where
  nodup := by
    rw [List.map_append, List.map_singleton, ← List.concat_eq_append]
    exact h.nodup.concat (h.not_mem hkey)
  mem_iff := fun k v => by
    rw [List.mem_append, List.mem_singleton, Prod.mk.injEq, h.mem_iff]
    by_cases hk : k = key
    · rw [hk, hkey, Function.update_self]
      simp [eq_comm]
    · rw [Function.update_of_ne hk]
      simp [hk]

/-- Without the entry of a key. -/
theorem filter (h : Enumerates order map) (key : K) :
    Enumerates (order.filter (·.1 ≠ key)) (Function.update map key none) where
  nodup := h.nodup.sublist (List.filter_sublist.map Prod.fst)
  mem_iff := fun k v => by
    rw [List.mem_filter, h.mem_iff]
    by_cases hk : k = key
    · rw [hk, Function.update_self]
      simp
    · rw [Function.update_of_ne hk]
      simp [hk]

/-- `map[key] = val`. -/
theorem set (h : Enumerates order map) (key : K) (val : V) :
    Enumerates (order.filter (·.1 ≠ key) ++ [(key, val)])
      (Function.update map key (some val)) := by
  have hset := (h.filter key).concat (Function.update_self key none map) val
  rwa [Function.update_idem] at hset

end Enumerates

end LinuxNet
