-- SUMMARY: Resources that are granted, used under a name and given back, and sums over their holders.
import Mathlib.Algebra.BigOperators.Group.Finset.Basic
import Mathlib.Data.Multiset.Count
import Mathlib.Data.Multiset.UnionInter

/-! # Leases

A resource is granted at most once and given back at most once. While it is
live its name, a descriptor or an address, belongs to no other live resource;
afterwards the name may be granted again. -/

namespace LinuxNet

variable {α ν : Type*}

/-- The resources granted so far, those live, and those given back. -/
structure Lease (α : Type*) where
  granted : Multiset α
  live : Multiset α
  ended : Multiset α

namespace Lease

/-- What grants and returns keep, for resources with names. -/
structure Valid (name : α → ν) (L : Lease α) : Prop where
  balance : L.granted = L.live + L.ended
  nodup : L.granted.Nodup
  names : (L.live.map name).Nodup

variable {name : α → ν} {L : Lease α} {a b : α}

theorem Valid.ended_nodup (h : L.Valid name) : L.ended.Nodup :=
  Multiset.nodup_of_le (h.balance ▸ Multiset.le_add_left _ _) h.nodup

theorem Valid.not_live (h : L.Valid name) (ha : a ∈ L.ended) : a ∉ L.live := fun hlive => by
  have hnodup := h.nodup
  rw [h.balance, Multiset.nodup_add] at hnodup
  exact Multiset.disjoint_left.1 hnodup.2.2 hlive ha

theorem Valid.eq_of_name (h : L.Valid name) (ha : a ∈ L.live) (hb : b ∈ L.live)
    (hname : name a = name b) : a = b :=
  Multiset.inj_on_of_nodup_map h.names a ha b hb hname

/-! ## Granting and giving back -/

def empty : Lease α := ⟨0, 0, 0⟩

theorem valid_empty : (empty : Lease α).Valid name :=
  ⟨rfl, Multiset.nodup_zero, Multiset.nodup_zero⟩

def grant (a : α) (L : Lease α) : Lease α :=
  { L with granted := a ::ₘ L.granted, live := a ::ₘ L.live }

/-- A fresh resource is granted under a name that is not in use. -/
theorem Valid.grant (h : L.Valid name) (ha : a ∉ L.granted) (hname : name a ∉ L.live.map name) :
    (L.grant a).Valid name where
  balance := by
    rw [Lease.grant, h.balance, Multiset.cons_add]
  nodup := Multiset.nodup_cons.2 ⟨ha, h.nodup⟩
  names := by
    rw [Lease.grant, Multiset.map_cons]
    exact Multiset.nodup_cons.2 ⟨hname, h.names⟩

variable [DecidableEq α]

def giveBack (a : α) (L : Lease α) : Lease α :=
  { L with live := L.live.erase a, ended := a ::ₘ L.ended }

/-- A live resource is given back. -/
theorem Valid.giveBack (h : L.Valid name) (ha : a ∈ L.live) : (L.giveBack a).Valid name where
  balance := by
    rw [Lease.giveBack, h.balance, Multiset.add_cons, ← Multiset.cons_add, Multiset.cons_erase ha]
  nodup := h.nodup
  names := Multiset.nodup_of_le (Multiset.map_le_map (Multiset.erase_le a L.live)) h.names

/-- Giving a resource back leaves the other live ones, under other names. -/
theorem Valid.name_ne (h : L.Valid name) (ha : a ∈ L.live) (hb : b ∈ (L.giveBack a).live) :
    b ∈ L.live ∧ name b ≠ name a := by
  have hnodup : L.live.Nodup := Multiset.Nodup.of_map name h.names
  obtain ⟨hne, hlive⟩ := (Multiset.Nodup.mem_erase_iff hnodup).1 hb
  exact ⟨hlive, fun hname => hne (h.eq_of_name hlive ha hname)⟩

/-- A granted resource is live or has been given back, one of them and once. -/
theorem Valid.count_add (h : L.Valid name) (a : α) :
    L.live.count a + L.ended.count a = if a ∈ L.granted then 1 else 0 := by
  rw [← Multiset.count_add, ← h.balance]
  split
  · exact Multiset.count_eq_one_of_mem h.nodup ‹_›
  · exact Multiset.count_eq_zero.2 ‹_›

end Lease

/-- When one holder changes, what all of them hold changes by what it holds. -/
theorem sum_update {ι β M : Type*} [Fintype ι] [DecidableEq ι] [AddCommMonoid M] (f : β → M)
    (g : ι → β) (i : ι) (x : β) :
    ∑ j, f (Function.update g i x j) + f (g i) = ∑ j, f (g j) + f x := by
  have hrest : ∑ j ∈ Finset.univ.erase i, f (Function.update g i x j) =
      ∑ j ∈ Finset.univ.erase i, f (g j) :=
    Finset.sum_congr rfl fun j hj => by rw [Function.update_of_ne (Finset.ne_of_mem_erase hj)]
  rw [← Finset.add_sum_erase _ _ (Finset.mem_univ i), hrest,
    ← Finset.add_sum_erase _ (fun j => f (g j)) (Finset.mem_univ i), Function.update_self,
    add_comm (f x), add_comm (f (g i)), add_right_comm]

end LinuxNet
