-- SUMMARY: Arrays of slots in which 0 marks a free one.
import Mathlib.Algebra.Notation.Defs
import Mathlib.Data.List.Perm.Basic

/-! # Slot tables

An array of fixed size holds values in no particular order. A value is put in
the first free slot, and taken out of the first slot that holds it. -/

namespace LinuxNet

variable {α : Type*}

/-! ## Replacing a value in a list -/

theorem replace_self [DecidableEq α] (l : List α) (x : α) : l.replace x x = l := by
  induction l with
  | nil => rfl
  | cons y l ih =>
    rw [List.replace_cons]
    cases hy : x == y with
    | true => rw [eq_of_beq hy]
    | false => rw [ih]

theorem replace_perm [DecidableEq α] {x : α} {l : List α} {y : α} (h : x ∈ l) :
    (l.replace x y).Perm (y :: l.erase x) := by
  induction l with
  | nil => cases h
  | cons z l ih =>
    rw [List.replace_cons]
    cases hz : x == z with
    | true =>
      obtain rfl := eq_of_beq hz
      rw [List.erase_cons_head]
    | false =>
      have hne : x ≠ z := ne_of_beq_false hz
      have hmem : x ∈ l := (List.mem_cons.1 h).resolve_left hne
      rw [List.erase_cons_tail (by simpa using hne.symm)]
      exact ((ih hmem).cons z).trans (List.Perm.swap y z _)

/-! ## Slots -/

/-- An array of `n` slots. A slot that holds 0 is free. -/
structure Slots (α : Type*) [Zero α] (n : Nat) where
  entries : List α
  length_eq : entries.length = n

namespace Slots

variable [Zero α] [DecidableEq α] {n : Nat} {t : Slots α n} {x : α}

instance : DecidableEq (Slots α n) := fun t t' =>
  decidable_of_iff (t.entries = t'.entries) (by cases t; cases t'; simp)

def empty (α : Type*) [Zero α] (n : Nat) : Slots α n :=
  ⟨List.replicate n 0, List.length_replicate⟩

/-- Puts `x` in the first free slot, if there is one. -/
def put (x : α) (t : Slots α n) : Slots α n :=
  ⟨t.entries.replace 0 x, by rw [List.length_replace, t.length_eq]⟩

/-- Frees the first slot that holds `x`. -/
def take (x : α) (t : Slots α n) : Slots α n :=
  ⟨t.entries.replace x 0, by rw [List.length_replace, t.length_eq]⟩

/-- The values in the slots that are not free. -/
def used (t : Slots α n) : List α := t.entries.filter (· ≠ 0)

/-- The number of free slots. -/
def room (t : Slots α n) : Nat := t.entries.count 0

@[simp] theorem used_empty : (empty α n).used = [] := by
  simp [used, empty]

theorem room_empty : (empty α n).room = n := by
  simp [room, empty]

theorem ne_zero_of_mem_used (h : x ∈ t.used) : x ≠ 0 := by
  simpa using (List.mem_filter.1 h).2

theorem zero_mem_iff : 0 ∈ t.entries ↔ 0 < t.room :=
  List.count_pos_iff.symm

/-- Every slot is free or used. -/
theorem room_add_length_used (t : Slots α n) : t.room + t.used.length = n := by
  have hroom : t.room = t.entries.countP fun y => y = 0 :=
    List.countP_congr fun y _ => by simp
  have hused : t.used.length = t.entries.countP fun y => decide ¬ decide (y = 0) = true := by
    rw [used, ← List.countP_eq_length_filter]
    exact List.countP_congr fun y _ => by simp
  rw [hroom, hused, ← List.length_eq_countP_add_countP, t.length_eq]

/-! ## Putting in and taking out -/

theorem put_zero (t : Slots α n) : t.put 0 = t := by
  simp [put, replace_self]

theorem used_put (h : 0 < t.room) (hx : x ≠ 0) : (t.put x).used.Perm (x :: t.used) := by
  have hperm := (replace_perm (y := x) (zero_mem_iff.2 h)).filter (· ≠ 0)
  have hused : (t.entries.erase 0).filter (· ≠ 0) = t.used := by
    rw [← List.erase_filter]
    exact List.erase_of_not_mem fun hmem => ne_zero_of_mem_used hmem rfl
  rwa [List.filter_cons_of_pos (by simpa using hx), hused] at hperm

theorem used_take (t : Slots α n) (x : α) : (t.take x).used.Perm (t.used.erase x) := by
  by_cases hx : x ∈ t.entries
  · have hperm := (replace_perm (y := 0) hx).filter (· ≠ 0)
    rwa [List.filter_cons_of_neg (by simp), ← List.erase_filter] at hperm
  · have hused : x ∉ t.used := fun hmem => hx (List.mem_filter.1 hmem).1
    rw [List.erase_of_not_mem hused]
    simp [used, take, List.replace_of_not_mem hx]

theorem mem_used_put (h : 0 < t.room) (hx : x ≠ 0) {y : α} :
    y ∈ (t.put x).used ↔ y = x ∨ y ∈ t.used := by
  rw [(used_put h hx).mem_iff, List.mem_cons]

theorem mem_used_take (hnodup : t.used.Nodup) {y : α} :
    y ∈ (t.take x).used ↔ y ≠ x ∧ y ∈ t.used := by
  rw [(used_take t x).mem_iff, hnodup.mem_erase_iff]

theorem nodup_put (h : 0 < t.room) (hnodup : t.used.Nodup) (hx : x ∉ t.used) :
    (t.put x).used.Nodup := by
  by_cases h0 : x = 0
  · rwa [h0, put_zero]
  · exact (used_put h h0).nodup_iff.2 (List.nodup_cons.2 ⟨hx, hnodup⟩)

theorem nodup_take (hnodup : t.used.Nodup) (x : α) : (t.take x).used.Nodup :=
  (used_take t x).nodup_iff.2 (hnodup.erase x)

/-! ## The number of free slots -/

theorem room_put (h : 0 < t.room) (hx : x ≠ 0) : (t.put x).room + 1 = t.room := by
  have hbefore := t.room_add_length_used
  have hafter := (t.put x).room_add_length_used
  rw [(used_put h hx).length_eq, List.length_cons] at hafter
  omega

theorem room_take (hx : x ∈ t.used) : (t.take x).room = t.room + 1 := by
  have hbefore := t.room_add_length_used
  have hafter := (t.take x).room_add_length_used
  have hpos := List.length_pos_of_mem hx
  rw [(used_take t x).length_eq, List.length_erase_of_mem hx] at hafter
  omega

theorem room_take_of_notMem (hx : x ∉ t.used) : (t.take x).room = t.room := by
  have hbefore := t.room_add_length_used
  have hafter := (t.take x).room_add_length_used
  rw [(used_take t x).length_eq, List.erase_of_not_mem hx] at hafter
  omega

end Slots

end LinuxNet
