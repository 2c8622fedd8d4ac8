-- SUMMARY: Arrays that are stored into without being cleared, and how much of them can be read without seeing what they held before.
import LinuxNet.Base.Transfer

/-! # Stale memory

A program stores bytes at the start of an array and reads the array from its
start. Two runs that differ in what the array held before read the same exactly
if the read ends where the store does, or earlier. -/

namespace LinuxNet

/-- An array after bytes have been stored at its start, those of them for which
it has room. -/
def overlay {size : Nat} (stale : Vector UInt8 size) (bytes : List UInt8) : List UInt8 :=
  (storeAt stale.toList 0 bytes).take size

/-- A result that does not depend on what an array held before. -/
def StaleFree {R : Type*} (size : Nat) (run : Vector UInt8 size → R) : Prop :=
  ∀ stale stale', run stale = run stale'

variable {size n i : Nat} {stale : Vector UInt8 size} {bytes : List UInt8} {R S : Type*}

theorem overlay_eq (stale : Vector UInt8 size) (bytes : List UInt8) :
    overlay stale bytes = (bytes ++ stale.toList.drop bytes.length).take size := by
  rw [overlay, storeAt_zero]

@[simp] theorem overlay_length (stale : Vector UInt8 size) (bytes : List UInt8) :
    (overlay stale bytes).length = size := by
  rw [overlay_eq, List.length_take, List.length_append, List.length_drop, Vector.length_toList]
  omega

/-- Bytes that fit are followed by what the array held before. -/
theorem overlay_of_le (h : bytes.length ≤ size) :
    overlay stale bytes = bytes ++ stale.toList.drop bytes.length := by
  rw [overlay_eq, List.take_of_length_le]
  rw [List.length_append, List.length_drop, Vector.length_toList]
  omega

theorem take_overlay_of_le (hn : n ≤ size) (h : n ≤ bytes.length) :
    (overlay stale bytes).take n = bytes.take n := by
  rw [overlay_eq, List.take_take, Nat.min_eq_left hn, List.take_append_of_le_length h]

/-- Behind the bytes that are stored, the array is as before. -/
theorem overlay_getElem? (h : bytes.length ≤ i) (hi : i < size) :
    (overlay stale bytes)[i]? = some stale[i] := by
  rw [overlay_of_le (h.trans hi.le), List.getElem?_append_right h, List.getElem?_drop,
    Nat.add_sub_cancel' h]
  simp [hi]

/-- An injective function of a result shows all of it. -/
theorem StaleFree.comp_iff {run : Vector UInt8 size → R} {f : R → S} (hf : f.Injective) :
    StaleFree size (fun stale => f (run stale)) ↔ StaleFree size run :=
  forall₂_congr fun _ _ => hf.eq_iff

/-- The first bytes of the array do not show what it held before exactly if they
are all among those stored. -/
theorem staleFree_take_overlay_iff (hn : n ≤ size) :
    StaleFree size (fun stale => (overlay stale bytes).take n) ↔ n ≤ bytes.length := by
  constructor
  · intro hfree
    by_contra hlt
    rw [not_le] at hlt
    have hi : bytes.length < size := hlt.trans_le hn
    have hread (stale : Vector UInt8 size) :
        ((overlay stale bytes).take n)[bytes.length]? = some stale[bytes.length] := by
      rw [List.getElem?_take_of_lt hlt, overlay_getElem? le_rfl hi]
    -- two memories that differ right behind the store
    have hsame := congrArg (fun read => read[bytes.length]?)
      (hfree (Vector.replicate size 0) (Vector.replicate size 1))
    dsimp only at hsame
    rw [hread, hread] at hsame
    simp at hsame
  · intro hle stale stale'
    dsimp only
    rw [take_overlay_of_le hn hle, take_overlay_of_le hn hle]

end LinuxNet
