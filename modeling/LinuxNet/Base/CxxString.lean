-- SUMMARY: find_first_of, find_last_of and substr of std::string, with positions of type size_t.
import Mathlib.Algebra.Group.Nat.Defs
import Mathlib.Data.List.Infix

/-! # std::string

Positions are below 2^64, and so is the length of every string. -/

namespace LinuxNet.CxxString

variable {α : Type*} [DecidableEq α] {c : α} {s t : List α} {n : Nat}

/-- `std::string::npos`. -/
def npos : Nat := 2 ^ 64 - 1

/-- The difference of two values of type `size_t`. -/
def sizeSub (a b : Nat) : Nat := (a + 2 ^ 64 - b) % 2 ^ 64

/-- `s.find_first_of(c)` -/
def findFirstOf (c : α) (s : List α) : Nat := (s.findIdx? (· = c)).getD npos

/-- `s.find_last_of(c)` -/
def findLastOf (c : α) (s : List α) : Nat :=
  ((s.reverse.findIdx? (· = c)).map fun k => s.length - 1 - k).getD npos

/-- `s.substr(pos, count)`, which throws for a position behind the end. -/
def substr (s : List α) (pos count : Nat) : Option (List α) :=
  if pos ≤ s.length then some ((s.drop pos).take count) else none

theorem sizeSub_of_le {a b : Nat} (h : b ≤ a) (ha : a < 2 ^ 64) : sizeSub a b = a - b := by
  unfold sizeSub
  omega

theorem findIdx?_split (h : c ∉ s) (t : List α) :
    (s ++ c :: t).findIdx? (· = c) = some s.length := by
  induction s with
  | nil => rw [List.nil_append, List.findIdx?_cons, decide_eq_true rfl, if_pos rfl, List.length_nil]
  | cons b s ih =>
    obtain ⟨hb, hs⟩ := not_or.1 (mt List.mem_cons.2 h)
    rw [List.cons_append, List.findIdx?_cons, ih hs]
    simp [Ne.symm hb]

theorem findFirstOf_split (h : c ∉ s) (t : List α) : findFirstOf c (s ++ c :: t) = s.length := by
  rw [findFirstOf, findIdx?_split h]
  rfl

theorem findLastOf_split (h : c ∉ t) (s : List α) : findLastOf c (s ++ c :: t) = s.length := by
  have hreverse : (s ++ c :: t).reverse = t.reverse ++ c :: s.reverse := by simp
  rw [findLastOf, hreverse, findIdx?_split (by simpa using h)]
  simp only [Option.map_some, Option.getD_some, List.length_append, List.length_cons,
    List.length_reverse]
  omega

end LinuxNet.CxxString
