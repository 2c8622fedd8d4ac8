-- SUMMARY: Erasing the last element of a list that satisfies a predicate.
import Mathlib.Data.List.Nodup
import Mathlib.Data.Multiset.AddSub

/-! # Erasing from the end -/

namespace LinuxNet

variable {α κ : Type*}

/-- `l` without its last element that satisfies `p`, if it has one. -/
def eraseLast (p : α → Bool) (l : List α) : List α := (l.reverse.eraseP p).reverse

/-- A list with an element that satisfies `p` splits at the last one. -/
theorem exists_last_split {p : α → Bool} {l : List α} (h : ∃ x ∈ l, p x) :
    ∃ A x B, l = A ++ x :: B ∧ p x ∧ ∀ y ∈ B, ¬ p y := by
  induction l with
  | nil => simp at h
  | cons a l ih =>
    by_cases hl : ∃ x ∈ l, p x
    · obtain ⟨A, x, B, rfl, hx, hB⟩ := ih hl
      exact ⟨a :: A, x, B, rfl, hx, hB⟩
    · obtain ⟨x, hx, hpx⟩ := h
      have hxa : x = a := (List.mem_cons.1 hx).resolve_right fun hxl => hl ⟨x, hxl, hpx⟩
      exact ⟨[], a, l, rfl, hxa ▸ hpx, fun y hy hpy => hl ⟨y, hy, hpy⟩⟩

theorem eraseLast_split {p : α → Bool} {A B : List α} {x : α} (hx : p x)
    (hB : ∀ y ∈ B, ¬ p y) : eraseLast p (A ++ x :: B) = A ++ B := by
  have hrev : (A ++ x :: B).reverse = B.reverse ++ x :: A.reverse := by simp
  have herase : (B.reverse ++ x :: A.reverse).eraseP p = B.reverse ++ A.reverse := by
    rw [List.eraseP_append_right _ (fun y hy => hB y (List.mem_reverse.1 hy)),
      List.eraseP_cons_of_pos hx]
  rw [eraseLast, hrev, herase]
  simp

theorem eraseLast_of_forall_not {p : α → Bool} {l : List α} (h : ∀ x ∈ l, ¬ p x) :
    eraseLast p l = l := by
  rw [eraseLast, List.eraseP_of_forall_not (fun x hx => h x (List.mem_reverse.1 hx)),
    List.reverse_reverse]

theorem eraseLast_subset {p : α → Bool} {l : List α} : eraseLast p l ⊆ l := by
  intro x hx
  exact List.mem_reverse.1 (List.eraseP_subset (List.mem_reverse.1 hx))

section Key

variable [DecidableEq κ] {f : α → κ} {k : κ} {l : List α}

/-- Erasing the last element with key `k` takes one `k` from the keys. -/
theorem eraseLast_keys (hk : k ∈ l.map f) :
    ((eraseLast (fun x => f x = k) l).map f : Multiset κ) = (l.map f : Multiset κ).erase k := by
  obtain ⟨x, hx, hxk⟩ := List.mem_map.1 hk
  obtain ⟨A, y, B, rfl, hy, hB⟩ :=
    exists_last_split (p := fun x => f x = k) ⟨x, hx, by simpa using hxk⟩
  have hy' : f y = k := by simpa using hy
  rw [eraseLast_split (p := fun x => f x = k) hy hB, List.map_append, List.map_append,
    List.map_cons, hy']
  rw [← Multiset.coe_add, ← Multiset.coe_add, ← Multiset.cons_coe, Multiset.add_cons,
    Multiset.erase_cons_head]

theorem eraseLast_eq_filter (hn : (l.map f).Nodup) :
    eraseLast (fun x => f x = k) l = l.filter fun x => f x ≠ k := by
  by_cases hk : ∃ x ∈ l, decide (f x = k)
  · obtain ⟨A, y, B, rfl, hy, hB⟩ := exists_last_split (p := fun x => f x = k) hk
    have hy' : f y = k := by simpa using hy
    rw [eraseLast_split (p := fun x => f x = k) hy hB, List.filter_append,
      List.filter_cons_of_neg (by simpa using hy')]
    have hA : ∀ x ∈ A, f x ≠ k := by
      intro x hx hxk
      rw [List.map_append, List.nodup_append] at hn
      exact hn.2.2 (f x) (List.mem_map_of_mem hx) (f y) (by simp) (hxk.trans hy'.symm)
    rw [List.filter_eq_self.2 (by simpa using hA), List.filter_eq_self.2 (by simpa using hB)]
  · have hno : ∀ x ∈ l, ¬ decide (f x = k) = true := fun x hx hxk => hk ⟨x, hx, hxk⟩
    rw [eraseLast_of_forall_not hno, List.filter_eq_self.2 (by simpa using hno)]

/-- Erasing by key goes through a filter on keys. -/
theorem filter_eraseLast (sel : κ → Bool) :
    (eraseLast (fun x => f x = k) l).filter (fun x => sel (f x)) =
      eraseLast (fun x => f x = k) (l.filter fun x => sel (f x)) := by
  cases hsel : sel k with
  | true =>
    have hpred : (fun x => decide (f x = k) && sel (f x)) = fun x => decide (f x = k) := by
      funext x
      by_cases hx : f x = k <;> simp [hx, hsel]
    rw [eraseLast, eraseLast, ← List.filter_reverse, List.eraseP_filter, hpred, List.filter_reverse]
  | false =>
    rw [eraseLast_of_forall_not (l := l.filter _)]
    · by_cases hk : ∃ x ∈ l, decide (f x = k)
      · obtain ⟨A, y, B, rfl, hy, hB⟩ := exists_last_split (p := fun x => f x = k) hk
        have hdrop : sel (f y) = false := by simpa [of_decide_eq_true hy] using hsel
        rw [eraseLast_split (p := fun x => f x = k) hy hB]
        simp [hdrop]
      · rw [eraseLast_of_forall_not fun x hx hxk => hk ⟨x, hx, hxk⟩]
    · intro x hx hxk
      have hkept := (List.mem_filter.1 hx).2
      rw [of_decide_eq_true hxk, hsel] at hkept
      cases hkept

end Key

end LinuxNet
