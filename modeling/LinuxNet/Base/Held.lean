-- SUMMARY: The descriptors a program has been given and has not closed, kept along its runs.
import LinuxNet.Base.Transition
import Mathlib.Data.Finset.Basic

/-! # Held descriptors

A program is given descriptors and closes them. Those in between are held, and
what becomes of them depends on whether the program has them in its table. The
held descriptors are no part of the program; they are kept next to its state. -/

namespace LinuxNet

variable {σ ι α : Type*}

/-- What happens to a descriptor. -/
inductive Handover (α : Type*)
  | given (fd : α)
  | closed (fd : α)
  deriving DecidableEq, Repr

variable [DecidableEq α] {held : Finset α} {fd g : α}

/-- The descriptors held after one more event. -/
def Handover.apply (held : Finset α) : Handover α → Finset α
  | .given fd => insert fd held
  | .closed fd => held.erase fd

/-- The descriptors held after a list of events. -/
def heldAfter (held : Finset α) (events : List (Handover α)) : Finset α :=
  events.foldl Handover.apply held

@[simp] theorem heldAfter_nil (held : Finset α) : heldAfter held [] = held := rfl

theorem heldAfter_append (held : Finset α) (l l' : List (Handover α)) :
    heldAfter held (l ++ l') = heldAfter (heldAfter held l) l' :=
  List.foldl_append

@[simp] theorem heldAfter_given (held : Finset α) (l : List (Handover α)) (fd : α) :
    heldAfter held (l ++ [.given fd]) = insert fd (heldAfter held l) :=
  heldAfter_append held l _

@[simp] theorem heldAfter_closed (held : Finset α) (l : List (Handover α)) (fd : α) :
    heldAfter held (l ++ [.closed fd]) = (heldAfter held l).erase fd :=
  heldAfter_append held l _

theorem mem_heldAfter_map_closed {l : List α} :
    g ∈ heldAfter held (l.map .closed) ↔ g ∈ held ∧ g ∉ l := by
  induction l generalizing held with
  | nil => simp
  | cons fd l ih =>
    have hstep : heldAfter held ((fd :: l).map .closed) =
        heldAfter (held.erase fd) (l.map .closed) := rfl
    rw [hstep, ih, Finset.mem_erase, List.mem_cons]
    tauto

/-- Closing a tracked descriptor, and no longer tracking it, loses track of nothing. -/
theorem erase_subset_erase_iff {tracked : Finset α} (h : fd ∈ tracked) :
    held.erase fd ⊆ tracked.erase fd ↔ held ⊆ tracked := by
  constructor
  · intro hsub g hg
    by_cases hne : g = fd
    · exact hne ▸ h
    · exact Finset.mem_of_mem_erase (hsub (Finset.mem_erase.2 ⟨hne, hg⟩))
  · exact Finset.erase_subset_erase fd

/-! ## Runs with the held descriptors -/

/-- A step, and what it makes of the held descriptors. -/
def Holding (step : σ → ι → σ → Prop) (events : σ → List (Handover α))
    (p : σ × Finset α) (l : ι) (q : σ × Finset α) : Prop :=
  step p.1 l q.1 ∧ q.2 = heldAfter p.2 (events q.1)

/-- When a step from a state that tracks all held descriptors leads to such a
state exactly under a condition, the runs through such states are the runs under
the condition. -/
theorem holding_iff (tracked : σ → Finset α) (Kept : σ → ι → Prop)
    {step : σ → ι → σ → Prop} {events : σ → List (Handover α)} {I : σ → Prop}
    (hkeep : ∀ s l t, I s → step s l t → I t)
    (hlaw : ∀ s l t held, I s → step s l t → held ⊆ tracked s →
      (heldAfter held (events t) ⊆ tracked t ↔ Kept s l))
    {s₀ : σ} (hs : I s₀) {ls : List ι} {p : σ × Finset α} :
    Run (fun p l q => Holding step events p l q ∧ q.2 ⊆ tracked q.1) (s₀, ∅) ls p ↔
      Run (fun p l q => Holding step events p l q ∧ Kept p.1 l) (s₀, ∅) ls p := by
  apply Run.iff_of_invariant (I := fun p => I p.1 ∧ p.2 ⊆ tracked p.1)
  · intro p l q hp hstep
    rw [hstep.2]
    exact hlaw p.1 l q.1 p.2 hp.1 hstep.1 hp.2
  · intro p l q hp hstep hsub
    exact ⟨hkeep p.1 l q.1 hp.1 hstep.1, hsub⟩
  · exact ⟨hs, Finset.empty_subset _⟩

end LinuxNet
