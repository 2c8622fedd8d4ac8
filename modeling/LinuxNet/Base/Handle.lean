-- SUMMARY: A resource in the log of a program's calls: released once, and not used afterwards.
import Mathlib.Data.List.Basic
import Mathlib.Data.List.Pairwise

/-! # Releasing a resource

A program's calls are logged. Of each call it is known whether it uses a
resource, as the call that releases it does too. -/

namespace LinuxNet

/-- How the calls of a program show what becomes of a resource. -/
structure Handle (C : Type*) where
  uses : C → Bool
  releases : C → Bool
  uses_of_releases : ∀ c, releases c = true → uses c = true

namespace Handle

variable {C D : Type*} {H : Handle C} {calls before after : List C} {c : C}

/-- The resource is released exactly once, and not used after that. -/
structure ReleasedOnce (H : Handle C) (calls : List C) : Prop where
  once : calls.countP H.releases = 1
  last : calls.Pairwise fun c d => H.releases c = true → H.uses d = false

instance (H : Handle C) (calls : List C) : Decidable (H.ReleasedOnce calls) :=
  decidable_of_iff (calls.countP H.releases = 1 ∧
      calls.Pairwise fun c d => H.releases c = true → H.uses d = false)
    ⟨fun h => ⟨h.1, h.2⟩, fun h => ⟨h.once, h.last⟩⟩

/-- No call releases the resource. -/
def Kept (H : Handle C) (calls : List C) : Prop := ∀ c ∈ calls, H.releases c = false

/-- No call uses the resource. -/
def Unused (H : Handle C) (calls : List C) : Prop := ∀ c ∈ calls, H.uses c = false

theorem Unused.kept (h : H.Unused calls) : H.Kept calls := fun c hc =>
  Bool.eq_false_iff.2 fun hreleases =>
    Bool.eq_false_iff.1 (h c hc) (H.uses_of_releases c hreleases)

theorem Kept.nil : H.Kept [] := fun _ hc => absurd hc List.not_mem_nil

theorem Unused.nil : H.Unused [] := fun _ hc => absurd hc List.not_mem_nil

theorem Kept.append (h : H.Kept before) (h' : H.Kept after) : H.Kept (before ++ after) :=
  fun c hc => (List.mem_append.1 hc).elim (h c) (h' c)

theorem Kept.countP (h : H.Kept calls) : calls.countP H.releases = 0 :=
  List.countP_eq_zero.2 fun c hc => Bool.eq_false_iff.1 (h c hc)

/-- A resource that no call releases has not been released. -/
theorem Kept.not_releasedOnce (h : H.Kept calls) : ¬ H.ReleasedOnce calls := fun hreleased => by
  have hcount := hreleased.once
  rw [h.countP] at hcount
  cases hcount

/-- A release with calls before it that keep the resource, and calls after it that
leave it alone. -/
theorem Kept.releasedOnce (h : H.Kept before) (hc : H.releases c = true)
    (hafter : H.Unused after) : H.ReleasedOnce (before ++ c :: after) where
  once := by
    rw [List.countP_append, List.countP_cons_of_pos hc, h.countP, hafter.kept.countP]
  last := by
    refine List.pairwise_append.2 ⟨?_, List.pairwise_cons.2 ⟨fun d hd _ => hafter d hd, ?_⟩, ?_⟩
    · exact List.pairwise_of_forall_mem_list fun d hd _ _ hreleases =>
        absurd hreleases (Bool.eq_false_iff.1 (h d hd))
    · exact List.pairwise_of_forall_mem_list fun d hd _ _ hreleases =>
        absurd hreleases (Bool.eq_false_iff.1 (hafter.kept d hd))
    · exact fun d hd _ _ hreleases => absurd hreleases (Bool.eq_false_iff.1 (h d hd))

end Handle

end LinuxNet
