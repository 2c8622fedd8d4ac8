-- SUMMARY: The first occurrence of a list in another one.
import Mathlib.Data.List.Infix

/-! # First occurrences -/

namespace LinuxNet

variable {α : Type*} {needle s before after : List α} {a : α}

/-- `before` and `after` are what is in front of the first occurrence of `needle`
in a list, and behind it. -/
structure FirstAt (needle s before after : List α) : Prop where
  eq : s = before ++ needle ++ after
  first : ∀ before' after', s = before' ++ needle ++ after' → before.length ≤ before'.length

theorem FirstAt.isInfix (h : FirstAt needle s before after) : needle <:+: s :=
  ⟨before, after, h.eq.symm⟩

theorem FirstAt.unique {before' after' : List α} (h : FirstAt needle s before after)
    (h' : FirstAt needle s before' after') : before = before' ∧ after = after' := by
  have hlength : before.length = before'.length :=
    le_antisymm (h.first _ _ h'.eq) (h'.first _ _ h.eq)
  have heq := h.eq.symm.trans h'.eq
  rw [List.append_assoc, List.append_assoc] at heq
  obtain ⟨hbefore, hrest⟩ := List.append_inj heq hlength
  exact ⟨hbefore, List.append_cancel_left hrest⟩

/-- What follows the list does not matter. -/
theorem FirstAt.append (h : FirstAt needle s before after) (t : List α) :
    FirstAt needle (s ++ t) before (after ++ t) where
  eq := by rw [h.eq, List.append_assoc]
  first before' after' heq := by
    by_contra hlt
    have hlength := congrArg List.length h.eq
    simp only [List.length_append] at hlength
    -- an occurrence in front of the first one ends inside the list too
    have hstarts : before' ++ needle <+: s :=
      List.prefix_of_prefix_length_le ⟨after', heq.symm⟩ (List.prefix_append s t)
        (by rw [List.length_append]; omega)
    obtain ⟨after'', rfl⟩ := hstarts
    exact hlt (h.first before' after'' rfl)

theorem FirstAt.cons (h : FirstAt needle s before after) (ha : ¬ needle <+: a :: s) :
    FirstAt needle (a :: s) (a :: before) after where
  eq := congrArg (a :: ·) h.eq
  first before' after' heq := by
    cases before' with
    | nil => exact absurd ⟨after', heq.symm⟩ ha
    | cons b before' =>
      exact Nat.succ_le_succ (h.first before' after' (List.cons.inj heq).2)

variable [DecidableEq α]

/-- What is in front of the first occurrence of `needle`, and behind it. -/
def splitFirst (needle : List α) : List α → Option (List α × List α)
  | [] => if needle = [] then some ([], []) else none
  | a :: s =>
    if needle <+: a :: s then some ([], (a :: s).drop needle.length)
    else (splitFirst needle s).map fun (before, after) => (a :: before, after)

theorem splitFirst_of_isPrefix (h : needle <+: s) :
    splitFirst needle s = some ([], s.drop needle.length) := by
  cases s with
  | nil =>
    obtain rfl := List.prefix_nil.1 h
    rfl
  | cons a s => exact if_pos h

theorem splitFirst_cons (h : ¬ needle <+: a :: s) :
    splitFirst needle (a :: s) =
      (splitFirst needle s).map fun (before, after) => (a :: before, after) := if_neg h

theorem splitFirst_sound (h : splitFirst needle s = some (before, after)) :
    FirstAt needle s before after := by
  induction s generalizing before after with
  | nil =>
    obtain ⟨rfl, h⟩ := Option.ite_none_right_eq_some.1 h
    cases h
    exact ⟨rfl, fun _ _ _ => Nat.zero_le _⟩
  | cons a s ih =>
    by_cases hstarts : needle <+: a :: s
    · rw [splitFirst_of_isPrefix hstarts] at h
      cases h
      exact ⟨(List.prefix_iff_eq_append.1 hstarts).symm, fun _ _ _ => Nat.zero_le _⟩
    · rw [splitFirst_cons hstarts] at h
      obtain ⟨⟨before, after⟩, hsplit, h⟩ := Option.map_eq_some_iff.1 h
      cases h
      exact (ih hsplit).cons hstarts

theorem splitFirst_isSome (h : needle <:+: s) : (splitFirst needle s).isSome = true := by
  induction s with
  | nil =>
    obtain rfl := List.infix_nil.1 h
    rfl
  | cons a s ih =>
    by_cases hstarts : needle <+: a :: s
    · rw [splitFirst_of_isPrefix hstarts]
      rfl
    · rw [splitFirst_cons hstarts, Option.isSome_map]
      exact ih ((List.infix_cons_iff.1 h).resolve_left hstarts)

theorem splitFirst_iff : splitFirst needle s = some (before, after) ↔
    FirstAt needle s before after := by
  refine ⟨splitFirst_sound, fun h => ?_⟩
  obtain ⟨⟨before', after'⟩, hsplit⟩ := Option.isSome_iff_exists.1 (splitFirst_isSome h.isInfix)
  obtain ⟨rfl, rfl⟩ := h.unique (splitFirst_sound hsplit)
  exact hsplit

theorem splitFirst_eq_none : splitFirst needle s = none ↔ ¬ needle <:+: s := by
  cases hsplit : splitFirst needle s with
  | none =>
    refine iff_of_true rfl fun hcontains => ?_
    have hsome := splitFirst_isSome hcontains
    rw [hsplit] at hsome
    cases hsome
  | some parts =>
    obtain ⟨before, after⟩ := parts
    exact iff_of_false (by simp) (not_not_intro (splitFirst_sound hsplit).isInfix)

/-- The first occurrence in a list is the first one in every longer list. -/
theorem FirstAt.of_append {t : List α} (h : FirstAt needle (s ++ t) before after)
    (hcontains : needle <:+: s) :
    ∃ after', FirstAt needle s before after' ∧ after = after' ++ t := by
  obtain ⟨⟨before', after'⟩, hsplit⟩ := Option.isSome_iff_exists.1 (splitFirst_isSome hcontains)
  have hfirst := splitFirst_sound hsplit
  obtain ⟨rfl, rfl⟩ := h.unique (hfirst.append t)
  exact ⟨after', hfirst, rfl⟩

end LinuxNet
