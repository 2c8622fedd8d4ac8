-- SUMMARY: Simp lemmas that run `Except` programs step by step, and while loops with fuel: what more fuel changes, the invariant rule, and termination by a measure.
import Mathlib.Init

/-! # Programs and loops -/

namespace LinuxNet

/-! ## Running `Except` programs -/

section Except

variable {ε ε' α β : Type}

@[simp] theorem Except.bind_ok (a : α) (f : α → Except ε β) : (.ok a >>= f) = f a := rfl

@[simp] theorem Except.bind_error (e : ε) (f : α → Except ε β) :
    (.error e >>= f) = .error e := rfl

theorem Except.bind_eq_ok {x : Except ε α} {f : α → Except ε β} {b : β} :
    (x >>= f) = .ok b ↔ ∃ a, x = .ok a ∧ f a = .ok b := by
  cases x <;> simp

theorem Except.map_eq_ok {x : Except ε α} {f : α → β} {b : β} :
    x.map f = .ok b ↔ ∃ a, x = .ok a ∧ f a = b := by
  cases x <;> simp [Except.map]

@[simp] theorem Except.pure_eq (a : α) : (pure a : Except ε α) = .ok a := rfl

@[simp] theorem Except.throw_eq (e : ε) : (throw e : Except ε α) = .error e := rfl

@[simp] theorem Except.mapError_ok (f : ε → ε') (a : α) :
    (Except.ok a).mapError f = .ok a := rfl

@[simp] theorem Except.mapError_error (f : ε → ε') (e : ε) :
    (Except.error e : Except ε α).mapError f = .error (f e) := rfl

end Except

/-! ## Loops

A body takes a state to another state or to the result of the loop. -/

variable {σ ρ : Type*}

/-- Run a body until it gives a result, `none` without enough fuel. -/
def loop (body : σ → σ ⊕ ρ) : Nat → σ → Option ρ
  | 0, _ => none
  | fuel + 1, s =>
    match body s with
    | .inl s' => loop body fuel s'
    | .inr r => some r

variable {body : σ → σ ⊕ ρ} {fuel fuel' : Nat} {s s' : σ} {r : ρ}

theorem loop_inl (h : body s = .inl s') : loop body (fuel + 1) s = loop body fuel s' := by
  rw [loop, h]

theorem loop_inr (h : body s = .inr r) : loop body (fuel + 1) s = some r := by
  rw [loop, h]

/-- More fuel does not change a result. -/
theorem loop_mono (h : loop body fuel s = some r) (hle : fuel ≤ fuel') :
    loop body fuel' s = some r := by
  induction fuel generalizing fuel' s with
  | zero => cases h
  | succ fuel ih =>
    obtain ⟨n, rfl⟩ : ∃ n, fuel' = n + 1 := ⟨fuel' - 1, by omega⟩
    cases hbody : body s with
    | inl s' =>
      rw [loop_inl hbody] at h ⊢
      exact ih h (by omega)
    | inr r' =>
      rw [loop_inr hbody] at h ⊢
      exact h

/-- What the body keeps holds when it gives the result. -/
theorem loop_rule {I : σ → Prop} {Q : ρ → Prop} (hkeep : ∀ s s', I s → body s = .inl s' → I s')
    (hend : ∀ s r, I s → body s = .inr r → Q r) (hs : I s) (h : loop body fuel s = some r) :
    Q r := by
  induction fuel generalizing s with
  | zero => cases h
  | succ fuel ih =>
    cases hbody : body s with
    | inl s' =>
      rw [loop_inl hbody] at h
      exact ih (hkeep s s' hs hbody) h
    | inr r' =>
      rw [loop_inr hbody] at h
      cases h
      exact hend s r hs hbody

/-- A loop ends if its body decreases a measure, as long as it keeps an invariant. -/
theorem loop_ends {I : σ → Prop} {m : σ → Nat}
    (hstep : ∀ s s', I s → body s = .inl s' → I s' ∧ m s' < m s) (hs : I s)
    (hfuel : m s < fuel) : ∃ r, loop body fuel s = some r := by
  induction fuel generalizing s with
  | zero => omega
  | succ fuel ih =>
    cases hbody : body s with
    | inl s' =>
      obtain ⟨hs', hlt⟩ := hstep s s' hs hbody
      rw [loop_inl hbody]
      exact ih hs' (by omega)
    | inr r => exact ⟨r, loop_inr hbody⟩

end LinuxNet
