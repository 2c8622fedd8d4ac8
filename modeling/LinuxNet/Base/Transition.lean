-- SUMMARY: Labelled transition systems: runs, reachable states, the invariant rule and forward simulation.
import Mathlib.Data.List.Induction

/-! # Transition systems

A program that answers calls, or a set of threads that take turns, is a step
relation `step s l t`: from state `s` the step labelled `l` leads to `t`. A
label holds what the environment decides. -/

namespace LinuxNet

variable {σ τ ι κ : Type*}

/-- The steps labelled `ls`, in order, lead from one state to another. -/
inductive Run (step : σ → ι → σ → Prop) : σ → List ι → σ → Prop
  | nil {s} : Run step s [] s
  | snoc {s t u ls l} : Run step s ls t → step t l u → Run step s (ls ++ [l]) u

/-- The states some run from an initial state ends in. -/
def Reachable (init : σ → Prop) (step : σ → ι → σ → Prop) (s : σ) : Prop :=
  ∃ s₀ ls, init s₀ ∧ Run step s₀ ls s

namespace Run

variable {step : σ → ι → σ → Prop} {s t u : σ} {ls ls' : List ι} {l : ι}

theorem single (h : step s l t) : Run step s [l] t :=
  .snoc .nil h

theorem trans (h : Run step s ls t) (h' : Run step t ls' u) : Run step s (ls ++ ls') u := by
  induction h' with
  | nil => simpa using h
  | snoc _ hstep ih =>
    rw [← List.append_assoc]
    exact .snoc ih hstep

theorem cons (h : step s l t) (h' : Run step t ls u) : Run step s (l :: ls) u :=
  (single h).trans h'

theorem nil_iff : Run step s [] t ↔ s = t := by
  constructor
  · intro h
    generalize hls : ([] : List ι) = ls at h
    cases h with
    | nil => rfl
    | snoc _ _ => simp at hls
  · rintro rfl
    exact .nil

theorem concat_iff : Run step s (ls ++ [l]) u ↔ ∃ t, Run step s ls t ∧ step t l u := by
  constructor
  · intro h
    generalize hls : ls ++ [l] = ls' at h
    cases h with
    | nil => simp at hls
    | snoc hrun hstep =>
      obtain ⟨rfl, hl⟩ := List.append_inj' hls rfl
      obtain rfl := List.singleton_inj.1 hl
      exact ⟨_, hrun, hstep⟩
  · rintro ⟨t, hrun, hstep⟩
    exact .snoc hrun hstep

theorem append_iff : Run step s (ls ++ ls') u ↔ ∃ t, Run step s ls t ∧ Run step t ls' u := by
  constructor
  · intro h
    induction ls' using List.reverseRecOn generalizing u with
    | nil => exact ⟨u, by simpa using h, .nil⟩
    | append_singleton ls' l ih =>
      rw [← List.append_assoc, concat_iff] at h
      obtain ⟨v, hrun, hlast⟩ := h
      obtain ⟨t, hfirst, hrest⟩ := ih hrun
      exact ⟨t, hfirst, .snoc hrest hlast⟩
  · rintro ⟨t, hfirst, hrest⟩
    exact hfirst.trans hrest

/-- A call in a run is a step from where the calls before it lead to. -/
theorem of_prefix (h : Run step s ls u) (hl : ls' ++ [l] <+: ls) :
    ∃ t v, Run step s ls' t ∧ step t l v := by
  obtain ⟨rest, rfl⟩ := hl
  obtain ⟨v, hfirst, -⟩ := append_iff.1 h
  obtain ⟨t, hrun, hstep⟩ := concat_iff.1 hfirst
  exact ⟨t, v, hrun, hstep⟩

/-- The runs of a step function. -/
theorem foldlM_iff {f : σ → ι → Option σ} :
    Run (fun s l t => f s l = some t) s ls t ↔ ls.foldlM f s = some t := by
  induction ls using List.reverseRecOn generalizing t with
  | nil => simp [nil_iff]
  | append_singleton ls l ih => simp [concat_iff, ih, Option.bind_eq_some_iff]

/-- The runs of a step function whose steps all meet a condition. -/
theorem guarded_iff {f : σ → ι → Option σ} {P : σ → ι → Prop} [∀ s l, Decidable (P s l)] :
    Run (fun s l t => f s l = some t ∧ P s l) s ls t ↔
      ls.foldlM (fun s l => if P s l then f s l else none) s = some t := by
  rw [← foldlM_iff]
  simp only [Option.ite_none_right_eq_some, and_comm]

/-- What the steps show, each in the state that it starts from. -/
def shown (f : σ → ι → Option σ) (out : σ → ι → List κ) : σ → List ι → List κ
  | _, [] => []
  | s, l :: ls =>
    match f s l with
    | none => []
    | some t => out s l ++ shown f out t ls

theorem shown_concat {f : σ → ι → Option σ} {out : σ → ι → List κ}
    (h : Run (fun s l t => f s l = some t) s ls t) (hl : f t l = some u) :
    shown f out s (ls ++ [l]) = shown f out s ls ++ out t l := by
  rw [foldlM_iff] at h
  induction ls generalizing s with
  | nil =>
    obtain rfl := Option.some.inj h
    simp [shown, hl]
  | cons l' ls ih =>
    obtain ⟨v, hv, hrest⟩ := Option.bind_eq_some_iff.1 h
    simp [shown, hv, ih hrest]

/-- A property that every step keeps holds at the end of a run that starts with it. -/
theorem invariant {I : σ → Prop} (hstep : ∀ s l t, I s → step s l t → I t)
    (h : Run step s ls t) (hs : I s) : I t := by
  induction h with
  | nil => exact hs
  | snoc _ hlast ih => exact hstep _ _ _ ih hlast

/-- What holds of every step from an invariant holds of every label. -/
theorem forall_label {I : σ → Prop} {Q : ι → Prop} (hstep : ∀ s l t, I s → step s l t → I t ∧ Q l)
    (h : Run step s ls t) (hs : I s) : I t ∧ ∀ l ∈ ls, Q l := by
  induction h with
  | nil => exact ⟨hs, List.forall_mem_nil _⟩
  | snoc _ hlast ih =>
    obtain ⟨ht, hall⟩ := ih
    obtain ⟨hu, hl⟩ := hstep _ _ _ ht hlast
    exact ⟨hu, List.forall_mem_append.2 ⟨hall, List.forall_mem_singleton.2 hl⟩⟩

/-- Labels of one kind are matched by labels of another, up to what a state owes. -/
theorem count_balance {I : σ → Prop} (p q : ι → Bool) (owed : σ → Nat)
    (hstep : ∀ s l t, I s → step s l t → I t ∧ (p l).toNat + owed t = (q l).toNat + owed s)
    (h : Run step s ls t) (hs : I s) :
    I t ∧ ls.countP p + owed t = ls.countP q + owed s := by
  induction h with
  | nil => exact ⟨hs, rfl⟩
  | @snoc t u ls l _ hlast ih =>
    obtain ⟨ht, hcount⟩ := ih
    obtain ⟨hu, hone⟩ := hstep _ _ _ ht hlast
    refine ⟨hu, ?_⟩
    have hp : [l].countP p = (p l).toNat := by cases hpl : p l <;> simp [hpl]
    have hq : [l].countP q = (q l).toNat := by cases hql : q l <;> simp [hql]
    rw [List.countP_append, List.countP_append, hp, hq]
    omega

/-- A condition on steps that keeps an invariant, and implies another condition
wherever the invariant holds. -/
theorem imp_of_invariant {I : σ → Prop} {P Q : σ → ι → σ → Prop}
    (hstep : ∀ s l t, I s → step s l t → P s l t → I t ∧ Q s l t) (hs : I s)
    (h : Run (fun s l t => step s l t ∧ P s l t) s ls t) :
    I t ∧ Run (fun s l t => step s l t ∧ Q s l t) s ls t := by
  induction h with
  | nil => exact ⟨hs, .nil⟩
  | snoc _ hlast ih =>
    obtain ⟨hI, hrun⟩ := ih
    obtain ⟨hI', hQ⟩ := hstep _ _ _ hI hlast.1 hlast.2
    exact ⟨hI', .snoc hrun ⟨hlast.1, hQ⟩⟩

/-- Two conditions on steps that agree wherever an invariant holds, and keep it,
allow the same runs. -/
theorem iff_of_invariant {I : σ → Prop} {P Q : σ → ι → σ → Prop}
    (hiff : ∀ s l t, I s → step s l t → (P s l t ↔ Q s l t))
    (hkeep : ∀ s l t, I s → step s l t → P s l t → I t) (hs : I s) :
    Run (fun s l t => step s l t ∧ P s l t) s ls t ↔
      Run (fun s l t => step s l t ∧ Q s l t) s ls t := by
  constructor
  · exact fun h => (imp_of_invariant (fun s l t hI hlast hP =>
      ⟨hkeep s l t hI hlast hP, (hiff s l t hI hlast).1 hP⟩) hs h).2
  · exact fun h => (imp_of_invariant (fun s l t hI hlast hQ =>
      have hP := (hiff s l t hI hlast).2 hQ
      ⟨hkeep s l t hI hlast hP, hP⟩) hs h).2

/-- Two conditions that agree on every step allow the same runs. -/
theorem iff_of_step {P Q : σ → ι → σ → Prop} (hiff : ∀ s l t, step s l t → (P s l t ↔ Q s l t)) :
    Run (fun s l t => step s l t ∧ P s l t) s ls t ↔
      Run (fun s l t => step s l t ∧ Q s l t) s ls t :=
  iff_of_invariant (I := fun _ => True) (fun s l t _ hlast => hiff s l t hlast)
    (fun _ _ _ _ _ _ => trivial) trivial

/-- If every step from the invariant either meets a condition and keeps the
invariant, or spoils something for good, a run that has not spoiled it meets the
condition throughout. -/
theorem invariant_or_spoiled {I B : σ → Prop} {P : σ → ι → Prop}
    (hstep : ∀ s l t, I s → step s l t → (P s l ∧ I t) ∨ B t)
    (hkeep : ∀ s l t, B s → step s l t → B t) (hs : I s) (h : Run step s ls t) :
    (I t ∧ Run (fun s l t => step s l t ∧ P s l) s ls t) ∨ B t := by
  induction h with
  | nil => exact .inl ⟨hs, .nil⟩
  | snoc _ hlast ih =>
    rcases ih with ⟨hI, hrun⟩ | hB
    · rcases hstep _ _ _ hI hlast with ⟨hP, hI'⟩ | hB
      · exact .inl ⟨hI', .snoc hrun ⟨hlast, hP⟩⟩
      · exact .inr hB
    · exact .inr (hkeep _ _ _ hB hlast)

/-- Forward simulation: when every step from related states is matched by an
abstract step with the same label, every run is matched by an abstract run. -/
theorem simulation {astep : τ → ι → τ → Prop} {R : σ → τ → Prop}
    (hsim : ∀ s l t a, R s a → step s l t → ∃ b, astep a l b ∧ R t b)
    (h : Run step s ls t) {a : τ} (hs : R s a) : ∃ b, Run astep a ls b ∧ R t b := by
  induction h with
  | nil => exact ⟨a, .nil, hs⟩
  | snoc _ hlast ih =>
    obtain ⟨b, hrun, hb⟩ := ih
    obtain ⟨c, hc, hR⟩ := hsim _ _ _ _ hb hlast
    exact ⟨c, .snoc hrun hc, hR⟩

/-- Forward simulation where a step shows a list of labels of the abstract system, which
need not be one: what a run shows is an abstract run. -/
theorem simulation_shown {f : σ → ι → Option σ} {out : σ → ι → List κ}
    {astep : τ → κ → τ → Prop} {R : σ → τ → Prop}
    (hsim : ∀ s l t a, R s a → f s l = some t → ∃ b, Run astep a (out s l) b ∧ R t b)
    (h : Run (fun s l t => f s l = some t) s ls t) {a : τ} (hs : R s a) :
    ∃ b, Run astep a (shown f out s ls) b ∧ R t b := by
  induction h with
  | nil => exact ⟨a, .nil, hs⟩
  | snoc hrun hlast ih =>
    obtain ⟨b, habstract, hb⟩ := ih
    obtain ⟨c, hc, hR⟩ := hsim _ _ _ _ hb hlast
    rw [shown_concat hrun hlast]
    exact ⟨c, habstract.trans hc, hR⟩

end Run

namespace Reachable

variable {init : σ → Prop} {step : σ → ι → σ → Prop} {s t : σ} {l : ι}

theorem start (h : init s) : Reachable init step s :=
  ⟨s, [], h, .nil⟩

theorem next (h : Reachable init step s) (hstep : step s l t) : Reachable init step t := by
  obtain ⟨s₀, ls, h0, hrun⟩ := h
  exact ⟨s₀, ls ++ [l], h0, .snoc hrun hstep⟩

theorem trans {ls : List ι} (h : Reachable init step s) (hrun : Run step s ls t) :
    Reachable init step t := by
  obtain ⟨s₀, ls₀, h0, hrun₀⟩ := h
  exact ⟨s₀, ls₀ ++ ls, h0, hrun₀.trans hrun⟩

/-- The invariant rule: what holds at the start and is kept by every step
holds in every reachable state. -/
theorem invariant {I : σ → Prop} (h0 : ∀ s, init s → I s)
    (hstep : ∀ s l t, I s → step s l t → I t) (h : Reachable init step s) : I s := by
  obtain ⟨s₀, ls, hinit, hrun⟩ := h
  exact hrun.invariant hstep (h0 s₀ hinit)

end Reachable

end LinuxNet
