-- SUMMARY: Functions that acquire resources one after the other and leave early: what they hold on each way out.
import Mathlib.Data.Finset.Option
import Mathlib.Data.Finset.SDiff

/-! # Ways out of a function

A C function acquires resources, tests each call, and gives back what it has
before it returns. Here such a function is the tree of its calls. The results of
the calls are not known, and every sequence of them is a run. The ways out and
what is held there can be computed from the tree. -/

namespace LinuxNet.Cleanup

/-- A call that only uses resources. -/
structure Use (R : Type*) where
  name : String
  uses : List R := []
  deriving DecidableEq, Repr

/-- A call that may give a resource to the function, where it succeeds. -/
structure Call (R : Type*) extends Use R where
  gives : Option R := none
  deriving DecidableEq, Repr

/-- The calls of a function up to its returns. -/
inductive Prog (R : Type*)
  | ret
  /-- The result is not tested. -/
  | call (c : Use R) (rest : Prog R)
  /-- The result is tested. -/
  | check (c : Call R) (failed rest : Prog R)
  /-- The call is repeated until it succeeds, or there is nothing left to try it with. -/
  | each (c : Use R) (failed rest : Prog R)
  /-- Any number of calls. -/
  | loop (c : Use R) (rest : Prog R)
  /-- A loop that is never left. -/
  | forever (c : Use R)
  /-- The call is taken to succeed. -/
  | give (c : Call R) (rest : Prog R)
  | free (name : String) (r : R) (rest : Prog R)
  deriving Repr

/-- Where a run ends: by a return, which may be the one after a failed call, or in
the loop that is never left. -/
inductive Exit
  | returned
  | failed (call : String)
  | serving
  deriving DecidableEq, Repr

/-- A call that has been made, and whether it has succeeded. -/
inductive Event (R : Type*)
  | call (c : Call R) (success : Bool)
  | free (name : String) (r : R)
  deriving DecidableEq, Repr

def Use.event {R : Type*} (c : Use R) (success : Bool) : Event R := .call { c with } success

/-- The runs of a function. `e` is where a return leads to. -/
inductive Runs {R : Type*} : Prog R → Exit → List (Event R) → Exit → Prop
  | ret {e} : Runs .ret e [] e
  | call {c rest e es e'} (success : Bool) (h : Runs rest e es e') :
      Runs (.call c rest) e (c.event success :: es) e'
  | failed {c failed rest e es e'} (h : Runs failed (.failed c.name) es e') :
      Runs (.check c failed rest) e (.call c false :: es) e'
  | passed {c failed rest e es e'} (h : Runs rest e es e') :
      Runs (.check c failed rest) e (.call c true :: es) e'
  | next {c failed rest e es e'} (h : Runs (.each c failed rest) e es e') :
      Runs (.each c failed rest) e (c.event false :: es) e'
  | last {c failed rest e es e'} (h : Runs failed (.failed c.name) es e') :
      Runs (.each c failed rest) e (c.event false :: es) e'
  | found {c failed rest e es e'} (h : Runs rest e es e') :
      Runs (.each c failed rest) e (c.event true :: es) e'
  | again {c rest e es e'} (success : Bool) (h : Runs (.loop c rest) e es e') :
      Runs (.loop c rest) e (c.event success :: es) e'
  | leave {c rest e es e'} (h : Runs rest e es e') : Runs (.loop c rest) e es e'
  | stay {c e es e'} (success : Bool) (h : Runs (.forever c) e es e') :
      Runs (.forever c) e (c.event success :: es) e'
  | serving {c e} : Runs (.forever c) e [] .serving
  | give {c rest e es e'} (h : Runs rest e es e') :
      Runs (.give c rest) e (.call c true :: es) e'
  | free {name r rest e es e'} (h : Runs rest e es e') :
      Runs (.free name r rest) e (.free name r :: es) e'

variable {R : Type*} [DecidableEq R]

/-- The resources a function holds, and those it has used or freed without holding them. -/
structure State (R : Type*) where
  held : Finset R
  misused : Finset R
  deriving DecidableEq

def State.start : State R := ⟨∅, ∅⟩

def State.use (s : State R) (rs : List R) : State R :=
  { s with misused := s.misused ∪ rs.toFinset \ s.held }

def State.after (s : State R) : Event R → State R
  | .call c success =>
    let s := s.use c.uses
    if success then { s with held := s.held ∪ c.gives.toFinset } else s
  | .free _ r => { s.use [r] with held := s.held.erase r }

/-- The ways out of a function, with what it holds there. -/
def Prog.exits : Prog R → Exit → State R → List (Exit × State R)
  | .ret, e, s => [(e, s)]
  | .call c rest, e, s => rest.exits e (s.use c.uses)
  | .check c failed rest, e, s =>
    failed.exits (.failed c.name) (s.after (.call c false)) ++
      rest.exits e (s.after (.call c true))
  | .each c failed rest, e, s =>
    failed.exits (.failed c.name) (s.use c.uses) ++ rest.exits e (s.use c.uses)
  | .loop c rest, e, s =>
    if s.use c.uses = s then rest.exits e s
    else rest.exits e s ++ rest.exits e (s.use c.uses)
  | .forever c, _, s =>
    if s.use c.uses = s then [(.serving, s)] else [(.serving, s), (.serving, s.use c.uses)]
  | .give c rest, e, s => rest.exits e (s.after (.call c true))
  | .free name r rest, e, s => rest.exits e (s.after (.free name r))

variable {p : Prog R} {e e' : Exit} {s t : State R} {rs : List R} {es : List (Event R)}

@[simp] theorem State.use_use : (s.use rs).use rs = s.use rs := by
  simp [use]

@[simp] theorem State.after_event (c : Use R) (success : Bool) :
    s.after (c.event success) = s.use c.uses := by
  simp [after, Use.event, use]

theorem Prog.mem_exits_loop {c : Use R} {rest : Prog R} {x : Exit × State R} :
    x ∈ (Prog.loop c rest).exits e s ↔ x ∈ rest.exits e s ∨ x ∈ rest.exits e (s.use c.uses) := by
  rw [exits]
  split
  case isTrue h => rw [h, or_self]
  case isFalse => exact List.mem_append

theorem Prog.mem_exits_forever {c : Use R} {x : Exit × State R} :
    x ∈ (Prog.forever c).exits e s ↔ x = (.serving, s) ∨ x = (.serving, s.use c.uses) := by
  rw [exits]
  split
  case isTrue h => rw [h, or_self, List.mem_singleton]
  case isFalse => simp

/-- What a run ends with is one of the ways out. -/
theorem Runs.mem_exits (h : Runs p e es e') : (e', es.foldl State.after s) ∈ p.exits e s := by
  induction h generalizing s with
  | ret => exact List.mem_singleton_self _
  | call success _ ih => simpa [Prog.exits] using ih
  | failed _ ih => exact List.mem_append_left _ ih
  | passed _ ih => exact List.mem_append_right _ ih
  | @next c failed rest e es e' _ ih =>
    have hsame := ih (s := s.use c.uses)
    simpa [Prog.exits] using hsame
  | last _ ih => exact List.mem_append_left _ (by simpa using ih)
  | found _ ih => exact List.mem_append_right _ (by simpa using ih)
  | @again c rest e es e' success _ ih =>
    have hsame := ih (s := s.use c.uses)
    rw [Prog.mem_exits_loop, State.use_use, or_self] at hsame
    exact Prog.mem_exits_loop.2 (.inr (by simpa using hsame))
  | leave _ ih => exact Prog.mem_exits_loop.2 (.inl ih)
  | @stay c e es e' success _ ih =>
    have hsame := ih (s := s.use c.uses)
    rw [Prog.mem_exits_forever, State.use_use, or_self] at hsame
    exact Prog.mem_exits_forever.2 (.inr (by simpa using hsame))
  | serving => exact Prog.mem_exits_forever.2 (.inl rfl)
  | give _ ih => exact ih
  | free _ ih => exact ih

/-- Each way out is that of a run. -/
theorem Prog.exists_runs (h : (e', t) ∈ p.exits e s) :
    ∃ es, Runs p e es e' ∧ es.foldl State.after s = t := by
  induction p generalizing e s with
  | ret =>
    obtain ⟨rfl, rfl⟩ := Prod.mk.inj (List.mem_singleton.1 h)
    exact ⟨[], .ret, rfl⟩
  | call c rest ih =>
    obtain ⟨es, hruns, hfinal⟩ := ih h
    exact ⟨_, .call true hruns, by simpa using hfinal⟩
  | check c failed rest ihfailed ihrest =>
    rcases List.mem_append.1 h with h | h
    · obtain ⟨es, hruns, hfinal⟩ := ihfailed h
      exact ⟨_, .failed hruns, hfinal⟩
    · obtain ⟨es, hruns, hfinal⟩ := ihrest h
      exact ⟨_, .passed hruns, hfinal⟩
  | each c failed rest ihfailed ihrest =>
    rcases List.mem_append.1 h with h | h
    · obtain ⟨es, hruns, hfinal⟩ := ihfailed h
      exact ⟨_, .last hruns, by simpa using hfinal⟩
    · obtain ⟨es, hruns, hfinal⟩ := ihrest h
      exact ⟨_, .found hruns, by simpa using hfinal⟩
  | loop c rest ih =>
    rcases mem_exits_loop.1 h with h | h
    · obtain ⟨es, hruns, hfinal⟩ := ih h
      exact ⟨es, .leave hruns, hfinal⟩
    · obtain ⟨es, hruns, hfinal⟩ := ih h
      exact ⟨_, .again true (.leave hruns), by simpa using hfinal⟩
  | forever c =>
    rcases mem_exits_forever.1 h with h | h <;>
    obtain ⟨rfl, rfl⟩ := Prod.mk.inj h
    · exact ⟨[], .serving, rfl⟩
    · exact ⟨[c.event true], .stay true .serving, by simp⟩
  | give c rest ih =>
    obtain ⟨es, hruns, hfinal⟩ := ih h
    exact ⟨_, .give hruns, hfinal⟩
  | free name r rest ih =>
    obtain ⟨es, hruns, hfinal⟩ := ih h
    exact ⟨_, .free hruns, hfinal⟩

theorem Prog.mem_exits_iff :
    (e', t) ∈ p.exits e s ↔ ∃ es, Runs p e es e' ∧ es.foldl State.after s = t := by
  constructor
  · exact exists_runs
  · rintro ⟨es, hruns, rfl⟩
    exact hruns.mem_exits

/-! ## Tidy functions -/

/-- Nothing is used that is not held, and nothing is held after a return. -/
def Exit.Tidy (e : Exit) (s : State R) : Prop := s.misused = ∅ ∧ (e ≠ .serving → s.held = ∅)

instance : Decidable (e.Tidy s) := inferInstanceAs (Decidable (_ ∧ _))

/-- A function that leaves nothing behind, whatever its calls return. -/
def Prog.Tidy (p : Prog R) : Prop :=
  ∀ es e, Runs p .returned es e → e.Tidy (es.foldl State.after .start)

theorem Prog.tidy_iff : p.Tidy ↔ ∀ x ∈ p.exits .returned .start, x.1.Tidy x.2 := by
  constructor
  · rintro h ⟨e, t⟩ hx
    obtain ⟨es, hruns, rfl⟩ := mem_exits_iff.1 hx
    exact h es e hruns
  · intro h es e hruns
    exact h _ hruns.mem_exits

instance : Decidable p.Tidy := decidable_of_iff _ Prog.tidy_iff.symm

end LinuxNet.Cleanup
