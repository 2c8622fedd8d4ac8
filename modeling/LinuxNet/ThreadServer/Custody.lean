-- SUMMARY: Every accepted connection is in one place, on every schedule, and is closed and freed at most once.
import LinuxNet.ThreadServer.Ledger
import Mathlib.Algebra.BigOperators.Group.Finset.Piecewise

/-! # Custody of the connections -/

namespace LinuxNet.ThreadServer

variable {n : Nat} {s t : Pool n} {l : Label n} {ls : List (Label n)} {openFds : Finset Nat}

namespace Pool

/-- The workers that hold a connection. -/
def holders (task : Task) (s : Pool n) : Finset (Fin n) :=
  Finset.univ.filter fun w => (s.worker w).held = some task

/-- How often a connection is with the dispatcher, in the queue, with a worker,
and closed. -/
def places (task : Task) (s : Pool n) : Nat :=
  (if s.pending = some task then 1 else 0) + s.taskQueue.count task +
    (s.holders task).card + s.closed.count task

/-- A connection that is accepted and not closed. -/
def Live (task : Task) (s : Pool n) : Prop := task ∈ s.ledger.connections.live

end Pool

open Pool

theorem count_toList (o : Option Task) (task : Task) :
    o.toList.count task = if o = some task then 1 else 0 := by
  cases o with
  | none => rfl
  | some other => simp [List.count_singleton]

theorem count_held (task : Task) (s : Pool n) :
    (s.sum WorkerPc.held).count task = (s.holders task).card := by
  rw [Pool.sum, Multiset.count_sum', holders, Finset.card_filter]
  exact Finset.sum_congr rfl fun w _ => (Multiset.coe_count _ _).trans (count_toList _ _)

theorem places_eq (task : Task) (s : Pool n) : s.places task =
    s.ledger.connections.live.count task + s.ledger.connections.ended.count task := by
  simp only [ledger, Multiset.count_add, count_held, count_toList, Multiset.coe_count, places]

theorem start_ledger : (start n openFds).ledger.Valid := by
  have hsum : ∀ f : WorkerPc → Option Task, f .top = none → (start n openFds).sum f = 0 :=
    fun f hf => Finset.sum_eq_zero fun w _ => by simp [start, hf]
  have hconnections : (start n openFds).ledger.connections = .empty := by
    rw [ledger, hsum WorkerPc.held rfl]
    rfl
  have hallocations : (start n openFds).ledger.allocations = .empty := by
    rw [ledger, hsum WorkerPc.owned rfl]
    rfl
  refine ⟨hconnections ▸ Lease.valid_empty, hallocations ▸ Lease.valid_empty, ?_, ?_, rfl⟩
  · simp [hconnections, Lease.empty]
  · simp [hconnections, Lease.empty]

theorem Step.ledger (h : Step s l t) : s.ledger.Step t.ledger := h.moves.2.ledger

/-- The ledger is in order in every reachable state. -/
theorem ledger_valid (h : Reachable (· = start n openFds) Step s) : s.ledger.Valid :=
  h.invariant (I := fun s => s.ledger.Valid) (fun _ h => h ▸ start_ledger)
    fun _ _ _ hs hstep => hstep.ledger.valid hs

theorem places_accepted (h : Reachable (· = start n openFds) Step s) (task : Task) :
    s.places task = if task ∈ s.accepted then 1 else 0 :=
  (places_eq task s).trans ((ledger_valid h).connections.count_add task)

theorem places_le_one (h : Reachable (· = start n openFds) Step s) (task : Task) :
    s.places task ≤ 1 := by
  rw [places_accepted h task]
  split
  · exact le_rfl
  · exact Nat.zero_le 1

/-- What is accepted, closed or freed stays so. -/
theorem ledger_le (h : Run Step s ls t) : s.accepted ⊆ t.accepted ∧ s.closed ⊆ t.closed ∧
    s.freed ⊆ t.freed := by
  induction h with
  | nil => exact ⟨fun _ h => h, fun _ h => h, fun _ h => h⟩
  | snoc _ hlast ih =>
    obtain ⟨haccepted, hclosed, hfreed⟩ := ih
    obtain ⟨haccepted', hclosed', hfreed'⟩ := hlast.ledger.le
    exact ⟨fun task h => Multiset.subset_of_le haccepted' (haccepted h),
      fun task h => Multiset.subset_of_le hclosed' (hclosed h),
      fun task h => Multiset.subset_of_le hfreed' (hfreed h)⟩

/-- In every state that some schedule leads to, each accepted connection is in
exactly one place, one worker at most holds it, and connections that are not
closed have different descriptors. None is closed or freed twice, nor queued
again later. -/
theorem accepted_in_one_place (h : Reachable (· = start n openFds) Step s)
    (hrun : Run Step s ls t) :
    (∀ task, s.places task = if task ∈ s.accepted then 1 else 0) ∧
    (∀ task w v, (s.worker w).held = some task → (s.worker v).held = some task → w = v) ∧
    (∀ task other, s.Live task → s.Live other → task.acceptedFd = other.acceptedFd →
      task = other) ∧
    s.closed.Nodup ∧ s.freed.Nodup ∧ s.accepted ⊆ t.accepted ∧
    (∀ task, task ∈ s.closed ∨ task ∈ s.freed → task ∉ t.taskQueue) := by
  have hs := ledger_valid h
  have ht := ledger_valid (h.trans hrun)
  obtain ⟨haccepted, hclosed, hfreed⟩ := ledger_le hrun
  refine ⟨places_accepted h, fun task w v hw hv => ?_, fun task other htask hother => ?_,
    hs.connections.ended_nodup, hs.allocations.ended_nodup, haccepted, ?_⟩
  · have hcard : (s.holders task).card ≤ 1 := by
      have hle := places_le_one h task
      rw [places] at hle
      omega
    exact Finset.card_le_one.1 hcard w (by simp [holders, hw]) v (by simp [holders, hv])
  · exact hs.connections.eq_of_name htask hother
  · rintro task (hmem | hmem) hqueue
    · apply ht.connections.not_live (hclosed hmem)
      exact Multiset.mem_add.2 (.inl (Multiset.mem_add.2 (.inr hqueue)))
    · exact ht.allocations.not_live (hfreed hmem) (Multiset.mem_add.2 (.inl hqueue))

/-- A connection is served and closed, and the next one gets its descriptor. -/
def reusedFd : List (Label 1) :=
  [.worker 0 .lock, .worker 0 .wait, .main (.accept (some 4)), .main (.insertTask true),
    .main (.wakeupThreads (some 0)), .worker 0 .wake, .worker 0 .dequeue,
    .worker 0 (.recv (.fail ebadf)), .worker 0 .close, .main (.accept (some 4))]

def reusedPool : Pool 1 := (reusedFd.foldlM step (start 1 {3})).get (by decide)

def freedPool : Pool 1 := (step reusedPool (.worker 0 .free)).get (by decide)

theorem accepted_in_one_place_reusedFd :
    reusedPool.closed = [⟨4, 0⟩] ∧ reusedPool.pending = some ⟨4, 1⟩ ∧
    (∀ task, reusedPool.places task = if task ∈ reusedPool.accepted then 1 else 0) ∧
    (∀ task, task ∈ reusedPool.closed ∨ task ∈ reusedPool.freed → task ∉ freedPool.taskQueue) := by
  have hreach : Reachable (· = start 1 {3}) Step reusedPool :=
    ⟨_, reusedFd, rfl, Run.foldlM_iff.2 (Option.some_get _).symm⟩
  have hrun : Run Step reusedPool [.worker 0 .free] freedPool :=
    Run.single (Option.some_get _).symm
  have h := accepted_in_one_place hreach hrun
  exact ⟨by decide, by decide, h.1, h.2.2.2.2.2.2⟩

end LinuxNet.ThreadServer
