-- SUMMARY: Who answers for each connection and for each task's memory, and the steps that change it.
import LinuxNet.Base.Lease
import LinuxNet.ThreadServer.Steps
import Mathlib.Data.Fintype.Basic

/-! # The ledger

What the pool is for, without threads: connections are accepted, wait to be
inserted, are served and closed, and the memory of their tasks is allocated and
freed. The steps of the pool are steps of the ledger. -/

namespace LinuxNet.ThreadServer

abbrev Task := HandleConnectionTask

structure Ledger where
  /-- The connection that is accepted and not yet inserted. -/
  pending : Option Task
  connections : Lease Task
  allocations : Lease Task
  openFds : Finset Nat

namespace Ledger

inductive Step : Ledger → Ledger → Prop
  | stay {L} : Step L L
  | accept {L newFd} (hpending : L.pending = none) (hfd : newFd ∉ L.openFds) :
    Step L
      { L with
        pending := some ⟨newFd, L.connections.granted.card⟩
        connections := L.connections.grant ⟨newFd, L.connections.granted.card⟩
        openFds := insert newFd L.openFds }
  | insert {L task} (hpending : L.pending = some task) :
    Step L { L with pending := none, allocations := L.allocations.grant task }
  | close {L task} (hlive : task ∈ L.connections.live) :
    Step L
      { L with
        connections := L.connections.giveBack task
        openFds := L.openFds.erase task.acceptedFd }
  | free {L task} (hlive : task ∈ L.allocations.live) :
    Step L { L with allocations := L.allocations.giveBack task }

structure Valid (L : Ledger) : Prop where
  connections : L.connections.Valid HandleConnectionTask.acceptedFd
  allocations : L.allocations.Valid id
  numbers : ∀ task ∈ L.connections.granted, task.number < L.connections.granted.card
  openFds : ∀ task ∈ L.connections.live, task.acceptedFd ∈ L.openFds
  pending : L.connections.granted = ↑L.pending.toList + L.allocations.granted

variable {L M : Ledger}

theorem Valid.accept (h : L.Valid) {newFd : Nat} (hpending : L.pending = none)
    (hfd : newFd ∉ L.openFds) :
    Valid { L with
      pending := some ⟨newFd, L.connections.granted.card⟩
      connections := L.connections.grant ⟨newFd, L.connections.granted.card⟩
      openFds := insert newFd L.openFds } where
  connections := by
    refine h.connections.grant (fun hmem => Nat.lt_irrefl _ (h.numbers _ hmem)) fun hmem => ?_
    obtain ⟨task, htask, heq⟩ := Multiset.mem_map.1 hmem
    have hopen := h.openFds task htask
    rw [heq] at hopen
    exact hfd hopen
  allocations := h.allocations
  numbers := by
    intro task htask
    simp only [Lease.grant, Multiset.card_cons] at htask ⊢
    rcases Multiset.mem_cons.1 htask with rfl | htask
    · exact Nat.lt_succ_self _
    · exact Nat.lt_succ_of_lt (h.numbers task htask)
  openFds := by
    intro task htask
    rcases Multiset.mem_cons.1 htask with rfl | htask
    · exact Finset.mem_insert_self _ _
    · exact Finset.mem_insert_of_mem (h.openFds task htask)
  pending := by
    have hold := h.pending
    simp only [hpending, Option.toList_none, Multiset.coe_nil, zero_add] at hold
    simp [Lease.grant, hold]

theorem Valid.insert (h : L.Valid) {task : Task} (hpending : L.pending = some task) :
    Valid { L with pending := none, allocations := L.allocations.grant task } where
  connections := h.connections
  allocations := by
    have hnodup := h.connections.nodup
    have hold := h.pending
    rw [hpending, Option.toList_some, Multiset.coe_singleton, Multiset.singleton_add] at hold
    rw [hold] at hnodup
    have hfresh := (Multiset.nodup_cons.1 hnodup).1
    refine h.allocations.grant hfresh fun hmem => hfresh ?_
    rw [h.allocations.balance]
    exact Multiset.mem_add.2 (.inl (by simpa using hmem))
  numbers := h.numbers
  openFds := h.openFds
  pending := by
    have hold := h.pending
    rw [hpending, Option.toList_some, Multiset.coe_singleton, Multiset.singleton_add] at hold
    simp [Lease.grant, hold]

theorem Valid.close (h : L.Valid) {task : Task} (hlive : task ∈ L.connections.live) :
    Valid { L with
      connections := L.connections.giveBack task
      openFds := L.openFds.erase task.acceptedFd } where
  connections := h.connections.giveBack hlive
  allocations := h.allocations
  numbers := h.numbers
  openFds := fun other hother => by
    obtain ⟨hmem, hne⟩ := h.connections.name_ne hlive hother
    exact Finset.mem_erase.2 ⟨hne, h.openFds other hmem⟩
  pending := h.pending

theorem Step.valid (h : L.Step M) (hL : L.Valid) : M.Valid := by
  cases h with
  | stay => exact hL
  | accept hpending hfd => exact hL.accept hpending hfd
  | insert hpending => exact hL.insert hpending
  | close hlive => exact hL.close hlive
  | free hlive => exact ⟨hL.connections, hL.allocations.giveBack hlive, hL.numbers, hL.openFds,
      hL.pending⟩

/-- What is accepted, closed or freed stays so. -/
theorem Step.le (h : L.Step M) : L.connections.granted ≤ M.connections.granted ∧
    L.connections.ended ≤ M.connections.ended ∧ L.allocations.ended ≤ M.allocations.ended := by
  cases h with
  | accept => exact ⟨Multiset.le_cons_self _ _, le_rfl, le_rfl⟩
  | close => exact ⟨le_rfl, Multiset.le_cons_self _ _, le_rfl⟩
  | free => exact ⟨le_rfl, le_rfl, Multiset.le_cons_self _ _⟩
  | stay | insert => exact ⟨le_rfl, le_rfl, le_rfl⟩

end Ledger

/-! ## The ledger of a pool -/

/-- The connection that a worker has, from the dequeue to its close or requeue. -/
def WorkerPc.held : WorkerPc → Option Task
  | .serving task | .sending task | .requeueing task | .closing task => some task
  | _ => none

/-- The task that a worker has in memory. -/
def WorkerPc.owned : WorkerPc → Option Task
  | .freeing task => some task
  | pc => pc.held

theorem afterRecv_held {task} (result) : (afterRecv task result).held = some task ∧
    (afterRecv task result).owned = some task := by
  unfold afterRecv
  split
  · exact ⟨rfl, rfl⟩
  · split
    · exact ⟨rfl, rfl⟩
    · split <;> exact ⟨rfl, rfl⟩

theorem afterSend_held {task} (result) : (afterSend task result).held = some task ∧
    (afterSend task result).owned = some task := by
  unfold afterSend
  split
  · exact ⟨rfl, rfl⟩
  · split <;> exact ⟨rfl, rfl⟩

variable {n : Nat} {s t : Pool n} {l : Label n} {w : Fin n} {pc : WorkerPc} {openFds : Finset Nat}

namespace Pool

def pending (s : Pool n) : Option Task :=
  match s.main with
  | .inserting task => some task
  | _ => none

/-- The tasks that the workers have in the sense of `f`. -/
def sum (f : WorkerPc → Option Task) (s : Pool n) : Multiset Task :=
  ∑ w, ((f (s.worker w)).toList : Multiset Task)

def ledger (s : Pool n) : Ledger where
  pending := s.pending
  connections := ⟨s.accepted, ↑s.pending.toList + ↑s.taskQueue + s.sum WorkerPc.held, s.closed⟩
  allocations := ⟨s.allocated, ↑s.taskQueue + s.sum WorkerPc.owned, s.freed⟩
  openFds := s.openFds

variable {f : WorkerPc → Option Task} {task : Task}

theorem sum_goto (f : WorkerPc → Option Task) (w : Fin n) (pc : WorkerPc) (s : Pool n) :
    (s.goto w pc).sum f + ↑(f (s.worker w)).toList = s.sum f + ↑(f pc).toList :=
  sum_update (fun pc => ((f pc).toList : Multiset Task)) s.worker w pc

theorem sum_keep (h : f pc = f (s.worker w)) : (s.goto w pc).sum f = s.sum f := by
  have hsum := sum_goto f w pc s
  rw [h] at hsum
  exact add_right_cancel hsum

theorem sum_gain (hw : f (s.worker w) = none) (hpc : f pc = some task) :
    (s.goto w pc).sum f = task ::ₘ s.sum f := by
  have hsum := sum_goto f w pc s
  rw [hw, hpc, Option.toList_none, Option.toList_some, Multiset.coe_nil, add_zero,
    Multiset.coe_singleton, add_comm, Multiset.singleton_add] at hsum
  exact hsum

theorem sum_lose (hw : f (s.worker w) = some task) (hpc : f pc = none) :
    s.sum f = task ::ₘ (s.goto w pc).sum f := by
  have hsum := sum_goto f w pc s
  rw [hw, hpc, Option.toList_none, Option.toList_some, Multiset.coe_nil, add_zero,
    Multiset.coe_singleton, add_comm, Multiset.singleton_add] at hsum
  exact hsum.symm

/-- A worker that goes on with what it has leaves the ledger as it is. -/
theorem goto_ledger (hheld : pc.held = (s.worker w).held)
    (howned : pc.owned = (s.worker w).owned) : (s.goto w pc).ledger = s.ledger := by
  simp only [ledger, sum_keep hheld, sum_keep howned]
  rfl

end Pool

theorem coe_concat {α : Type*} (L : List α) (a : α) :
    ((L ++ [a] : List α) : Multiset α) = a ::ₘ ↑L := by
  rw [← Multiset.coe_add, Multiset.coe_singleton, add_comm, Multiset.singleton_add]

theorem accept_ledger {newFd : Nat} (hmain : s.main = .accepting) (hfd : newFd ∉ s.openFds) :
    s.ledger.Step (s.accept newFd).ledger := by
  have hpending : s.pending = none := by rw [Pool.pending, hmain]
  have heq : (s.accept newFd).ledger =
      { s.ledger with
        pending := some ⟨newFd, s.ledger.connections.granted.card⟩
        connections := s.ledger.connections.grant ⟨newFd, s.ledger.connections.granted.card⟩
        openFds := insert newFd s.ledger.openFds } := by
    simp only [Pool.ledger, Lease.grant, hpending, Multiset.coe_card, Pool.accept, coe_concat]
    simp [Pool.pending, Pool.sum, -Multiset.cons_coe, ← Multiset.cons_coe]
  rw [heq]
  exact .accept hpending hfd

theorem insertTask_ledger {task : Task} (hmain : s.main = .inserting task) :
    s.ledger.Step (insertTask task true s).ledger := by
  have hpending : s.pending = some task := by rw [Pool.pending, hmain]
  have heq : (insertTask task true s).ledger =
      { s.ledger with
        pending := none
        allocations := s.ledger.allocations.grant task } := by
    simp only [Pool.ledger, Lease.grant, hpending, insertTask, if_true, coe_concat]
    simp [Pool.pending, Pool.sum, -Multiset.cons_coe, ← Multiset.cons_coe]
  rw [heq]
  exact .insert hpending

/-- A task moves from the queue to a worker, with its connection and its memory. -/
theorem dequeue_ledger {task : Task} {rest : List Task} (hw : s.worker w = .past)
    (hqueue : s.taskQueue = task :: rest) :
    ({ s with lock := none, taskQueue := rest }.goto w (.serving task)).ledger = s.ledger := by
  have hgain : ∀ f : WorkerPc → Option Task, f .past = none → f (.serving task) = some task →
      ({ s with lock := none, taskQueue := rest }.goto w (.serving task)).sum f =
        task ::ₘ s.sum f :=
    fun f hpast hserving => Pool.sum_gain (by rw [hw, hpast]) hserving
  simp only [Pool.ledger, hgain WorkerPc.held rfl rfl, hgain WorkerPc.owned rfl rfl, hqueue]
  simp [Pool.pending, Pool.goto, -Multiset.cons_coe, ← Multiset.cons_coe]

/-- A task moves from a worker to the queue. -/
theorem requeue_ledger {task : Task} (hw : s.worker w = .requeueing task) :
    ({ s with taskQueue := s.taskQueue ++ [task] }.goto w .top).ledger = s.ledger := by
  have hlose : ∀ f : WorkerPc → Option Task, f (.requeueing task) = some task → f .top = none →
      s.sum f = task ::ₘ ({ s with taskQueue := s.taskQueue ++ [task] }.goto w .top).sum f :=
    fun f hrequeueing htop => Pool.sum_lose (by rw [hw, hrequeueing]) htop
  simp only [Pool.ledger, hlose WorkerPc.held rfl rfl, hlose WorkerPc.owned rfl rfl]
  simp [Pool.pending, Pool.goto, coe_concat, -Multiset.cons_coe]

theorem close_ledger {task : Task} (hw : s.worker w = .closing task) :
    s.ledger.Step ((s.close task).goto w (.freeing task)).ledger := by
  have hheld : s.sum WorkerPc.held =
      task ::ₘ ((s.close task).goto w (.freeing task)).sum WorkerPc.held :=
    Pool.sum_lose (congrArg WorkerPc.held hw) rfl
  have howned : ((s.close task).goto w (.freeing task)).sum WorkerPc.owned =
      s.sum WorkerPc.owned :=
    Pool.sum_keep (congrArg WorkerPc.owned hw).symm
  have hlive : s.ledger.connections.live =
      task ::ₘ ((s.close task).goto w (.freeing task)).ledger.connections.live := by
    simp only [Pool.ledger, hheld, Multiset.add_cons]
    rfl
  have heq : ((s.close task).goto w (.freeing task)).ledger =
      { s.ledger with
        connections := s.ledger.connections.giveBack task
        openFds := s.ledger.openFds.erase task.acceptedFd } := by
    rw [Lease.giveBack, hlive, Multiset.erase_cons_head]
    simp only [Pool.ledger, howned]
    simp [Pool.pending, Pool.close, Pool.goto, coe_concat, -Multiset.coe_add]
  rw [heq]
  exact .close (hlive ▸ Multiset.mem_cons_self _ _)

theorem free_ledger {task : Task} (hw : s.worker w = .freeing task) :
    s.ledger.Step ((s.free task).goto w .top).ledger := by
  have hheld : ((s.free task).goto w .top).sum WorkerPc.held = s.sum WorkerPc.held :=
    Pool.sum_keep (congrArg WorkerPc.held hw).symm
  have howned : s.sum WorkerPc.owned =
      task ::ₘ ((s.free task).goto w .top).sum WorkerPc.owned :=
    Pool.sum_lose (congrArg WorkerPc.owned hw) rfl
  have hlive : s.ledger.allocations.live =
      task ::ₘ ((s.free task).goto w .top).ledger.allocations.live := by
    simp only [Pool.ledger, howned, Multiset.add_cons]
    rfl
  have heq : ((s.free task).goto w .top).ledger =
      { s.ledger with allocations := s.ledger.allocations.giveBack task } := by
    rw [Lease.giveBack, hlive, Multiset.erase_cons_head]
    simp only [Pool.ledger, hheld]
    simp [Pool.pending, Pool.free, Pool.goto, coe_concat, -Multiset.coe_add]
  rw [heq]
  exact .free (hlive ▸ Multiset.mem_cons_self _ _)

/-- Every step of the pool is a step of its ledger. -/
theorem Moves.ledger (h : Moves s l t) : s.ledger.Step t.ledger := by
  cases h with
  | acceptFail | dequeueNull => exact .stay
  | accept hmain hfd => exact accept_ledger hmain hfd
  | insertTask mallocOk hmain =>
    cases mallocOk with
    | false => exact .stay
    | true => exact insertTask_ledger hmain
  | signalNone hmain =>
    have heq : ({ s with main := .accepting } : Pool n).ledger = s.ledger := by
      simp [Pool.ledger, Pool.pending, Pool.sum, hmain]
    exact heq ▸ .stay
  | signal hmain _ hw =>
    have heq : ({ s with main := .accepting } : Pool n).ledger = s.ledger := by
      simp [Pool.ledger, Pool.pending, Pool.sum, hmain]
    rw [Pool.goto_ledger (by rw [hw]; rfl) (by rw [hw]; rfl), heq]
    exact .stay
  | dequeue hw hqueue => exact dequeue_ledger hw hqueue ▸ .stay
  | requeue hw => exact requeue_ledger hw ▸ .stay
  | close hw => exact close_ledger hw
  | free hw => exact free_ledger hw
  | recv result hw =>
    obtain ⟨hheld, howned⟩ := afterRecv_held result
    rw [Pool.goto_ledger (by rw [hw, hheld]; rfl) (by rw [hw, howned]; rfl)]
    exact .stay
  | send result hw =>
    obtain ⟨hheld, howned⟩ := afterSend_held result
    rw [Pool.goto_ledger (by rw [hw, hheld]; rfl) (by rw [hw, howned]; rfl)]
    exact .stay
  | lock hw =>
    rw [Pool.goto_ledger (by rw [hw]; split <;> rfl) (by rw [hw]; split <;> rfl)]
    exact .stay
  | wait hw | spurious hw | wake hw =>
    rw [Pool.goto_ledger (by rw [hw]; rfl) (by rw [hw]; rfl)]
    exact .stay

end LinuxNet.ThreadServer
