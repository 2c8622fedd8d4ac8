-- SUMMARY: A connection that is queued again waits for those before it, once each, and for no others.
import LinuxNet.Base.Stailq
import LinuxNet.ThreadServer.Custody

/-! # Overtaking -/

namespace LinuxNet.ThreadServer

variable {n : Nat} {s t u v : Pool n} {l : Label n} {ls : List (Label n)} {w w' : Fin n}
  {task : Task} {openFds : Finset Nat}

/-- The connection that a step takes from the queue. -/
def dequeued (s : Pool n) : Label n → List Task
  | .worker _ .dequeue => s.taskQueue.take 1
  | _ => []

/-- The connections that leave the queue along a schedule, first to last. -/
def dequeues (s : Pool n) : List (Label n) → List Task
  | [] => []
  | l :: ls => dequeued s l ++ (step s l).elim [] (dequeues · ls)

theorem Moves.fifo (h : Moves s l t) : Fifo s.taskQueue (dequeued s l) t.taskQueue := by
  cases h with
  | insertTask mallocOk =>
    cases mallocOk with
    | false => exact .stay
    | true => exact .join _
  | requeue => exact .join _
  | dequeueNull _ hqueue =>
    simp only [dequeued, hqueue]
    exact .stay
  | dequeue _ hqueue =>
    simp only [dequeued, hqueue]
    exact .leave
  | _ => exact .stay

theorem dequeues_fifo (h : Run Step s ls t) : Fifo s.taskQueue (dequeues s ls) t.taskQueue := by
  replace h := Run.foldlM_iff.1 h
  induction ls generalizing s with
  | nil =>
    obtain rfl := Option.some.inj h
    exact .stay
  | cons l ls ih =>
    obtain ⟨r, hstep, hrun⟩ := Option.bind_eq_some_iff.1 h
    rw [dequeues, hstep]
    exact (Step.moves hstep).2.fifo.trans (ih hrun)

/-! ## The connection that is queued again -/

theorem queue_nodup (h : Reachable (· = start n openFds) Step s) : s.taskQueue.Nodup := by
  refine List.nodup_iff_count_le_one.2 fun task => ?_
  have hle := places_le_one h task
  rw [Pool.places] at hle
  omega

theorem held_not_queued (h : Reachable (· = start n openFds) Step s)
    (hw : (s.worker w).held = some task) : task ∉ s.taskQueue := by
  intro hmem
  have hle := places_le_one h task
  have hcount : 0 < s.taskQueue.count task := List.count_pos_iff.2 hmem
  have hcard : 0 < (s.holders task).card := Finset.card_pos.2 ⟨w, by simp [Pool.holders, hw]⟩
  rw [Pool.places] at hle
  omega

theorem requeue_queue (h : Step s (.worker w .requeue) t) (hw : s.worker w = .requeueing task) :
    t.taskQueue = s.taskQueue ++ [task] := by
  cases h.moves.2 with
  | requeue hw' =>
    obtain rfl := WorkerPc.requeueing.inj (hw.symm.trans hw')
    rfl

theorem dequeue_queue (h : Step u (.worker w .dequeue) v) (hw : v.worker w = .serving task) :
    ∃ rest, u.taskQueue = task :: rest := by
  cases h.moves.2 with
  | dequeueNull hpast => exact absurd (hpast.symm.trans hw) nofun
  | @dequeue _ other rest _ hqueue =>
    have hserving : WorkerPc.serving other = .serving task :=
      (Function.update_self w _ u.worker).symm.trans hw
    obtain rfl := WorkerPc.serving.inj hserving
    exact ⟨rest, hqueue⟩

/-- A worker requeues a connection, and the schedule goes on until a worker
dequeues it. Meanwhile the connections that were in the queue before it leave,
once each and in their order, and no others. -/
theorem requeued_waits_for_queue (hs : Reachable (· = start n openFds) Step s)
    (hw : s.worker w = .requeueing task) (hrequeue : Step s (.worker w .requeue) t)
    (hrun : Run Step t ls u) (hwait : task ∉ dequeues t ls)
    (hdequeue : Step u (.worker w' .dequeue) v) (hnext : v.worker w' = .serving task) :
    dequeues t ls = s.taskQueue ∧ ∀ other ∈ s.taskQueue, (dequeues t ls).count other = 1 := by
  obtain ⟨rest, hu⟩ := dequeue_queue hdequeue hnext
  have hfifo := dequeues_fifo hrun
  rw [requeue_queue hrequeue hw, hu] at hfifo
  have hleave := hfifo.ahead (held_not_queued hs (by rw [hw]; rfl)) hwait
  refine ⟨hleave, fun other hother => ?_⟩
  rw [hleave]
  exact List.count_eq_one_of_mem (queue_nodup hs) hother

/-- The only worker of a pool of one. -/
def onlyWorker : Fin 1 := Fin.last 0

/-- One connection waits in the queue while another is served, which gets no data
and is requeued. -/
def beforeRequeue : Pool 1 :=
  (([.main (.accept (some 4)), .main (.insertTask true), .main (.wakeupThreads none),
    .main (.accept (some 5)), .main (.insertTask true), .main (.wakeupThreads none),
    .worker onlyWorker .lock, .worker onlyWorker .dequeue,
    .worker onlyWorker (.recv (.data (bytesOf "a") (by decide)))] : List (Label 1)).foldlM step
      (start 1 {3})).get (by decide)

def afterRequeue : Pool 1 := (step beforeRequeue (.worker onlyWorker .requeue)).get (by decide)

/-- A third connection is inserted, and the waiting one is served and closed. -/
def meanwhile : List (Label 1) :=
  [.main (.accept (some 6)), .main (.insertTask true), .main (.wakeupThreads none),
    .worker onlyWorker .lock, .worker onlyWorker .dequeue,
    .worker onlyWorker (.recv (.fail ebadf)), .worker onlyWorker .close,
    .worker onlyWorker .free, .worker onlyWorker .lock]

def beforeDequeue : Pool 1 := (meanwhile.foldlM step afterRequeue).get (by decide)

def afterDequeue : Pool 1 := (step beforeDequeue (.worker onlyWorker .dequeue)).get (by decide)

theorem requeued_waits_for_queue_meanwhile :
    dequeues afterRequeue meanwhile = beforeRequeue.taskQueue ∧
      beforeRequeue.taskQueue = [⟨5, 1⟩] ∧ beforeDequeue.taskQueue = [⟨4, 0⟩, ⟨6, 2⟩] := by
  have hreach : Reachable (· = start 1 {3}) Step beforeRequeue :=
    ⟨_, _, rfl, Run.foldlM_iff.2 (Option.some_get _).symm⟩
  have hrun : Run Step afterRequeue meanwhile beforeDequeue :=
    Run.foldlM_iff.2 (Option.some_get _).symm
  have hholds : beforeRequeue.worker onlyWorker = .requeueing ⟨4, 0⟩ := by decide
  have hnext : afterDequeue.worker onlyWorker = .serving ⟨4, 0⟩ := by decide
  have h := requeued_waits_for_queue hreach hholds (Option.some_get _).symm hrun (by decide)
    (Option.some_get _).symm hnext
  exact ⟨h.1, by decide, by decide⟩

end LinuxNet.ThreadServer
