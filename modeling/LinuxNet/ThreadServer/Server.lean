-- SUMMARY: The threads of the worker-pool server (pong_server.c, server_thread.h), step by step.
import LinuxNet.Base.Socket
import Mathlib.Data.Finset.Basic
import Mathlib.Logic.Function.Basic

/-! # The dispatcher and its workers

The threads take turns. A critical section of the dispatcher is one step; a
worker's section is split where it tests the queue, waits and dequeues. A step
is `none` where the thread cannot take it. -/

namespace LinuxNet.ThreadServer

/-- A connection that was accepted, as the descriptor and the number of the
accept that returned it. The program has the descriptor only. -/
structure HandleConnectionTask where
  acceptedFd : Nat
  number : Nat
  deriving DecidableEq, Repr

/-- Where the dispatcher is in its loop. -/
inductive MainPc
  | accepting
  | inserting (task : HandleConnectionTask)
  | waking
  deriving DecidableEq, Repr

/-- Where a worker is in `thread_func`. It has the lock in `toWait`, before
`pthread_cond_wait`, and in `past`, before the dequeue. In `woken` it is still
inside `pthread_cond_wait`, without the lock. -/
inductive WorkerPc
  | top
  | toWait
  | waiting
  | woken
  | past
  | serving (task : HandleConnectionTask)
  | sending (task : HandleConnectionTask)
  | requeueing (task : HandleConnectionTask)
  | closing (task : HandleConnectionTask)
  | freeing (task : HandleConnectionTask)
  deriving DecidableEq, Repr

/-- The process runs, has called `exit`, or has dereferenced NULL. -/
inductive Status
  | running
  | exited
  | crashed
  deriving DecidableEq, Repr

/-- The process, with `n` workers. The lists of tasks that were accepted,
allocated, closed and freed are for the proofs. -/
structure Pool (n : Nat) where
  status : Status
  /-- The worker that has the lock between two of its steps. -/
  lock : Option (Fin n)
  taskQueue : List HandleConnectionTask
  main : MainPc
  worker : Fin n → WorkerPc
  openFds : Finset Nat
  accepted : List HandleConnectionTask
  allocated : List HandleConnectionTask
  closed : List HandleConnectionTask
  freed : List HandleConnectionTask

/-- What the dispatcher does next, and how its calls turn out.
`pthread_cond_signal` wakes a worker of its choice, unless none is waiting. -/
inductive MainStep (n : Nat)
  | accept (newFd : Option Nat)
  | insertTask (mallocOk : Bool)
  | wakeupThreads (woken : Option (Fin n))

/-- What a worker does next, and how its calls turn out. `spurious` is a wakeup
without a signal, and `wake` is the return from `pthread_cond_wait`. -/
inductive WorkerStep
  | lock
  | wait
  | spurious
  | wake
  | dequeue
  | recv (result : RecvResult 1023)
  | send (result : SendResult)
  | requeue
  | close
  | free

inductive Label (n : Nat)
  | main (l : MainStep n)
  | worker (w : Fin n) (l : WorkerStep)

variable {n : Nat}

namespace Pool

/-- Worker `w` goes to `pc`. -/
def goto (w : Fin n) (pc : WorkerPc) (s : Pool n) : Pool n :=
  { s with worker := Function.update s.worker w pc }

/-- A successful accept. -/
def accept (newFd : Nat) (s : Pool n) : Pool n :=
  let task := ⟨newFd, s.accepted.length⟩
  { s with
    main := .inserting task
    openFds := insert newFd s.openFds
    accepted := s.accepted ++ [task] }

def close (task : HandleConnectionTask) (s : Pool n) : Pool n :=
  { s with
    openFds := s.openFds.erase task.acceptedFd
    closed := s.closed ++ [task] }

def free (task : HandleConnectionTask) (s : Pool n) : Pool n :=
  { s with freed := s.freed ++ [task] }

end Pool

/-- `insert_task`. Without memory it returns with the lock held, and `main` exits. -/
def insertTask (task : HandleConnectionTask) (mallocOk : Bool) (s : Pool n) : Pool n :=
  if mallocOk then
    { s with
      taskQueue := s.taskQueue ++ [task]
      main := .waking
      allocated := s.allocated ++ [task] }
  else { s with status := .exited }

/-- `wakeup_threads`. -/
def wakeupThreads (woken : Option (Fin n)) (s : Pool n) : Option (Pool n) :=
  match woken with
  | some w =>
    if s.worker w = .waiting then some ({ s with main := .accepting }.goto w .woken) else none
  | none => if ∀ w, s.worker w ≠ .waiting then some { s with main := .accepting } else none

/-- The `while (true)` of `main`. -/
def mainLoop (l : MainStep n) (s : Pool n) : Option (Pool n) :=
  match s.main, l with
  | .accepting, .accept none => some { s with status := .exited }
  | .accepting, .accept (some newFd) =>
    if newFd ∈ s.openFds then none else some (s.accept newFd)
  | .inserting task, .insertTask mallocOk =>
    if s.lock = none then some (insertTask task mallocOk s) else none
  | .waking, .wakeupThreads woken => if s.lock = none then wakeupThreads woken s else none
  | _, _ => none

def ping : List UInt8 := bytesOf "ping"

/-- What follows the `recv` of a worker. -/
def afterRecv (task : HandleConnectionTask) : RecvResult 1023 → WorkerPc
  | .fail _ => .closing task
  | .data bytes _ =>
    if bytes = [] then .closing task
    else if strstr (filled 1024 bytes) ping then .sending task
    else .requeueing task

/-- What follows the `send` of a worker. -/
def afterSend (task : HandleConnectionTask) : SendResult → WorkerPc
  | .fail _ => .closing task
  | .sent k => if 0 < k then .requeueing task else .closing task

/-- `thread_func`. The test of the queue is an `if`: a worker that returns from
`pthread_cond_wait` goes on to the dequeue, which reads the first task. -/
def threadFunc (w : Fin n) (l : WorkerStep) (s : Pool n) : Option (Pool n) :=
  match s.worker w, l with
  | .top, .lock =>
    if s.lock = none then
      some ({ s with lock := some w }.goto w (if s.taskQueue = [] then .toWait else .past))
    else none
  | .toWait, .wait => some ({ s with lock := none }.goto w .waiting)
  | .waiting, .spurious => some (s.goto w .woken)
  | .woken, .wake =>
    if s.lock = none then some ({ s with lock := some w }.goto w .past) else none
  | .past, .dequeue =>
    match s.taskQueue with
    | [] => some { s with status := .crashed }
    | task :: rest => some ({ s with lock := none, taskQueue := rest }.goto w (.serving task))
  | .serving task, .recv result => some (s.goto w (afterRecv task result))
  | .sending task, .send result => some (s.goto w (afterSend task result))
  | .requeueing task, .requeue =>
    if s.lock = none then some ({ s with taskQueue := s.taskQueue ++ [task] }.goto w .top)
    else none
  | .closing task, .close => some ((s.close task).goto w (.freeing task))
  | .freeing task, .free => some ((s.free task).goto w .top)
  | _, _ => none

/-- One step of a thread, while the process runs. -/
def step (s : Pool n) (l : Label n) : Option (Pool n) :=
  if s.status = .running then
    match l with
    | .main l => mainLoop l s
    | .worker w l => threadFunc w l s
  else none

/-- The process when the threads have been created. -/
def start (n : Nat) (openFds : Finset Nat) : Pool n where
  status := .running
  lock := none
  taskQueue := []
  main := .accepting
  worker := fun _ => .top
  openFds := openFds
  accepted := []
  allocated := []
  closed := []
  freed := []

end LinuxNet.ThreadServer
