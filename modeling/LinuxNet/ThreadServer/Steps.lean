-- SUMMARY: What each step of the worker-pool server does, and when it can be taken.
import LinuxNet.Base.Transition
import LinuxNet.ThreadServer.Server

/-! # The steps of the pool -/

namespace LinuxNet.ThreadServer

variable {n : Nat}

def Step (s : Pool n) (l : Label n) (t : Pool n) : Prop := step s l = some t

/-- The steps of a running process, one by one. -/
inductive Moves (s : Pool n) : Label n → Pool n → Prop
  | acceptFail (hmain : s.main = .accepting) :
    Moves s (.main (.accept none)) { s with status := .exited }
  | accept {newFd} (hmain : s.main = .accepting) (hfd : newFd ∉ s.openFds) :
    Moves s (.main (.accept (some newFd))) (s.accept newFd)
  | insertTask {task} (mallocOk) (hmain : s.main = .inserting task) (hlock : s.lock = none) :
    Moves s (.main (.insertTask mallocOk)) (insertTask task mallocOk s)
  | signal {w} (hmain : s.main = .waking) (hlock : s.lock = none) (hw : s.worker w = .waiting) :
    Moves s (.main (.wakeupThreads (some w))) ({ s with main := .accepting }.goto w .woken)
  | signalNone (hmain : s.main = .waking) (hlock : s.lock = none)
      (hw : ∀ w, s.worker w ≠ .waiting) :
    Moves s (.main (.wakeupThreads none)) { s with main := .accepting }
  | lock {w} (hw : s.worker w = .top) (hlock : s.lock = none) :
    Moves s (.worker w .lock)
      ({ s with lock := some w }.goto w (if s.taskQueue = [] then .toWait else .past))
  | wait {w} (hw : s.worker w = .toWait) :
    Moves s (.worker w .wait) ({ s with lock := none }.goto w .waiting)
  | spurious {w} (hw : s.worker w = .waiting) : Moves s (.worker w .spurious) (s.goto w .woken)
  | wake {w} (hw : s.worker w = .woken) (hlock : s.lock = none) :
    Moves s (.worker w .wake) ({ s with lock := some w }.goto w .past)
  | dequeueNull {w} (hw : s.worker w = .past) (hqueue : s.taskQueue = []) :
    Moves s (.worker w .dequeue) { s with status := .crashed }
  | dequeue {w task rest} (hw : s.worker w = .past) (hqueue : s.taskQueue = task :: rest) :
    Moves s (.worker w .dequeue)
      ({ s with lock := none, taskQueue := rest }.goto w (.serving task))
  | recv {w task} (result) (hw : s.worker w = .serving task) :
    Moves s (.worker w (.recv result)) (s.goto w (afterRecv task result))
  | send {w task} (result) (hw : s.worker w = .sending task) :
    Moves s (.worker w (.send result)) (s.goto w (afterSend task result))
  | requeue {w task} (hw : s.worker w = .requeueing task) (hlock : s.lock = none) :
    Moves s (.worker w .requeue) ({ s with taskQueue := s.taskQueue ++ [task] }.goto w .top)
  | close {w task} (hw : s.worker w = .closing task) :
    Moves s (.worker w .close) ((s.close task).goto w (.freeing task))
  | free {w task} (hw : s.worker w = .freeing task) :
    Moves s (.worker w .free) ((s.free task).goto w .top)

variable {s t : Pool n} {l : Label n} {w : Fin n}

theorem wakeupThreads_moves {woken : Option (Fin n)} (hmain : s.main = .waking)
    (hlock : s.lock = none) (h : wakeupThreads woken s = some t) :
    Moves s (.main (.wakeupThreads woken)) t := by
  unfold wakeupThreads at h
  split at h
  · obtain ⟨hw, h⟩ := Option.ite_none_right_eq_some.1 h
    obtain rfl := Option.some.inj h
    exact .signal hmain hlock hw
  · obtain ⟨hw, h⟩ := Option.ite_none_right_eq_some.1 h
    obtain rfl := Option.some.inj h
    exact .signalNone hmain hlock hw

theorem mainLoop_moves {l : MainStep n} (h : mainLoop l s = some t) : Moves s (.main l) t := by
  unfold mainLoop at h
  split at h
  · obtain rfl := Option.some.inj h
    exact .acceptFail ‹_›
  · obtain ⟨hfd, h⟩ := Option.ite_none_left_eq_some.1 h
    obtain rfl := Option.some.inj h
    exact .accept ‹_› hfd
  · obtain ⟨hlock, h⟩ := Option.ite_none_right_eq_some.1 h
    obtain rfl := Option.some.inj h
    exact .insertTask _ ‹_› hlock
  · obtain ⟨hlock, h⟩ := Option.ite_none_right_eq_some.1 h
    exact wakeupThreads_moves ‹_› hlock h
  · cases h

theorem threadFunc_moves {l : WorkerStep} (h : threadFunc w l s = some t) :
    Moves s (.worker w l) t := by
  unfold threadFunc at h
  split at h
  · obtain ⟨hlock, h⟩ := Option.ite_none_right_eq_some.1 h
    obtain rfl := Option.some.inj h
    exact .lock ‹_› hlock
  · obtain rfl := Option.some.inj h
    exact .wait ‹_›
  · obtain rfl := Option.some.inj h
    exact .spurious ‹_›
  · obtain ⟨hlock, h⟩ := Option.ite_none_right_eq_some.1 h
    obtain rfl := Option.some.inj h
    exact .wake ‹_› hlock
  · split at h
    · obtain rfl := Option.some.inj h
      exact .dequeueNull ‹_› ‹_›
    · obtain rfl := Option.some.inj h
      exact .dequeue ‹_› ‹_›
  · obtain rfl := Option.some.inj h
    exact .recv _ ‹_›
  · obtain rfl := Option.some.inj h
    exact .send _ ‹_›
  · obtain ⟨hlock, h⟩ := Option.ite_none_right_eq_some.1 h
    obtain rfl := Option.some.inj h
    exact .requeue ‹_› hlock
  · obtain rfl := Option.some.inj h
    exact .close ‹_›
  · obtain rfl := Option.some.inj h
    exact .free ‹_›
  · cases h

theorem Step.moves (h : Step s l t) : s.status = .running ∧ Moves s l t := by
  obtain ⟨hrun, h⟩ := Option.ite_none_right_eq_some.1 h
  cases l with
  | main l => exact ⟨hrun, mainLoop_moves h⟩
  | worker w l => exact ⟨hrun, threadFunc_moves h⟩

end LinuxNet.ThreadServer
