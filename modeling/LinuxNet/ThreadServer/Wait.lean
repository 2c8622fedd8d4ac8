-- SUMMARY: When a worker that goes past the wait finds a task, on every schedule.
import LinuxNet.ThreadServer.Steps

/-! # The wait

A worker that finds the queue empty waits, and goes on when it returns from
`pthread_cond_wait`. It does not test the queue again: a busy worker may have
taken the task, and a wakeup may be spurious. -/

namespace LinuxNet.ThreadServer

variable {n : Nat} {s t : Pool n} {l : Label n} {ls : List (Label n)} {w v : Fin n}
  {pc : WorkerPc} {openFds : Finset Nat}

/-- Between the test and the dequeue, or the wait, a worker has the lock. -/
def WorkerPc.Inside (pc : WorkerPc) : Prop := pc = .toWait ∨ pc = .past

theorem afterRecv_outside {task} (result) : ¬ (afterRecv task result).Inside := by
  unfold afterRecv WorkerPc.Inside
  split
  · simp
  · split
    · simp
    · split <;> simp

theorem afterSend_outside {task} (result) : ¬ (afterSend task result).Inside := by
  unfold afterSend WorkerPc.Inside
  split
  · simp
  · split <;> simp

namespace Pool

theorem goto_worker (pc : WorkerPc) (s : Pool n) :
    (s.goto w pc).worker v = if v = w then pc else s.worker v :=
  Function.update_apply _ _ _ _

/-! ## The lock -/

def Locked (s : Pool n) : Prop := ∀ w, (s.worker w).Inside → s.lock = some w

theorem Locked.outside (hs : s.Locked) (hpc : ¬ pc.Inside) : (s.goto w pc).Locked := by
  intro v hv
  rw [goto_worker] at hv
  split at hv
  · exact absurd hv hpc
  · exact hs v hv

theorem Locked.acquire (hs : s.Locked) (hlock : s.lock = none) :
    ({ s with lock := some w }.goto w pc).Locked := by
  intro v hv
  rw [goto_worker] at hv
  split at hv
  · rename_i hvw
    exact congrArg some hvw.symm
  · have hheld := hs v hv
    rw [hlock] at hheld
    cases hheld

theorem Locked.release (hs : s.Locked) (hw : (s.worker w).Inside) (hpc : ¬ pc.Inside) :
    ({ s with lock := none }.goto w pc).Locked := by
  intro v hv
  rw [goto_worker] at hv
  split at hv
  · exact absurd hv hpc
  · rename_i hne
    have hheld := (hs w hw).symm.trans (hs v hv)
    exact absurd (Option.some.inj hheld).symm hne

/-! ## The queue -/

/-- A worker past the wait finds a task in the queue, and none has read the
first task of an empty queue. -/
structure FindsTask (s : Pool n) : Prop where
  past : ∀ w, s.worker w = .past → s.taskQueue ≠ []
  not_crashed : s.status ≠ .crashed

theorem findsTask_goto (hstatus : s.status ≠ .crashed)
    (hold : ∀ v, v ≠ w → s.worker v = .past → s.taskQueue ≠ [])
    (hpc : pc = .past → s.taskQueue ≠ []) : (s.goto w pc).FindsTask := by
  refine ⟨fun v hv => ?_, hstatus⟩
  rw [goto_worker] at hv
  split at hv
  · exact hpc hv
  · exact hold v ‹_› hv

theorem FindsTask.outside (hs : s.FindsTask) (hpc : ¬ pc.Inside) : (s.goto w pc).FindsTask :=
  findsTask_goto hs.not_crashed (fun v _ => hs.past v) fun h => absurd (.inr h) hpc

end Pool

open Pool

theorem Moves.locked (h : Moves s l t) (hs : s.Locked) : t.Locked := by
  cases h with
  | acceptFail | accept | signalNone | dequeueNull => exact hs
  | insertTask mallocOk => cases mallocOk <;> exact hs
  | lock _ hlock | wake _ hlock => exact hs.acquire hlock
  | wait hw => exact hs.release (.inl hw) (by simp [WorkerPc.Inside])
  | dequeue hw => exact hs.release (.inr hw) (by simp [WorkerPc.Inside])
  | recv result => exact hs.outside (afterRecv_outside result)
  | send result => exact hs.outside (afterSend_outside result)
  | signal | spurious | requeue | close | free => exact hs.outside (by simp [WorkerPc.Inside])

/-- While the queue is not empty when a worker returns from the wait, every
worker past the wait finds a task: it has had the lock since. -/
theorem Moves.findsTask (h : Moves s l t) (hlock : s.Locked) (hs : s.FindsTask)
    (hwake : ∀ w, l = .worker w .wake → s.taskQueue ≠ []) : t.FindsTask := by
  cases h with
  | acceptFail => exact ⟨hs.past, nofun⟩
  | accept | signalNone => exact ⟨hs.past, hs.not_crashed⟩
  | insertTask mallocOk =>
    cases mallocOk with
    | false => exact ⟨hs.past, nofun⟩
    | true => exact ⟨fun _ _ => List.append_ne_nil_of_right_ne_nil _ (by simp), hs.not_crashed⟩
  | lock _ _ =>
    refine findsTask_goto hs.not_crashed (fun v _ => hs.past v) fun hpc => ?_
    split at hpc
    · cases hpc
    · assumption
  | wake => exact findsTask_goto hs.not_crashed (fun v _ => hs.past v) fun _ => hwake _ rfl
  | dequeueNull hw hqueue => exact absurd hqueue (hs.past _ hw)
  | dequeue hw _ =>
    refine findsTask_goto hs.not_crashed (fun v hne hv => ?_) nofun
    have hheld := (hlock _ (.inr hw)).symm.trans (hlock v (.inr hv))
    exact absurd (Option.some.inj hheld).symm hne
  | requeue => exact findsTask_goto hs.not_crashed (fun _ _ _ => by simp) nofun
  | recv result => exact hs.outside (afterRecv_outside result)
  | send result => exact hs.outside (afterSend_outside result)
  | signal | wait | spurious | close | free =>
    exact findsTask_goto hs.not_crashed (fun v _ => hs.past v) nofun

theorem Moves.taskQueue_of_wake (h : Moves s (.worker w .wake) t) (ht : t.FindsTask) :
    s.taskQueue ≠ [] := by
  cases h with
  | wake => exact ht.past w (by rw [goto_worker, if_pos rfl])

/-! ## Tasks put in and taken out -/

def Label.isPut : Label n → Bool
  | .main (.insertTask mallocOk) => mallocOk
  | .worker _ .requeue => true
  | _ => false

def Label.isTake : Label n → Bool
  | .worker _ .dequeue => true
  | _ => false

/-- The queue holds what was put in and not taken out. -/
theorem Moves.taskQueue_length (h : Moves s l t) (ht : t.status ≠ .crashed) :
    t.taskQueue.length + [l].countP Label.isTake =
      s.taskQueue.length + [l].countP Label.isPut := by
  cases h with
  | insertTask mallocOk =>
    cases mallocOk <;> simp [ThreadServer.insertTask, Label.isPut, Label.isTake]
  | dequeueNull => exact absurd rfl ht
  | dequeue _ hqueue => simp [Label.isPut, Label.isTake, hqueue, Pool.goto]
  | requeue => simp [Label.isPut, Label.isTake, Pool.goto]
  | acceptFail | accept | signalNone | signal | lock | wait | spurious | wake | recv | send
  | close | free => rfl

/-- On the schedule `ls`, more tasks have been put in than taken out whenever a
worker returns from the wait. -/
def Supplied (ls : List (Label n)) : Prop :=
  ∀ ls₁ w ls₂, ls = ls₁ ++ .worker w .wake :: ls₂ →
    ls₁.countP Label.isTake < ls₁.countP Label.isPut

theorem supplied_concat : Supplied (ls ++ [l]) ↔ Supplied ls ∧
    ∀ w, l = .worker w .wake → ls.countP Label.isTake < ls.countP Label.isPut := by
  constructor
  · intro h
    refine ⟨fun ls₁ w ls₂ hls => h ls₁ w (ls₂ ++ [l]) (by simp [hls]), ?_⟩
    rintro w rfl
    exact h ls w [] rfl
  · rintro ⟨hls, hl⟩ ls₁ w ls₂ heq
    cases ls₂ using List.reverseRecOn with
    | nil =>
      obtain ⟨rfl, hlast⟩ := List.append_inj' heq rfl
      exact hl w (List.singleton_inj.1 hlast)
    | append_singleton ls₂ l' =>
      rw [← List.cons_append, ← List.append_assoc] at heq
      exact hls ls₁ w ls₂ (List.append_inj' heq rfl).1

/-- What holds while every worker past the wait finds a task. -/
structure Supply (ls : List (Label n)) (s : Pool n) : Prop where
  locked : s.Locked
  findsTask : s.FindsTask
  length : s.taskQueue.length + ls.countP Label.isTake = ls.countP Label.isPut

theorem start_supply : Supply [] (start n openFds) where
  locked := by simp [Pool.Locked, start, WorkerPc.Inside]
  findsTask := ⟨by simp [start], by simp [start]⟩
  length := rfl

theorem Supply.next (hs : Supply ls s) (h : Moves s l t) (ht : t.FindsTask) :
    Supply (ls ++ [l]) t := by
  refine ⟨h.locked hs.locked, ht, ?_⟩
  have hlength := h.taskQueue_length ht.not_crashed
  have hold := hs.length
  rw [List.countP_append, List.countP_append]
  omega

theorem Supply.taskQueue_ne_nil (hs : Supply ls s) :
    s.taskQueue ≠ [] ↔ ls.countP Label.isTake < ls.countP Label.isPut := by
  rw [← List.length_pos_iff, ← hs.length]
  omega

theorem run_supply (h : Run (fun s l t => Step s l t ∧ t.FindsTask) (start n openFds) ls s) :
    Supply ls s := by
  induction h with
  | nil => exact start_supply
  | snoc _ hlast ih => exact ih.next hlast.1.moves.2 hlast.2

/-- A worker that goes past the wait finds a task throughout a run, if and only
if the run's schedule is supplied. -/
theorem findsTask_iff_supplied :
    Run (fun s l t => Step s l t ∧ t.FindsTask) (start n openFds) ls s ↔
      Run Step (start n openFds) ls s ∧ Supplied ls := by
  induction ls using List.reverseRecOn generalizing s with
  | nil =>
    have hnil : Supplied ([] : List (Label n)) := fun ls₁ w ls₂ h => by simp at h
    simp [Run.nil_iff, hnil]
  | append_singleton ls l ih =>
    simp only [Run.concat_iff, supplied_concat]
    constructor
    · rintro ⟨t, hrun, hstep, hfinds⟩
      obtain ⟨hrun', hls⟩ := ih.1 hrun
      refine ⟨⟨t, hrun', hstep⟩, hls, ?_⟩
      rintro w rfl
      exact (run_supply hrun).taskQueue_ne_nil.1 (hstep.moves.2.taskQueue_of_wake hfinds)
    · rintro ⟨⟨t, hrun, hstep⟩, hls, hl⟩
      have hrun' := ih.2 ⟨hrun, hls⟩
      have hsupply := run_supply hrun'
      refine ⟨t, hrun', hstep, hstep.moves.2.findsTask hsupply.locked hsupply.findsTask ?_⟩
      exact fun w hw => hsupply.taskQueue_ne_nil.2 (hl w hw)

/-- Worker 1 waits. The task of the first connection is inserted, worker 0 takes
it before the dispatcher signals, and worker 1 returns from the wait. -/
def stolenTask : List (Label 2) :=
  [.worker 1 .lock, .worker 1 .wait, .main (.accept (some 4)), .main (.insertTask true),
    .worker 0 .lock, .worker 0 .dequeue, .main (.wakeupThreads (some 1)), .worker 1 .wake]

/-- Worker 1 is past the wait with an empty queue, and its dequeue reads NULL. -/
theorem not_findsTask_stolenTask :
    (∃ s, Run Step (start 2 {3}) stolenTask s ∧ ¬ s.FindsTask) ∧
      ∃ s, Run Step (start 2 {3}) (stolenTask ++ [.worker 1 .dequeue]) s ∧
        s.status = .crashed := by
  refine ⟨⟨_, Run.foldlM_iff.2 rfl, fun h => ?_⟩, _, Run.foldlM_iff.2 rfl, rfl⟩
  exact h.past 1 rfl rfl

end LinuxNet.ThreadServer
