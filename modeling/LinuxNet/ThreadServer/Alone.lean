-- SUMMARY: Seen from one connection, the pool of workers is a server that has no other connection and no threads.
import LinuxNet.Base.Search
import LinuxNet.ThreadServer.Custody

/-! # One connection of the pool

The workers pass a connection on to each other through the queue. What they do with
it is what one server does that takes turns with nobody. -/

namespace LinuxNet.ThreadServer

/-- A call on a connection, and how it ends. -/
inductive Call
  | accept
  | recv (result : RecvResult 1023)
  | send (result : SendResult)
  | close

/-- Where a server is that has this connection only. -/
inductive Stage
  | absent
  | receiving
  | answering
  | closing
  | closed
  deriving DecidableEq, Repr

/-- It accepts the connection, answers every receive with a "ping" in it, and closes
the connection once a receive or a send has failed or returned nothing. -/
def serve : Stage → Call → Option Stage
  | .absent, .accept => some .receiving
  | .receiving, .recv (.fail _) => some .closing
  | .receiving, .recv (.data bytes _) =>
    some (if bytes = [] then .closing else if strstr bytes ping then .answering else .receiving)
  | .answering, .send (.fail _) => some .closing
  | .answering, .send (.sent k) => some (if 0 < k then .receiving else .closing)
  | .closing, .close => some .closed
  | _, _ => none

def Serve (a : Stage) (c : Call) (b : Stage) : Prop := serve a c = some b

variable {n : Nat}

/-- The calls on a connection that a step makes. -/
def callsOn (task : Task) (s : Pool n) : Label n → List Call
  | .main (.accept (some newFd)) => if task = ⟨newFd, s.accepted.length⟩ then [.accept] else []
  | .worker w (.recv result) => if s.worker w = .serving task then [.recv result] else []
  | .worker w (.send result) => if s.worker w = .sending task then [.send result] else []
  | .worker w .close => if s.worker w = .closing task then [.close] else []
  | _ => []

/-- Where the server of a connection is, while a worker has it. -/
def WorkerPc.stage : WorkerPc → Stage
  | .sending _ => .answering
  | .closing _ => .closing
  | _ => .receiving

/-- Where the server of a connection is. It is about to receive while it waits for a
worker, too. -/
inductive Pool.At (task : Task) (s : Pool n) : Stage → Prop
  | absent (h : task ∉ s.accepted) : At task s .absent
  | pending (h : s.pending = some task) : At task s .receiving
  | queued (h : task ∈ s.taskQueue) : At task s .receiving
  | held {w} (h : (s.worker w).held = some task) : At task s (s.worker w).stage
  | closed (h : task ∈ s.closed) : At task s .closed

open Pool

variable {s t : Pool n} {l : Label n} {ls : List (Label n)} {w : Fin n} {pc : WorkerPc}
  {openFds : Finset Nat} {task : Task} {a b : Stage}

/-- What is in one of the places has been accepted. -/
theorem mem_accepted (h : Reachable (· = start n openFds) Step s) (hplaces : 0 < s.places task) :
    task ∈ s.accepted := by
  by_contra hnot
  rw [places_accepted h task, if_neg hnot] at hplaces
  exact lt_irrefl 0 hplaces

theorem holders_pos (hw : (s.worker w).held = some task) : 0 < (s.holders task).card :=
  Finset.card_pos.2 ⟨w, by simp [holders, hw]⟩

/-- A connection that a worker has is nowhere else. -/
theorem Pool.At.eq_stage (h : Reachable (· = start n openFds) Step s)
    (hw : (s.worker w).held = some task) (hat : s.At task a) : a = (s.worker w).stage := by
  have hholders := holders_pos hw
  have hle := places_le_one h task
  unfold places at hle
  cases hat with
  | absent hnot =>
    refine absurd (mem_accepted h ?_) hnot
    unfold places
    omega
  | pending hpending =>
    rw [if_pos hpending] at hle
    omega
  | queued hmem =>
    have hcount := List.count_pos_iff.2 hmem
    omega
  | @held v hv =>
    have hcard : (s.holders task).card ≤ 1 := by omega
    rw [Finset.card_le_one.1 hcard w (by simp [holders, hw]) v (by simp [holders, hv])]
  | closed hmem =>
    have hcount := List.count_pos_iff.2 hmem
    omega

/-- A worker that goes on with a connection. -/
theorem Pool.at_held (hw : (s.worker w).held = some task) (hsame : t.worker w = s.worker w) :
    t.At task (s.worker w).stage := by
  rw [← hsame] at hw ⊢
  exact .held hw

/-- What leaves a connection at its stage. While it waits, it may move. -/
theorem Pool.At.carry (hat : s.At task a) (haccepted : task ∉ s.accepted → task ∉ t.accepted)
    (hpending : s.pending = some task → t.At task .receiving)
    (hqueue : task ∈ s.taskQueue → t.At task .receiving)
    (hclosed : task ∈ s.closed → task ∈ t.closed)
    (hworker : ∀ w, (s.worker w).held = some task → t.worker w = s.worker w) : t.At task a := by
  cases hat with
  | absent hnot => exact .absent (haccepted hnot)
  | pending h => exact hpending h
  | queued hmem => exact hqueue hmem
  | held hw => exact Pool.at_held hw (hworker _ hw)
  | closed hmem => exact .closed (hclosed hmem)

/-- What leaves a connection where it is. -/
theorem Pool.At.keep (hat : s.At task a) (haccepted : t.accepted = s.accepted)
    (hpending : t.pending = s.pending) (hqueue : t.taskQueue = s.taskQueue)
    (hclosed : t.closed = s.closed)
    (hworker : ∀ w, (s.worker w).held = some task → t.worker w = s.worker w) : t.At task a :=
  hat.carry (haccepted ▸ id) (fun h => .pending (hpending.trans h))
    (fun hmem => .queued (hqueue ▸ hmem)) (hclosed ▸ id) hworker

/-- A worker that has another connection, or none, leaves the others as they are. -/
theorem update_worker (hw : (s.worker w).held ≠ some task) (v : Fin n)
    (hv : (s.worker v).held = some task) : Function.update s.worker w pc v = s.worker v := by
  refine Function.update_of_ne ?_ _ _
  rintro rfl
  exact hw hv

theorem Pool.at_goto (hpc : pc.held = some task) : (s.goto w pc).At task pc.stage := by
  have hworker : (s.goto w pc).worker w = pc := Function.update_self ..
  have hat : (s.goto w pc).At task ((s.goto w pc).worker w).stage := .held (by rw [hworker, hpc])
  rwa [hworker] at hat

theorem stage_afterRecv (task : Task) (result : RecvResult 1023) :
    serve .receiving (.recv result) = some (afterRecv task result).stage := by
  cases result with
  | fail errno => rfl
  | data bytes hb =>
    rw [serve, afterRecv, strstr_filled]
    split_ifs <;> rfl

theorem stage_afterSend (task : Task) (result : SendResult) :
    serve .answering (.send result) = some (afterSend task result).stage := by
  cases result with
  | fail errno => rfl
  | sent k =>
    rw [serve, afterSend]
    split_ifs <;> rfl

/-! ## The steps -/

/-- A call that a worker makes on the connection it has, and goes on with. -/
theorem at_call {other : Task} {call : Call} (hreach : Reachable (· = start n openFds) Step s)
    (hat : s.At task a) (hheld : (s.worker w).held = some other) (hpc : pc.held = some other)
    (hserve : serve (s.worker w).stage call = some pc.stage) :
    ∃ b, Run Serve a (if other = task then [call] else []) b ∧ (s.goto w pc).At task b := by
  by_cases hother : other = task
  · subst hother
    obtain rfl := hat.eq_stage hreach hheld
    rw [if_pos rfl]
    exact ⟨_, .single hserve, Pool.at_goto hpc⟩
  · rw [if_neg hother]
    refine ⟨a, .nil, hat.keep rfl rfl rfl rfl (update_worker ?_)⟩
    rw [hheld]
    exact fun h => hother (Option.some.inj h)

/-- What the steps of the workers do about a connection. -/
theorem at_worker {l : WorkerStep} (hreach : Reachable (· = start n openFds) Step s)
    (h : Moves s (.worker w l) t) (hat : s.At task a) :
    ∃ b, Run Serve a (callsOn task s (.worker w l)) b ∧ t.At task b := by
  cases h with
  | lock hw | wait hw | spurious hw | wake hw =>
    exact ⟨a, .nil, hat.keep rfl rfl rfl rfl (update_worker (by rw [hw]; nofun))⟩
  | dequeueNull => exact ⟨a, .nil, hat.keep rfl rfl rfl rfl fun _ _ => rfl⟩
  | @dequeue _ first rest hw hqueue =>
    refine ⟨a, .nil, hat.carry id (fun h => .pending h) (fun hmem => ?_) id
      (update_worker (by rw [hw]; nofun))⟩
    rw [hqueue] at hmem
    rcases List.mem_cons.1 hmem with rfl | hmem
    · exact Pool.at_goto rfl
    · exact .queued hmem
  | @recv _ other result hw =>
    have hcalls : callsOn task s (.worker w (.recv result)) =
        if other = task then [.recv result] else [] := by simp [callsOn, hw]
    rw [hcalls]
    refine at_call hreach hat (by rw [hw]; rfl) (afterRecv_held result).1 ?_
    rw [hw]
    exact stage_afterRecv other result
  | @send _ other result hw =>
    have hcalls : callsOn task s (.worker w (.send result)) =
        if other = task then [.send result] else [] := by simp [callsOn, hw]
    rw [hcalls]
    refine at_call hreach hat (by rw [hw]; rfl) (afterSend_held result).1 ?_
    rw [hw]
    exact stage_afterSend other result
  | @requeue _ other hw =>
    refine ⟨a, .nil, ?_⟩
    by_cases hother : other = task
    · subst hother
      obtain rfl := hat.eq_stage hreach (w := w) (by rw [hw]; rfl)
      rw [hw]
      exact .queued (List.mem_append_right _ (List.mem_singleton_self _))
    · have hheld : (s.worker w).held ≠ some task := by simpa [hw, WorkerPc.held] using hother
      exact hat.carry id (fun h => .pending h)
        (fun hmem => .queued (List.mem_append_left _ hmem)) id (update_worker hheld)
  | @close _ other hw =>
    by_cases hother : other = task
    · subst hother
      obtain rfl := hat.eq_stage hreach (w := w) (by rw [hw]; rfl)
      refine ⟨.closed, ?_, .closed (List.mem_append_right _ (List.mem_singleton_self _))⟩
      rw [callsOn, if_pos hw, hw]
      exact .single rfl
    · have hheld : (s.worker w).held ≠ some task := by simpa [hw, WorkerPc.held] using hother
      refine ⟨a, ?_, ?_⟩
      · rw [callsOn, if_neg (by simp [hw, hother])]
        exact .nil
      · exact hat.carry id (fun h => .pending h) (fun hmem => .queued hmem)
          (List.mem_append_left _) (update_worker hheld)
  | @free _ other hw =>
    exact ⟨a, .nil, hat.keep rfl rfl rfl rfl (update_worker (by rw [hw]; nofun))⟩

/-- A connection is somewhere only once it has been accepted. -/
theorem Pool.At.eq_absent (hreach : Reachable (· = start n openFds) Step s)
    (hnot : task ∉ s.accepted) (hat : s.At task a) : a = .absent := by
  have hnowhere : s.places task = 0 := by rw [places_accepted hreach task, if_neg hnot]
  unfold places at hnowhere
  cases hat with
  | absent => rfl
  | pending h =>
    rw [if_pos h] at hnowhere
    omega
  | queued hmem =>
    have hcount := List.count_pos_iff.2 hmem
    omega
  | held hw =>
    have hholders := holders_pos hw
    omega
  | closed hmem =>
    have hcount := List.count_pos_iff.2 hmem
    omega

/-- What the steps of the dispatcher do about a connection. -/
theorem at_main {l : MainStep n} (hreach : Reachable (· = start n openFds) Step s)
    (h : Moves s (.main l) t) (hat : s.At task a) :
    ∃ b, Run Serve a (callsOn task s (.main l)) b ∧ t.At task b := by
  cases h with
  | acceptFail => exact ⟨a, .nil, hat.keep rfl rfl rfl rfl fun _ _ => rfl⟩
  | @accept newFd hmain =>
    have hfresh : (⟨newFd, s.accepted.length⟩ : Task) ∉ s.accepted := fun hmem =>
      lt_irrefl _ ((ledger_valid hreach).numbers _ (Multiset.mem_coe.2 hmem))
    by_cases hnew : task = ⟨newFd, s.accepted.length⟩
    · obtain rfl := hat.eq_absent hreach (hnew ▸ hfresh)
      refine ⟨.receiving, ?_, .pending (by rw [hnew]; rfl)⟩
      rw [callsOn, if_pos hnew]
      exact .single rfl
    · refine ⟨a, by rw [callsOn, if_neg hnew]; exact .nil, ?_⟩
      refine hat.carry (fun hnot hmem => ?_) (fun h => ?_) (fun hmem => .queued hmem) id
        fun _ _ => rfl
      · rcases List.mem_append.1 hmem with hmem | hmem
        · exact hnot hmem
        · exact hnew (List.mem_singleton.1 hmem)
      · rw [Pool.pending, hmain] at h
        cases h
  | @insertTask other mallocOk hmain =>
    cases mallocOk with
    | false => exact ⟨a, .nil, hat.keep rfl rfl rfl rfl fun _ _ => rfl⟩
    | true =>
      refine ⟨a, .nil, hat.carry id (fun h => ?_)
        (fun hmem => .queued (List.mem_append_left _ hmem)) id fun _ _ => rfl⟩
      rw [Pool.pending, hmain] at h
      cases h
      exact .queued (List.mem_append_right _ (List.mem_singleton_self _))
  | signal hmain _ hw =>
    refine ⟨a, .nil, hat.keep rfl ?_ rfl rfl (update_worker ?_)⟩
    · simp [Pool.pending, Pool.goto, hmain]
    · rw [hw]
      exact (Option.some_ne_none task).symm
  | signalNone hmain =>
    refine ⟨a, .nil, hat.keep rfl ?_ rfl rfl fun _ _ => rfl⟩
    simp [Pool.pending, hmain]

theorem at_step (hreach : Reachable (· = start n openFds) Step s) (h : Step s l t)
    (hat : s.At task a) : ∃ b, Run Serve a (callsOn task s l) b ∧ t.At task b := by
  cases l with
  | main l => exact at_main hreach h.moves.2 hat
  | worker w l => exact at_worker hreach h.moves.2 hat

/-! ## Runs -/

/-- A run from any reachable state takes the server of a connection along. -/
theorem at_run (hreach : Reachable (· = start n openFds) Step s) (hat : s.At task a)
    (h : Run Step s ls t) : ∃ b, Run Serve a (Run.shown step (callsOn task) s ls) b ∧
      t.At task b := by
  have hsim : ∀ s l t a, Reachable (· = start n openFds) Step s ∧ s.At task a →
      step s l = some t → ∃ b, Run Serve a (callsOn task s l) b ∧
        Reachable (· = start n openFds) Step t ∧ t.At task b := by
    intro s l t a hs hstep
    obtain ⟨b, hb, hat⟩ := at_step hs.1 hstep hs.2
    exact ⟨b, hb, hs.1.next hstep, hat⟩
  obtain ⟨b, hrun, -, hat⟩ := h.simulation_shown hsim ⟨hreach, hat⟩
  exact ⟨b, hrun, hat⟩

/-- On every schedule, the calls on a connection are those of a server that has this
connection only, and is where the pool is with it. -/
theorem served_alone (h : Run Step (start n openFds) ls s) (task : Task) :
    ∃ a, Run Serve .absent (Run.shown step (callsOn task) (start n openFds) ls) a ∧
      s.At task a :=
  at_run (.start rfl) (.absent List.not_mem_nil) h

theorem ping_length : (bytesOf "ping").length ≤ 1023 := by
  decide

/-- A connection on which "ping" comes is answered by a worker, and goes back to the queue. -/
def answeredBy (w : Fin n) : List (Label n) :=
  [.worker w .lock, .worker w .wait, .main (.accept (some 4)), .main (.insertTask true),
    .main (.wakeupThreads (some w)), .worker w .wake, .worker w .dequeue,
    .worker w (.recv (.data (bytesOf "ping") ping_length)), .worker w (.send (.sent 4)),
    .worker w .requeue]

def onePing : List (Label 1) := answeredBy (Fin.last 0)

def onePingPool : Pool 1 := (onePing.foldlM step (start 1 {3})).get (by decide)

theorem onePing_run : Run Step (start 1 {3}) onePing onePingPool :=
  Run.foldlM_iff.2 (Option.some_get _).symm

theorem served_alone_onePing :
    Run.shown step (callsOn ⟨4, 0⟩) (start 1 {3}) onePing =
        [.accept, .recv (.data (bytesOf "ping") (by decide)), .send (.sent 4)] ∧
      ∃ a, Run Serve .absent (Run.shown step (callsOn ⟨4, 0⟩) (start 1 {3}) onePing) a ∧
        onePingPool.At ⟨4, 0⟩ a :=
  ⟨rfl, served_alone onePing_run ⟨4, 0⟩⟩

/-! ## Answers -/

/-- There is a "ping" in what has been received. -/
def Call.asks : Call → Bool
  | .recv (.data bytes _) => strstr bytes ping
  | _ => false

def Call.answers : Call → Bool
  | .send _ => true
  | _ => false

/-- The server answers every receive with a "ping" in it, except for the one it is at. -/
theorem serve_answers {calls : List Call} (h : Run Serve .absent calls a) :
    calls.countP Call.answers + (if a = .answering then 1 else 0) = calls.countP Call.asks := by
  have hnil : strstr [] ping = false := by decide
  refine (h.count_balance (I := fun _ => True) Call.answers Call.asks
    (fun a => if a = .answering then 1 else 0) ?_ trivial).2
  intro a c b _ hserve
  refine ⟨trivial, ?_⟩
  unfold Serve serve at hserve
  split at hserve <;> cases hserve
  · rfl
  · rfl
  · rename_i bytes hb
    by_cases hbytes : bytes = []
    · simp [Call.answers, Call.asks, hbytes, hnil]
    · cases hping : strstr bytes ping <;> simp [Call.answers, Call.asks, hbytes, hping]
  · rfl
  · rename_i k
    by_cases hk : 0 < k <;> simp [Call.answers, Call.asks, hk]
  · rfl

/-- On every schedule, a connection is answered once for every receive with a "ping" in
it, except for the one whose answer a worker is about to send. -/
theorem connection_answered (h : Run Step (start n openFds) ls s) (task : Task) :
    (Run.shown step (callsOn task) (start n openFds) ls).countP Call.answers +
        (if ∃ w, s.worker w = .sending task then 1 else 0) =
      (Run.shown step (callsOn task) (start n openFds) ls).countP Call.asks := by
  have hstart : (start n openFds).At task .absent := .absent List.not_mem_nil
  obtain ⟨a, hrun, hat⟩ := at_run (.start rfl) hstart h
  have hreach : Reachable (· = start n openFds) Step s := ⟨_, ls, rfl, h⟩
  have hanswering : a = .answering ↔ ∃ w, s.worker w = .sending task := by
    constructor
    · rintro rfl
      generalize hb : Stage.answering = b at hat
      cases hat with
      | @held w hw =>
        refine ⟨w, ?_⟩
        revert hb hw
        cases s.worker w <;> simp [WorkerPc.stage, WorkerPc.held]
      | _ => cases hb
    · rintro ⟨w, hw⟩
      rw [hat.eq_stage hreach (w := w) (by rw [hw]; rfl), hw]
      rfl
  simp only [← hanswering]
  exact serve_answers hrun

theorem connection_answered_onePing :
    (Run.shown step (callsOn ⟨4, 0⟩) (start 1 {3}) onePing).countP Call.asks = 1 ∧
      (Run.shown step (callsOn ⟨4, 0⟩) (start 1 {3}) onePing).countP Call.answers +
          (if ∃ w, onePingPool.worker w = .sending ⟨4, 0⟩ then 1 else 0) = 1 :=
  ⟨by decide, connection_answered onePing_run ⟨4, 0⟩⟩

end LinuxNet.ThreadServer
