-- SUMMARY: The event loop with the server's own connection handler: when each client is served as it is accepted.
import LinuxNet.Base.Unused
import LinuxNet.HttpServer.Dispatch
import LinuxNet.HttpServer.Segmented
import Mathlib.Data.Finset.Image

/-! # Serving clients

The handler never returns `WAITING`, so that it is called once for a client. A
client is handled in the round that accepts it, if the part of the array that is
not initialised lets it. -/

namespace LinuxNet.HttpServer

/-- What happens outside of the server in a round: the results of poll, and those
of accept and recv for each slot. -/
structure Traffic where
  poll : Option (Nat → Events)
  accept : Nat → Option Nat
  recv : Nat → RecvResult messageSize

def Traffic.input (env : Environment) (t : Traffic) : RoundInput where
  poll := t.poll
  accept := t.accept
  handle i := (handleClient env (t.recv i)).toOption.map Prod.fst

/-- Poll waits for an event, and POLLIN is all that is reported of a listening socket. -/
def Traffic.Polls (t : Traffic) (s : Server) : Prop :=
  ∀ revents ∈ t.poll, (∃ i < s.nfds, revents i ≠ 0) ∧
    ∀ i < s.nfds, (s.fds i).fd = s.sockServer → revents i ≠ 0 → (revents i).has pollIn

/-- A round, with the calls that the server makes. -/
structure Turn where
  traffic : Traffic
  calls : List Call

def Serving (env : Environment) (s : Server) (turn : Turn) (s' : Server) : Prop :=
  Round s (turn.traffic.input env) s' ∧ turn.traffic.Polls s ∧ turn.calls = s'.calls

/-- What `send` is called with for a call of the handler. -/
def Traffic.answer (env : Environment) (t : Traffic) : Call → Option (Int × Bytes)
  | .handle i fd =>
    match handleClient env (t.recv i) with
    | .ok (_, some response) => some (fd, response)
    | _ => none
  | _ => none

def Turn.sent (env : Environment) (turn : Turn) : List (Int × Bytes) :=
  turn.calls.filterMap (turn.traffic.answer env)

/-- The calls of a round that serves the client it accepts, unless the handler throws. -/
def Turn.expected (env : Environment) (turn : Turn) : List Call :=
  match turn.traffic.accept 0 with
  | none => []
  | some fd =>
    match handleClient env (turn.traffic.recv 1) with
    | .ok _ => [.accept fd, .handle 1 fd, .close fd]
    | .error _ => [.accept fd, .handle 1 fd]

/-- The listening socket is alone in the table, and what is left open has been open
before the first client. -/
structure Server.Idle (stale : Events) (openFds : Finset Int) (s : Server) : Prop where
  table : s.Table
  alone : s.nfds = 1
  revents : (s.fds 1).revents = stale
  openFds : s.openFds = openFds

variable {env : Environment} {s s' : Server} {turn : Turn} {t : Traffic} {stale : Events}
  {openFds : Finset Int} {fd : Nat} {turns : List Turn}

/-! ## A round -/

theorem handleClient_ne_waiting {r : RecvResult messageSize} {activity : ClientActivity}
    {response : Option Bytes} (h : handleClient env r = .ok (activity, response)) :
    activity ≠ .waiting := by
  rintro rfl
  cases r with
  | fail errno => cases h
  | data bytes hle =>
    simp only [handleClient] at h
    split at h
    · cases h
    · obtain ⟨response', -, h⟩ := Except.bind_eq_ok.1 h
      split at h
      · cases h
      · obtain ⟨h, -⟩ := Prod.mk.inj (Except.ok.inj h)
        split at h <;> cases h

/-- Where only the listening socket is polled, it is ready. -/
theorem Server.Idle.ready (h : s.Idle stale openFds) (hpolls : t.Polls s)
    {revents : Nat → Events} (hpoll : t.poll = some revents) : (revents 0).has pollIn := by
  obtain ⟨⟨i, hi, hevent⟩, hlistener⟩ := hpolls revents hpoll
  have hi0 : i = 0 := by
    have halone := h.alone
    omega
  exact hlistener 0 (hi0 ▸ hi) h.table.listener (hi0 ▸ hevent)

theorem polls_pollIn (hpoll : t.poll = some fun _ => pollIn) (hpos : 0 < s.nfds) : t.Polls s := by
  have hevent : pollIn ≠ 0 := by decide
  have hhas : Events.has pollIn pollIn = true := by decide
  intro revents hrevents
  obtain rfl := Option.some.inj (hpoll.symm.trans hrevents)
  exact ⟨⟨0, hpos, hevent⟩, fun _ _ _ _ => hhas⟩

/-- The client in the second slot is dropped, and with it all that the round has changed. -/
theorem Server.Idle.dropped {u : Server} (h : u.Table) (halone : u.nfds = 2)
    (hstale : (u.fds 1).revents = stale) (hfd : (u.fds 1).fd = fd)
    (hopen : u.openFds = insert (fd : Int) openFds) (hnew : (fd : Int) ∉ openFds)
    (hsock : u.sockServer ∈ openFds) :
    ((u.record (.handle 1 fd)).dropClient 1).Idle stale openFds where
  table := by
    refine ⟨h.running, ?_, h.nonneg, ?_, .inl (by simp [Server.dropClient, Server.record, halone])⟩
    · simpa [Server.dropClient, Server.record] using h.listener
    · have hne : u.sockServer ≠ fd := fun he => hnew (he ▸ hsock)
      simpa [Server.dropClient, Server.record, hfd, hne] using h.isOpen
  alone := by simp [Server.dropClient, Server.record, halone]
  revents := by simpa [Server.dropClient, Server.record] using hstale
  openFds := by
    simp [Server.dropClient, Server.record, hfd, hopen, Finset.erase_insert hnew]

/-- A round serves the client it accepts, unless there is POLLIN in the slot of the client
already. -/
theorem Server.Idle.serving (h : s.Idle stale openFds) (hstale : stale.has pollIn = false)
    (hstep : Serving env s turn s') :
    turn.calls = turn.expected env ∧ (s'.running → s'.Idle stale openFds) := by
  obtain ⟨⟨hrunning, hfresh, hround⟩, hpolls, hcalls⟩ := hstep
  obtain ⟨revents, hpoll, rfl⟩ := Option.map_eq_some_iff.1 hround
  have hready := h.ready hpolls hpoll
  rw [hcalls, Turn.expected, h.table.visitFrom_poll, h.table.visit_zero _ hready]
  cases haccept : turn.traffic.accept 0 with
  | none =>
    have hnone : (turn.traffic.input env).accept 0 = none := haccept
    rw [hnone, Option.elim_none, visitFrom,
      if_neg fun hlt => absurd hlt.1 (by simp [Server.poll, h.alone])]
    refine ⟨rfl, fun _ => ⟨⟨hrunning, ?_, h.table.nonneg, h.table.isOpen, .inl h.alone⟩, h.alone, ?_,
      h.openFds⟩⟩
    · rw [poll_fd]
      exact h.table.listener
    · simpa [Server.poll, h.alone] using h.revents
  | some fd =>
    have hsome : (turn.traffic.input env).accept 0 = some fd := haccept
    have hnew : (fd : Int) ∉ s.openFds := hfresh 0 fd hsome
    have hne : (fd : Int) ≠ s.sockServer := fun he => hnew (he ▸ h.table.isOpen)
    obtain ⟨htable, hn, hsock, haccepted, hfd, hrevents⟩ := h.table.addClient revents h.alone hne
    have hopen : ((s.poll revents).addClient fd).openFds = insert (fd : Int) openFds := by
      have hroom : (s.poll revents).nfds < maxConnection := by
        simp [Server.poll, h.alone, maxConnection]
      rw [addClient_room hroom, ← h.openFds]
      rfl
    rw [hsome, Option.elim_some, visitFrom, if_pos ⟨by omega, htable.running⟩, visitFrom, visit,
      if_neg (by rw [hrevents, h.revents, hstale]; exact Bool.false_ne_true)]
    rw [hfd]
    cases hhandle : handleClient env (turn.traffic.recv 1) with
    | error e =>
      have hinput : (turn.traffic.input env).handle 1 = none := by
        simp [Traffic.input, hhandle, Except.toOption]
      rw [hinput]
      refine ⟨?_, fun hstopped => ?_⟩
      · simp [Server.record, haccepted]
      · cases hstopped
    | ok result =>
      obtain ⟨activity, response⟩ := result
      have hinput : (turn.traffic.input env).handle 1 = some activity := by
        simp [Traffic.input, hhandle, Except.toOption]
      rw [hinput]
      simp only [handleClient_ne_waiting hhandle, ne_eq, not_false_iff, if_true]
      refine ⟨?_, fun _ => .dropped htable hn (hrevents.trans h.revents) hfd hopen
        (h.openFds ▸ hnew) ?_⟩
      · simp [Server.dropClient, Server.record, haccepted, hfd]
      · rw [hsock, ← h.openFds]
        exact h.table.isOpen

/-! ## Runs -/

theorem idle_startUp {sockServer : Nat} (junk : Nat → PollFd) (hopen : (sockServer : Int) ∈ openFds) :
    (startUp sockServer junk openFds).Idle (junk 1).revents openFds where
  table := Start.table ⟨sockServer, junk, openFds, hopen, rfl⟩
  alone := rfl
  revents := by simp [startUp]
  openFds := rfl

theorem serving_run {sockServer : Nat} {junk : Nat → PollFd} (hopen : (sockServer : Int) ∈ openFds)
    (hstale : (junk 1).revents.has pollIn = false)
    (hrun : Run (Serving env) (startUp sockServer junk openFds) turns s) :
    (s.running → s.Idle (junk 1).revents openFds) ∧
      ∀ turn ∈ turns, turn.calls = turn.expected env := by
  refine hrun.forall_label (I := fun s => s.running → s.Idle (junk 1).revents openFds)
    (fun s turn s' hidle hstep => ?_) fun _ => idle_startUp junk hopen
  obtain ⟨hcalls, hnext⟩ := (hidle hstep.1.1).serving hstale hstep
  exact ⟨hnext, hcalls⟩

/-- A client connects, and nothing can be received from it. -/
def unserved (fd : Nat) : Traffic := ⟨some fun _ => pollIn, fun _ => some fd, fun _ => .fail ebadf⟩

/-- With POLLIN in the slot, the first client is left waiting. -/
theorem exists_unserved (env : Environment) {sockServer : Nat} {junk : Nat → PollFd}
    (hopen : (sockServer : Int) ∈ openFds) (hstale : (junk 1).revents.has pollIn) :
    ∃ turn s, Run (Serving env) (startUp sockServer junk openFds) [turn] s ∧
      turn.calls ≠ turn.expected env := by
  obtain ⟨fd, hfd⟩ : ∃ fd, fd ∉ openFds.image Int.toNat := ⟨_, lowestUnused_notMem _⟩
  have hnew : (fd : Int) ∉ openFds := fun hmem => hfd (Finset.mem_image.2 ⟨fd, hmem, rfl⟩)
  have hidle := idle_startUp junk hopen
  have hne : (fd : Int) ≠ sockServer := fun he => hnew (he ▸ hopen)
  obtain ⟨htable, hn, hsock, hcalls, hclient, hrevents⟩ :=
    hidle.table.addClient (fun _ => pollIn) hidle.alone hne
  have hround : visitFrom ((unserved fd).input env) maxConnection 0
      ((startUp sockServer junk openFds).poll fun _ => pollIn) =
        ((startUp sockServer junk openFds).poll fun _ => pollIn).addClient fd := by
    rw [hidle.table.visitFrom_poll, hidle.table.visit_zero _ (by decide)]
    change visitFrom _ 1 1
      (((startUp sockServer junk openFds).poll fun _ => pollIn).addClient fd) = _
    rw [visitFrom, if_pos ⟨by omega, htable.running⟩, visitFrom, visit_client]
    · rw [hrevents, hidle.revents]
      exact hstale
    · rw [hclient, hsock]
      exact hne
  refine ⟨⟨unserved fd, [.accept fd]⟩, _, .single ⟨⟨rfl, ?_, rfl⟩, ?_, ?_⟩, ?_⟩
  · rintro _ _ ⟨rfl⟩
    exact hnew
  · exact polls_pollIn rfl Nat.one_pos
  · exact (hround ▸ hcalls).symm
  · simp [Turn.expected, unserved, handleClient]

/-- Every round serves the client it accepts, and leaves the server as it was before,
if and only if there happens to be no POLLIN in the second slot of the array. -/
theorem serves_accepted_iff {sockServer : Nat} (env : Environment) (junk : Nat → PollFd)
    (hopen : (sockServer : Int) ∈ openFds) :
    (∀ turns s, Run (Serving env) (startUp sockServer junk openFds) turns s →
      (∀ turn ∈ turns, turn.calls = turn.expected env) ∧
        (s.running → s.nfds = 1 ∧ s.openFds = openFds)) ↔
      (junk 1).revents.has pollIn = false := by
  constructor
  · intro hall
    by_contra hstale
    obtain ⟨turn, s, hrun, hne⟩ := exists_unserved env hopen (Bool.eq_true_of_not_eq_false hstale)
    exact hne ((hall _ _ hrun).1 turn (List.mem_singleton_self turn))
  · intro hstale turns s hrun
    obtain ⟨hidle, hcalls⟩ := serving_run hopen hstale hrun
    exact ⟨hcalls, fun hs => ⟨(hidle hs).alone, (hidle hs).openFds⟩⟩

def zeroed : Nat → PollFd := fun _ => ⟨0, 0, 0⟩

/-- The environment in which every directory has an empty page. -/
def emptyPages : Environment := ⟨stringLimits, directories, srv, fun b => .sent b.length⟩

theorem getRequest_length : getRequest.render.length ≤ messageSize := by
  decide

/-- A client that asks for the page of the status 200. -/
def asking : Traffic :=
  ⟨some fun _ => pollIn, fun _ => some 4, fun _ => .data getRequest.render getRequest_length⟩

theorem asking_run : ∃ calls s,
    Run (Serving emptyPages) (startUp 3 zeroed {3}) [⟨asking, calls⟩] s := by
  obtain ⟨s, hround⟩ : ∃ s, round (asking.input emptyPages) (startUp 3 zeroed {3}) = some s :=
    ⟨_, rfl⟩
  refine ⟨s.calls, s, .single ⟨⟨rfl, ?_, hround⟩, ?_, rfl⟩⟩
  · rintro _ _ ⟨rfl⟩
    decide
  · exact polls_pollIn rfl Nat.one_pos

theorem serves_accepted_iff_zeroed : ∃ calls s,
    Run (Serving emptyPages) (startUp 3 zeroed {3}) [⟨asking, calls⟩] s ∧
      calls = Turn.expected emptyPages ⟨asking, calls⟩ := by
  obtain ⟨calls, s, hrun⟩ := asking_run
  have hopen : ((3 : Nat) : Int) ∈ ({3} : Finset Int) := by decide
  have hserved := (serves_accepted_iff emptyPages zeroed hopen).2 (by decide) _ _ hrun
  exact ⟨calls, s, hrun, hserved.1 _ (List.mem_singleton_self _)⟩

/-! ## Responses -/

/-- A client that has been accepted, and whose request can be received and answered. -/
theorem sent_of_expected {bytes response : Bytes} {hle : bytes.length ≤ messageSize}
    (hcalls : turn.calls = turn.expected env) (haccept : turn.traffic.accept 0 = some fd)
    (hrecv : turn.traffic.recv 1 = .data bytes hle) (hne : bytes ≠ [])
    (hrespond : respond env (cString (filled messageSize bytes)) = .ok response) :
    turn.calls = [.accept fd, .handle 1 fd, .close fd] ∧
      turn.sent env = [((fd : Int), response)] := by
  obtain ⟨activity, hhandle⟩ : ∃ activity,
      handleClient env (turn.traffic.recv 1) = .ok (activity, some response) := by
    simp only [hrecv, handleClient, if_neg hne, hrespond, Except.bind_ok]
    split <;> exact ⟨_, rfl⟩
  have hexpected : turn.expected env = [.accept fd, .handle 1 fd, .close fd] := by
    simp only [Turn.expected, haccept, hhandle]
  refine ⟨hcalls.trans hexpected, ?_⟩
  rw [Turn.sent, hcalls, hexpected]
  simp only [List.filterMap_cons, Traffic.answer, hhandle, List.filterMap_nil]

/-- Whoever connects and sends a request that arrives as a whole is sent the page that the
router finds for it, and nothing else, however many clients there have been before. -/
theorem request_answered {sockServer : Nat} {junk : Nat → PollFd} {response : HTTPResponse}
    (hopen : (sockServer : Int) ∈ openFds) (hstale : (junk 1).revents.has pollIn = false)
    (hrun : Run (Serving env) (startUp sockServer junk openFds) turns s) (hturn : turn ∈ turns)
    (haccept : turn.traffic.accept 0 = some fd) (r : WireRequest)
    (hlt : r.render.length < messageSize) (hzero : 0 ∉ r.render)
    (hmemory : r.render.length ≤ env.limits.memory)
    (hrecv : turn.traffic.recv 1 = .data r.render hlt.le)
    (hroute : routeNames env.fs env.cwd (UnixPath.names (httpRootPath ++ r.path)) = .ok response) :
    turn.calls = [.accept fd, .handle 1 fd, .close fd] ∧
      turn.sent env = [((fd : Int), response.toBytes)] := by
  have hcalls := (serving_run hopen hstale hrun).2 turn hturn
  have hself : cString (filled messageSize r.render) = r.render := by
    rw [cString_filled]
    exact cString_eq_self hzero
  have hpath : 0 ∉ r.path := fun hin => hzero (r.mem_render 0 hin)
  have hrespond : respond env (cString (filled messageSize r.render)) = .ok response.toBytes := by
    rw [hself, respond_render r hmemory hpath, hroute]
    rfl
  exact sent_of_expected hcalls haccept hrecv r.render_ne_nil hrespond

theorem request_answered_get : ∃ calls s,
    Run (Serving emptyPages) (startUp 3 zeroed {3}) [⟨asking, calls⟩] s ∧
      Turn.sent emptyPages ⟨asking, calls⟩ =
        [(4, HTTPResponse.toBytes (HTTPResponse.setBody [] ⟨http200, [], []⟩))] := by
  obtain ⟨calls, s, hrun⟩ := asking_run
  refine ⟨calls, s, hrun, ?_⟩
  have hopen : ((3 : Nat) : Int) ∈ ({3} : Finset Int) := by decide
  exact (request_answered hopen (by decide) hrun (List.mem_singleton_self _) rfl getRequest
    (by decide) (by decide) (by decide) rfl rfl).2

end LinuxNet.HttpServer
