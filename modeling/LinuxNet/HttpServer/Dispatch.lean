-- SUMMARY: When the HTTP server hands exactly the reported clients to its client handler, in every round of a run.
import LinuxNet.Base.Transition
import LinuxNet.HttpServer.Server

/-! # Which slots the event loop handles

`handle_client` is called on the slots without POLLIN, and a table of
`MAX_CONNECTION` slots has room for one client next to the listening socket. So
a round handles the reported clients, and no others, only if it handles none. -/

namespace LinuxNet.HttpServer

variable {s s' : Server} {inp : RoundInput}

/-- The round calls `handle_client` on exactly the slots that hold a client
reported by its poll, and so not on the listening socket, which stays open and
in slot 0. -/
def Lawful (inp : RoundInput) (s s' : Server) : Prop :=
  ∀ revents ∈ inp.poll,
    (∀ i fd, Call.handle i fd ∈ s'.calls ↔
      i < s.nfds ∧ (s.fds i).fd = fd ∧ fd ≠ s.sockServer ∧ (revents i).has pollIn) ∧
    Call.close s.sockServer ∉ s'.calls ∧ (s'.fds 0).fd = s.sockServer

/-- The listening socket is alone in the table, and it is ready; and accept
fails, or POLLIN happens to be set in the slot of the new client. -/
def RoundInput.Safe (inp : RoundInput) (s : Server) : Prop :=
  ∀ revents ∈ inp.poll, s.nfds = 1 ∧ (revents 0).has pollIn ∧
    (inp.accept 0 = none ∨ (s.fds 1).revents.has pollIn)

/-- The table of a state that a lawful run reaches. -/
structure Server.Table (s : Server) : Prop where
  running : s.running = true
  listener : (s.fds 0).fd = s.sockServer
  nonneg : 0 ≤ s.sockServer
  isOpen : s.sockServer ∈ s.openFds
  client : s.nfds = 1 ∨ s.nfds = 2 ∧ 0 ≤ (s.fds 1).fd ∧ (s.fds 1).fd ≠ s.sockServer

/-! ## Visiting slots -/

/-- What is recorded stays recorded. -/
theorem mem_visit_calls {i : Nat} {call : Call} (h : call ∈ s.calls) :
    call ∈ (visit inp i s).calls := by
  unfold visit Server.addClient Server.dropClient Server.record
  dsimp only
  split
  · split
    · split
      · exact h
      · split <;> exact List.mem_append_left _ h
    · exact h
  · split
    · exact List.mem_append_left _ h
    · split
      · exact List.mem_append_left _ (List.mem_append_left _ h)
      · exact List.mem_append_left _ h

theorem mem_visitFrom_calls {n i : Nat} {call : Call} (h : call ∈ s.calls) :
    call ∈ (visitFrom inp n i s).calls := by
  induction n generalizing i s with
  | zero => exact h
  | succ n ih =>
    unfold visitFrom
    split
    · exact ih (mem_visit_calls h)
    · exact h

/-- A slot without POLLIN is handled. -/
theorem visit_idle_calls (inp : RoundInput) {i : Nat}
    (hidle : (s.fds i).revents.has pollIn = false) :
    .handle i (s.fds i).fd ∈ (visit inp i s).calls := by
  unfold visit Server.dropClient Server.record
  simp only [hidle, Bool.false_eq_true, if_false]
  split
  · simp
  · split <;> simp

/-- A slot of a client with POLLIN is not. -/
theorem visit_client {i : Nat} (hready : (s.fds i).revents.has pollIn = true)
    (hfd : (s.fds i).fd ≠ s.sockServer) : visit inp i s = s := by
  simp [visit, hready, hfd]

theorem visit_listener {i : Nat} (hready : (s.fds i).revents.has pollIn = true)
    (hfd : (s.fds i).fd = s.sockServer) :
    visit inp i s = (inp.accept i).elim s fun fd => s.addClient fd := by
  simp only [visit, hready, hfd, if_true]
  cases inp.accept i <;> rfl

theorem addClient_full {fd : Nat} (h : ¬ s.nfds < maxConnection) : s.addClient fd =
    { s.record (.accept fd) with openFds := insert (fd : Int) s.openFds } := by
  simp [Server.addClient, Server.record, h]

theorem addClient_room {fd : Nat} (h : s.nfds < maxConnection) : s.addClient fd =
    { s.record (.accept fd) with
      openFds := insert (fd : Int) s.openFds
      fds := Function.update s.fds s.nfds { s.fds s.nfds with fd := fd, events := pollIn }
      nfds := s.nfds + 1 } := by
  simp [Server.addClient, Server.record, h]

/-! ## A round -/

/-- After poll, a slot of the table with an open descriptor has what poll reported. -/
theorem poll_revents (revents : Nat → Events) {i : Nat} (hi : i < s.nfds)
    (hfd : 0 ≤ (s.fds i).fd) : ((s.poll revents).fds i).revents = revents i := by
  simp [Server.poll, hi, PollFd.report, not_lt.2 hfd]

@[simp] theorem poll_fd (revents : Nat → Events) (i : Nat) :
    ((s.poll revents).fds i).fd = (s.fds i).fd := by
  simp only [Server.poll]
  split <;> rfl

theorem Server.Table.revents_zero (h : s.Table) (revents : Nat → Events) :
    ((s.poll revents).fds 0).revents = revents 0 :=
  poll_revents revents (by rcases h.client with hn | ⟨hn, -⟩ <;> omega)
    (by rw [h.listener]; exact h.nonneg)

/-- A round visits the listening socket and then the second slot. -/
theorem Server.Table.visitFrom_poll (h : s.Table) (inp : RoundInput) (revents : Nat → Events) :
    visitFrom inp maxConnection 0 (s.poll revents) =
      visitFrom inp 1 1 (visit inp 0 (s.poll revents)) := by
  have hpos : 0 < s.nfds := by rcases h.client with hn | ⟨hn, -⟩ <;> omega
  have hguard : 0 < (s.poll revents).nfds ∧ (s.poll revents).running = true := ⟨hpos, h.running⟩
  rw [maxConnection, visitFrom, if_pos hguard]

/-- The listening socket is accepted from when it is ready. -/
theorem Server.Table.visit_zero (h : s.Table) (inp : RoundInput) {revents : Nat → Events}
    (hready : (revents 0).has pollIn = true) : visit inp 0 (s.poll revents) =
      (inp.accept 0).elim (s.poll revents) fun fd => (s.poll revents).addClient fd :=
  visit_listener (by rw [h.revents_zero]; exact hready) (by rw [poll_fd]; exact h.listener)

/-- A round in which the listening socket is not ready hands it to the handler. -/
theorem not_lawful_of_idle (h : s.Table) {revents : Nat → Events}
    (hpoll : inp.poll = some revents) (hidle : (revents 0).has pollIn = false) :
    ¬ Lawful inp s (visitFrom inp maxConnection 0 (s.poll revents)) := by
  intro hlaw
  have hmem : .handle 0 (s.fds 0).fd ∈ (visitFrom inp maxConnection 0 (s.poll revents)).calls := by
    rw [h.visitFrom_poll, ← poll_fd revents 0]
    exact mem_visitFrom_calls (visit_idle_calls inp (by rw [h.revents_zero]; exact hidle))
  obtain ⟨-, -, hne, -⟩ := ((hlaw revents hpoll).1 0 _).1 hmem
  exact hne h.listener

/-- A round from a table with a client in it is never lawful: the client is
handled exactly when it is not ready. -/
theorem not_lawful_of_client (h : s.Table) {revents : Nat → Events}
    (hpoll : inp.poll = some revents) (hready : (revents 0).has pollIn = true)
    (hnfds : s.nfds = 2) (hnonneg : 0 ≤ (s.fds 1).fd) (hclient : (s.fds 1).fd ≠ s.sockServer) :
    ¬ Lawful inp s (visitFrom inp maxConnection 0 (s.poll revents)) := by
  intro hlaw
  obtain ⟨hiff, -, -⟩ := hlaw revents hpoll
  -- the table is full, and the visit of the listening socket does not change it
  obtain ⟨t, ht, hfds, htn, hsock, hrunning, hcalls⟩ : ∃ t, visit inp 0 (s.poll revents) = t ∧
      t.fds = (s.poll revents).fds ∧ t.nfds = 2 ∧ t.sockServer = s.sockServer ∧
      t.running = true ∧ ∀ i fd, Call.handle i fd ∉ t.calls := by
    rw [h.visit_zero inp hready]
    have hfull : ¬ (s.poll revents).nfds < maxConnection := by
      simp [Server.poll, hnfds, maxConnection]
    cases inp.accept 0 with
    | none => exact ⟨_, rfl, rfl, hnfds, rfl, h.running, by simp [Server.poll]⟩
    | some fd =>
      refine ⟨_, rfl, ?_⟩
      rw [Option.elim_some, addClient_full hfull]
      exact ⟨rfl, hnfds, rfl, h.running, by simp [Server.poll, Server.record]⟩
  have hround : visitFrom inp maxConnection 0 (s.poll revents) = visit inp 1 t := by
    rw [h.visitFrom_poll, ht, visitFrom, if_pos ⟨by omega, hrunning⟩, visitFrom]
  rw [hround] at hiff
  have hrevents : (t.fds 1).revents = revents 1 := by
    rw [hfds]
    exact poll_revents revents (by omega) hnonneg
  have hfd : (t.fds 1).fd = (s.fds 1).fd := by rw [hfds, poll_fd]
  cases hready₁ : (revents 1).has pollIn with
  | true =>
    have hmem := (hiff 1 (s.fds 1).fd).2 ⟨by omega, rfl, hclient, hready₁⟩
    rw [visit_client (by rw [hrevents]; exact hready₁) (by rw [hfd, hsock]; exact hclient)] at hmem
    exact hcalls _ _ hmem
  | false =>
    have hmem := visit_idle_calls inp (s := t) (i := 1) (by rw [hrevents]; exact hready₁)
    obtain ⟨-, -, -, hready'⟩ := (hiff 1 _).1 hmem
    rw [hready₁] at hready'
    cases hready'

/-- Nobody is to be handled while the listening socket is alone in the table. -/
theorem Server.Table.nobody (h : s.Table) (hnfds : s.nfds = 1) (revents : Nat → Events) (i : Nat)
    (fd : Int) : ¬ (i < s.nfds ∧ (s.fds i).fd = fd ∧ fd ≠ s.sockServer ∧
      (revents i).has pollIn) := by
  rintro ⟨hi, rfl, hne, -⟩
  have hi0 : i = 0 := by omega
  exact hne (hi0 ▸ h.listener)

/-- A round that handles and closes nothing is lawful while the listening socket is
alone in the table. -/
theorem Server.Table.lawful (h : s.Table) (hnfds : s.nfds = 1)
    (hhandle : ∀ i fd, Call.handle i fd ∉ s'.calls) (hclose : Call.close s.sockServer ∉ s'.calls)
    (hfd : (s'.fds 0).fd = s.sockServer) : Lawful inp s s' := fun revents _ =>
  ⟨fun i fd => iff_of_false (hhandle i fd) (h.nobody hnfds revents i fd), hclose, hfd⟩

/-- A round from a table with the listening socket alone and ready, in which accept fails. -/
theorem lawful_of_refused (h : s.Table) {revents : Nat → Events}
    (hready : (revents 0).has pollIn = true) (hnfds : s.nfds = 1) (haccept : inp.accept 0 = none) :
    let t := visitFrom inp maxConnection 0 (s.poll revents)
    Lawful inp s t ∧ t.Table := by
  have hround : visitFrom inp maxConnection 0 (s.poll revents) = s.poll revents := by
    rw [h.visitFrom_poll, h.visit_zero inp hready, haccept, Option.elim_none, visitFrom,
      if_neg fun hlt => absurd hlt.1 (by simp [Server.poll, hnfds])]
  have hfd : ((s.poll revents).fds 0).fd = s.sockServer := by
    rw [poll_fd]
    exact h.listener
  dsimp only
  rw [hround]
  exact ⟨h.lawful hnfds (by simp [Server.poll]) (by simp [Server.poll]) hfd,
    ⟨h.running, hfd, h.nonneg, h.isOpen, .inl hnfds⟩⟩

/-- The table once a client has been accepted next to the listening socket. -/
theorem Server.Table.addClient (h : s.Table) (revents : Nat → Events) (hnfds : s.nfds = 1)
    {fd : Nat} (hfd : (fd : Int) ≠ s.sockServer) :
    let t := (s.poll revents).addClient fd
    t.Table ∧ t.nfds = 2 ∧ t.sockServer = s.sockServer ∧ t.calls = [.accept fd] ∧
      (t.fds 1).fd = fd ∧ (t.fds 1).revents = (s.fds 1).revents := by
  have hroom : (s.poll revents).nfds < maxConnection := by
    simp [Server.poll, hnfds, maxConnection]
  obtain ⟨t, ht⟩ : ∃ t, t = (s.poll revents).addClient fd := ⟨_, rfl⟩
  have hold : (t.fds 0).fd = s.sockServer := by
    rw [ht, addClient_room hroom, ← h.listener, ← poll_fd revents 0]
    simp [Server.poll, hnfds]
  have hnew : (t.fds 1).fd = fd ∧ (t.fds 1).revents = (s.fds 1).revents := by
    rw [ht, addClient_room hroom]
    simp [Server.poll, hnfds]
  have hrest : t.nfds = 2 ∧ t.sockServer = s.sockServer ∧ t.running = true ∧
      s.sockServer ∈ t.openFds ∧ t.calls = [.accept fd] := by
    rw [ht, addClient_room hroom]
    exact ⟨by simp [Server.poll, hnfds], rfl, h.running, Finset.mem_insert_of_mem h.isOpen, rfl⟩
  obtain ⟨hn, hsock, hrunning, hopen, hcalls⟩ := hrest
  dsimp only
  rw [← ht]
  refine ⟨⟨hrunning, hsock ▸ hold, hsock ▸ h.nonneg, hsock ▸ hopen, .inr ⟨hn, ?_, ?_⟩⟩, hn, hsock,
    hcalls, hnew⟩
  · rw [hnew.1]
    exact Int.natCast_nonneg fd
  · rw [hnew.1, hsock]
    exact hfd

/-- A round from a table with the listening socket alone and ready, in which it accepts. -/
theorem lawful_of_accepted (h : s.Table) {revents : Nat → Events} {fd : Nat}
    (hfresh : (fd : Int) ∉ s.openFds) (hpoll : inp.poll = some revents)
    (hready : (revents 0).has pollIn = true) (hnfds : s.nfds = 1)
    (haccept : inp.accept 0 = some fd) :
    let t := visitFrom inp maxConnection 0 (s.poll revents)
    (Lawful inp s t ↔ (s.fds 1).revents.has pollIn) ∧ (Lawful inp s t → t.Table) := by
  have hne : (fd : Int) ≠ s.sockServer := fun he => hfresh (he ▸ h.isOpen)
  obtain ⟨htable, hn, hsock, hcalls, hnew, hstale⟩ := h.addClient revents hnfds hne
  have hround : visitFrom inp maxConnection 0 (s.poll revents) =
      visit inp 1 ((s.poll revents).addClient fd) := by
    rw [h.visitFrom_poll, h.visit_zero inp hready, haccept, Option.elim_some, visitFrom,
      if_pos ⟨by omega, htable.running⟩, visitFrom]
  dsimp only
  rw [hround]
  cases hidle : (s.fds 1).revents.has pollIn with
  | true =>
    rw [visit_client (by rw [hstale]; exact hidle) (by rw [hnew, hsock]; exact hne)]
    have hlaw : Lawful inp s ((s.poll revents).addClient fd) :=
      h.lawful hnfds (by simp [hcalls]) (by simp [hcalls]) (by rw [htable.listener, hsock])
    exact ⟨iff_of_true hlaw rfl, fun _ => htable⟩
  | false =>
    -- the new client is handled, although poll knows nothing about it
    have hnot : ¬ Lawful inp s (visit inp 1 ((s.poll revents).addClient fd)) := fun hlaw =>
      h.nobody hnfds revents 1 _ (((hlaw revents hpoll).1 1 _).1
        (visit_idle_calls inp (by rw [hstale]; exact hidle)))
    exact ⟨iff_of_false hnot Bool.false_ne_true, fun hlaw => absurd hlaw hnot⟩

/-- A round from a table with the listening socket alone and ready. -/
theorem lawful_of_listener (h : s.Table) {revents : Nat → Events}
    (hfresh : ∀ i fd, inp.accept i = some fd → (fd : Int) ∉ s.openFds)
    (hpoll : inp.poll = some revents) (hready : (revents 0).has pollIn = true)
    (hnfds : s.nfds = 1) :
    let t := visitFrom inp maxConnection 0 (s.poll revents)
    (Lawful inp s t ↔ inp.accept 0 = none ∨ (s.fds 1).revents.has pollIn) ∧
      (Lawful inp s t → t.Table) := by
  cases haccept : inp.accept 0 with
  | none =>
    obtain ⟨hlaw, htable⟩ := lawful_of_refused h hready hnfds haccept
    exact ⟨iff_of_true hlaw (.inl rfl), fun _ => htable⟩
  | some fd =>
    obtain ⟨hiff, htable⟩ := lawful_of_accepted h (hfresh 0 fd haccept) hpoll hready hnfds haccept
    exact ⟨hiff.trans (or_iff_right nofun).symm, htable⟩

/-- A round is lawful exactly if it is safe, and a lawful round leaves a table
of the same kind. -/
theorem round_spec (h : s.Table)
    (hfresh : ∀ i fd, inp.accept i = some fd → (fd : Int) ∉ s.openFds)
    (hround : round inp s = some s') :
    (Lawful inp s s' ↔ inp.Safe s) ∧ (Lawful inp s s' → s'.Table) := by
  obtain ⟨revents, hpoll, rfl⟩ := Option.map_eq_some_iff.1 hround
  have hsafe : inp.Safe s ↔ s.nfds = 1 ∧ (revents 0).has pollIn ∧
      (inp.accept 0 = none ∨ (s.fds 1).revents.has pollIn) :=
    forall_reported_iff hpoll
  rw [hsafe]
  cases hready : (revents 0).has pollIn with
  | false =>
    have hnot := not_lawful_of_idle h hpoll hready
    exact ⟨iff_of_false hnot (by simp), fun hlaw => absurd hlaw hnot⟩
  | true =>
    rcases h.client with hnfds | ⟨hnfds, hnonneg, hclient⟩
    · simpa [hnfds] using lawful_of_listener h hfresh hpoll hready hnfds
    · have hnot := not_lawful_of_client h hpoll hready hnfds hnonneg hclient
      exact ⟨iff_of_false hnot (by simp [hnfds]), fun hlaw => absurd hlaw hnot⟩

/-! ## Runs -/

/-- `start` at the first top of its loop, with an open listening socket and any
content of the uninitialised array. -/
def Start (s : Server) : Prop :=
  ∃ (sockServer : Nat) (junk : Nat → PollFd) (openFds : Finset Int),
    (sockServer : Int) ∈ openFds ∧ s = startUp sockServer junk openFds

/-- A round of a server that has not been ended by an exception, in which poll
does not fail, and accept returns descriptors that are not open. -/
def Round (s : Server) (inp : RoundInput) (s' : Server) : Prop :=
  s.running ∧ (∀ i fd, inp.accept i = some fd → (fd : Int) ∉ s.openFds) ∧ round inp s = some s'

theorem Start.table (h : Start s) : s.Table := by
  obtain ⟨fd, junk, openFds, hopen, rfl⟩ := h
  exact ⟨rfl, by simp [startUp], Int.natCast_nonneg fd, hopen, .inl rfl⟩

/-- All rounds of a run handle exactly the reported clients exactly if all of
its rounds are safe. -/
theorem handles_reported_iff {s₀ : Server} {rounds : List RoundInput} (h0 : Start s₀) :
    Run (fun s inp s' => Round s inp s' ∧ Lawful inp s s') s₀ rounds s ↔
      Run (fun s inp s' => Round s inp s' ∧ inp.Safe s) s₀ rounds s :=
  Run.iff_of_invariant (fun _ _ _ htable hround => (round_spec htable hround.2.1 hround.2.2).1)
    (fun _ _ _ htable hround => (round_spec htable hround.2.1 hround.2.2).2) h0.table

/-- Accept fails, and then it returns a client whose slot happens to have POLLIN. -/
theorem handles_reported_iff_accept : ∃ s rounds, rounds.length = 2 ∧
    Run (fun s inp s' => Round s inp s' ∧ Lawful inp s s')
      (startUp 3 (fun _ => ⟨0, 0, pollIn⟩) {3}) rounds s ∧ s.nfds = 2 := by
  let junk : Nat → PollFd := fun _ => ⟨0, 0, pollIn⟩
  let failing : RoundInput := ⟨some fun _ => pollIn, fun _ => none, fun _ => none⟩
  let connect : RoundInput := ⟨some fun _ => pollIn, fun _ => some 4, fun _ => none⟩
  have hrun : (round failing (startUp 3 junk {3}) >>= fun s => (round connect s).map fun s' =>
      decide (s.nfds = 1 ∧ (s.fds 1).revents.has pollIn ∧ s.openFds = {3} ∧ s.running ∧
        s'.nfds = 2)) = some true := by
    decide +kernel
  obtain ⟨s, hfirst, hrest⟩ := Option.bind_eq_some_iff.1 hrun
  obtain ⟨s', hsecond, hfacts⟩ := Option.map_eq_some_iff.1 hrest
  obtain ⟨hn, hstale, hopen, hrunning, hn'⟩ := of_decide_eq_true hfacts
  have hstart : Start (startUp 3 junk {3}) := ⟨3, junk, {3}, by decide, rfl⟩
  have hround : Round (startUp 3 junk {3}) failing s := ⟨rfl, by simp [failing], hfirst⟩
  have hround' : Round s connect s' := by
    refine ⟨hrunning, ?_, hsecond⟩
    rintro i _ ⟨rfl⟩
    rw [hopen]
    decide
  have hsafe : failing.Safe (startUp 3 junk {3}) := by
    rintro _ ⟨rfl⟩
    exact ⟨rfl, by decide, .inl rfl⟩
  have hsafe' : connect.Safe s := by
    rintro _ ⟨rfl⟩
    exact ⟨hn, by decide, .inr hstale⟩
  exact ⟨s', [failing, connect], rfl, (handles_reported_iff hstart).2
    (.cons ⟨hround, hsafe⟩ (.single ⟨hround', hsafe'⟩)), hn'⟩

/-- The law fails when a client connects while its slot has no POLLIN: the
client is handled, although poll has not reported it. -/
theorem handles_not_reported : ¬ ∀ s inp s', Reachable Start Round s → Round s inp s' →
    Lawful inp s s' := by
  let connect : RoundInput :=
    ⟨some fun _ => pollIn, fun _ => some 4, fun _ => some .completed⟩
  let s : Server := startUp 3 (fun _ => ⟨0, 0, 0⟩) {3}
  have hstart : Start s := ⟨3, _, {3}, by decide, rfl⟩
  obtain ⟨s', hround, hmem⟩ : ∃ s', round connect s = some s' ∧ .handle 1 4 ∈ s'.calls :=
    ⟨_, rfl, by decide⟩
  intro hall
  have hlaw := hall s connect s' (.start hstart)
    ⟨rfl, by rintro _ _ ⟨rfl⟩; decide, hround⟩
  obtain ⟨hlt, -⟩ := ((hlaw _ rfl).1 1 4).1 hmem
  exact absurd hlt (by decide)

end LinuxNet.HttpServer
