-- SUMMARY: Each function of a round does to the program's state what its operation does to the view.
import LinuxNet.TimerServer.View

/-! # Specifications of the functions of a round -/

namespace LinuxNet.TimerServer

variable {s : Server} {v : View}

/-! ## Entries -/

theorem FdBuffer.Holds.poll {b : FdBuffer} {L : List PollFd} (h : b.Holds L)
    (revents : Nat → Events) : (b.poll revents).Holds (reported revents L) := by
  obtain ⟨junk, hfds, hjunk⟩ := h.fds
  have hlen : (reported revents L).length = L.length := by simp [reported]
  have hcells : reportCells revents L.length (L.map some ++ junk) =
      (reported revents L).map some ++ junk := by
    rw [reportCells, List.mapIdx_append]
    congr 1
    · apply List.ext_getElem (by simp [reported])
      intro i hi hi'
      have hiL : i < L.length := by simpa using hi
      simp [reported, hiL]
    · apply List.ext_getElem (by simp)
      intro i hi hi'
      simp
  refine ⟨⟨junk, ?_, ?_⟩, ?_, ?_, h.size, h.bound⟩
  · simp only [FdBuffer.poll, hfds, h.len, Option.map_some, hcells]
  · simpa [hlen, FdBuffer.poll] using hjunk
  · simpa [hlen, FdBuffer.poll] using h.len
  · simpa [hlen, FdBuffer.poll] using h.room

theorem FdBuffer.Holds.load {b : FdBuffer} {L : List PollFd} (h : b.Holds L) {i : Nat}
    {p : PollFd} (hp : L[i]? = some p) : b.load i = .ok p :=
  h.reads i p hp

theorem FdBuffer.Holds.clearRevents {b : FdBuffer} {L : List PollFd} (h : b.Holds L) {i : Nat}
    (hi : i < L.length) :
    ∃ b', clearRevents i b = .ok b' ∧ b'.Holds (L.modify i PollFd.clear) := by
  obtain ⟨junk, hfds, hjunk⟩ := h.fds
  have hload : b.load i = .ok L[i] := h.load (by simp)
  have hcells : (L.map some ++ junk).set i (some L[i].clear) =
      (L.modify i PollFd.clear).map some ++ junk := by
    have hset : L.set i L[i].clear = L.modify i PollFd.clear := by
      apply List.ext_getElem (by simp)
      intro j hj hj'
      by_cases hij : i = j
      · subst hij; simp
      · simp [hij]
    rw [List.set_append_left _ _ (by simpa using hi), ← hset, List.map_set]
  refine ⟨{ b with fds := some ((L.modify i PollFd.clear).map some ++ junk) }, ?_, ?_⟩
  · rw [TimerServer.clearRevents, hload]
    simp only [Except.bind_ok]
    rw [FdBuffer.store_cell _ hfds (by simp; omega), hcells]
  · exact ⟨⟨junk, rfl, by simpa using hjunk⟩, by simpa using h.len, by simpa using h.room,
      h.size, h.bound⟩

/-! ## The exchange with a client -/

theorem handleData_eq (inp : ConnInput) (c : Connection) (k : Kernel) :
    handleData inp c k =
      match inp.exchange with
      | .error e => .error (.returned e)
      | .ok gone => .ok (gone, inp.exchanged c k) := by
  unfold handleData recvNonBlock sendNonBlock ConnInput.exchange ConnInput.exchanged
  cases inp.recv with
  | fail e =>
    have he : ¬ (e : Int) ≤ 0 := not_le.2 e.2
    simp [he]
  | data bytes hb =>
    have hneg : ¬ (bytes.length : Int) < 0 := by omega
    by_cases hnil : bytes = []
    · simp [hnil]
    · have hpos : ¬ (bytes.length : Int) = 0 := by simpa using hnil
      simp only [hneg, hpos, hnil, if_false]
      by_cases hping : strstr (filled bufSize bytes) (bytesOf "ping") = true
      · simp only [hping, if_true]
        cases inp.send with
        | fail e =>
          have he : ¬ (e : Int) ≤ 0 := not_le.2 e.2
          simp [he]
        | sent n =>
          have hn : ¬ (n : Int) < 0 := by omega
          simp [hn, hnil]
      · simp [hping]

/-! ## The parts of a round -/

theorem Server.Shows.mypoll_spec (h : s.Shows v) {inp : RoundInput} {revents : Nat → Events}
    (hpoll : inp.poll = some revents) :
    ∃ s', mypoll inp s = .ok s' ∧ s'.Shows (v.poll revents inp.pollDelay) := by
  have hentries : reported revents (v.listener :: v.clients) =
      v.listener.report (revents 0) :: reported (revents <| · + 1) v.clients := by
    simp [reported, List.mapIdx_cons]
  have hpolled := h.fdsBuf.poll revents
  rw [hentries] at hpolled
  refine ⟨{ s with fdsBuf := s.fdsBuf.poll revents, kernel := s.kernel.advance inp.pollDelay },
    ?_, h.socketFd, hpolled, h.conns, ?_⟩
  · simp only [mypoll, hpoll]
  · simp only [h.kernel, View.poll]

/-- The results of a poll that does not fail. -/
theorem mypoll_eq_ok {inp : RoundInput} {s₁ : Server} (h : mypoll inp s = .ok s₁) :
    ∃ revents, inp.poll = some revents ∧ s₁ =
      { s with fdsBuf := s.fdsBuf.poll revents, kernel := s.kernel.advance inp.pollDelay } := by
  cases hpoll : inp.poll with
  | none => simp [mypoll, hpoll] at h
  | some revents =>
    rw [mypoll, hpoll] at h
    exact ⟨revents, rfl, (Except.ok.inj h).symm⟩

theorem mypoll_len {inp : RoundInput} {s₁ : Server} (h : mypoll inp s = .ok s₁) :
    s₁.fdsBuf.len = s.fdsBuf.len := by
  obtain ⟨revents, -, rfl⟩ := mypoll_eq_ok h
  rfl

theorem Server.Shows.addConnection_idle (h : s.Shows v) {inp : RoundInput}
    (hready : v.listener.revents.has pollIn = false) : addConnection inp s = .ok s := by
  have hload : s.fdsBuf.load 0 = .ok v.listener := h.fdsBuf.load rfl
  simp [addConnection, hload, hready]

/-- Adding a connection either trips the assertion on the first `insert_fd` or
on `insert_connection`, or appends the connection with its two entries. The
second `insert_fd` finds room: with an even number of clients, the first leaves
an even number of entries, and the capacity is even. -/
theorem Server.Shows.addConnection_spec (h : s.Shows v) (inp : RoundInput)
    (hlen : s.fdsBuf.len < 2 ^ 27) (heven : v.clients.length % 2 = 0)
    (hready : v.listener.revents.has pollIn = true) :
    addConnection inp s = .error (.assertFailed .insertFd) ∨
    addConnection inp s = .error (.assertFailed .insertConnection) ∨
    ∃ a s', inp.malloc = some a ∧ addConnection inp s = .ok s' ∧
      s'.Shows (v.add a (newConnection inp v.kernel).1 (newConnection inp v.kernel).2) := by
  have hload : s.fdsBuf.load 0 = .ok v.listener := h.fdsBuf.load rfl
  generalize hnew : newConnection inp v.kernel = new
  obtain ⟨c, k⟩ := new
  obtain ⟨r, b₁, hins, hcase⟩ := h.fdsBuf.insertFd_spec (by rw [← h.fdsBuf.len]; exact hlen)
    inp.reallocConn (watch c.connFd)
  rcases hcase with ⟨rfl, h₁⟩ | ⟨rfl, -, -⟩
  · have hroom : (v.listener :: v.clients ++ [watch c.connFd]).length + 1 < b₁.size :=
      h₁.room_even (by simp only [List.length_append, List.length_cons, List.length_nil]; omega)
    obtain ⟨b₂, hins₂, h₂, -⟩ := h₁.insertFd_room hroom inp.reallocTimer (watch c.timerFd)
    cases hmalloc : inp.malloc with
    | none =>
      refine .inr (.inl ?_)
      simp [addConnection, hload, hready, h.kernel, hnew, hins, hins₂, hmalloc, assertThat,
        insertConnection, enomem]
    | some a =>
      refine .inr (.inr ⟨a, ⟨s.socketFd, b₂, s.connsQueue.insertTail a c, k⟩, rfl, ?_,
        h.socketFd, ?_, ?_, rfl⟩)
      · simp [addConnection, hload, hready, h.kernel, hnew, hins, hins₂, hmalloc, assertThat,
          insertConnection]
      · simpa [View.add] using h₂
      · simp [View.add, h.conns]
  · apply Or.inl
    simp [addConnection, hload, hready, h.kernel, hnew, hins, assertThat, enomem]

theorem Server.Shows.removeAndClose_spec (h : s.Shows v) (reallocOk : Bool) (fd : Int) :
    ∃ s', removeAndClose reallocOk fd s = .ok s' ∧ s'.Shows (v.remove fd) := by
  obtain ⟨b', hok, h', -⟩ := h.fdsBuf.removeFd_spec reallocOk fd
  let k' := (closedBy fd (v.listener :: v.clients)).elim s.kernel s.kernel.close
  refine ⟨⟨s.socketFd, b', s.connsQueue, k'⟩, ?_, h.socketFd, h', h.conns, ?_⟩
  · simp [removeAndClose, hok, k']
  · by_cases hmem : fd ∈ v.clients.map PollFd.fd
    · have hclosed : closedBy fd (v.listener :: v.clients) = some fd := if_pos hmem
      simp only [k', hclosed, Option.elim_some, View.remove, if_pos hmem, h.kernel]
    · have hclosed : closedBy fd (v.listener :: v.clients) = none := if_neg hmem
      simp only [k', hclosed, Option.elim_none, View.remove, if_neg hmem, h.kernel]

theorem Server.Shows.deleteConnection_spec (h : s.Shows v) (inp : ConnInput) (a : Nat)
    (c : Connection) :
    ∃ s', deleteConnection inp a c s = .ok s' ∧ s'.Shows (v.delete a c) := by
  obtain ⟨s₁, hok₁, h₁⟩ := h.removeAndClose_spec inp.reallocConn c.connFd
  obtain ⟨s₂, hok₂, h₂⟩ := h₁.removeAndClose_spec inp.reallocTimer c.timerFd
  refine ⟨{ s₂ with connsQueue := s₂.connsQueue.remove a }, ?_, h₂.socketFd, h₂.fdsBuf, ?_,
    h₂.kernel⟩
  · simp [deleteConnection, hok₁, hok₂]
  · simp [View.delete, h₂.conns, View.remove]

/-! ## The loop body -/

theorem exists_findIdx? {L : List PollFd} {fd : Int} (h : fd ∈ L.map PollFd.fd) :
    ∃ i p, L.findIdx? (·.fd = fd) = some i ∧ L[i]? = some p ∧ L.find? (·.fd = fd) = some p := by
  obtain ⟨q, hq, hfd⟩ := List.mem_map.1 h
  have hsome : (L.findIdx? (·.fd = fd)).isSome := by
    rw [List.findIdx?_isSome]
    simpa using ⟨q, hq, hfd⟩
  obtain ⟨i, hi⟩ := Option.isSome_iff_exists.1 hsome
  obtain ⟨hlt, hpi, hbefore⟩ := List.findIdx?_eq_some_iff_getElem.1 hi
  refine ⟨i, L[i], hi, by simp, ?_⟩
  rw [List.find?_eq_some_iff_getElem]
  exact ⟨hpi, i, hlt, rfl, fun j hj => by simpa using hbefore j hj⟩

/-- Serving a socket whose exchange does not fail. -/
theorem Server.Shows.serveSocket_ready (h : s.Shows v) {inp : ConnInput} {c : Connection}
    {connfd timerfd : Nat} {p : PollFd} {gone : Bool}
    (hp : (v.listener :: v.clients)[connfd]? = some p) (hready : p.revents.has activity = true)
    (ht : v.clients.findIdx? (·.fd = c.timerFd) = some timerfd)
    (hexchange : inp.exchange = .ok gone) :
    ∃ s', serveSocket inp c connfd (timerfd + 1) s = .ok (gone, s') ∧
      s'.Shows (v.serve inp c) := by
  have hload : s.fdsBuf.load connfd = .ok p := h.fdsBuf.load hp
  have hlt : timerfd < v.clients.length := (List.findIdx?_eq_some_iff_getElem.1 ht).1
  obtain ⟨b', hclear, h'⟩ := h.fdsBuf.clearRevents (by simpa using hlt : timerfd + 1 < _)
  let k' := refreshTimer c.timerFd inp.refresh
    ((inp.exchanged c v.kernel).advance inp.refreshDelay)
  refine ⟨⟨s.socketFd, b', s.connsQueue, k'⟩, ?_, h.socketFd, ?_, h.conns, rfl⟩
  · simp [serveSocket, hload, hready, handleData_eq, hexchange, hclear, h.kernel, k']
  · simpa [View.serve, clearFirst, ht] using h'

/-- The loop body once both entries of the connection are found. -/
theorem processConnection_found {inp : ConnInput} {a : Nat} {c : Connection} {connfd timerfd : Nat}
    (hget : s.connsQueue.get a = some c) (hconn : findFd c.connFd s.fdsBuf = .ok (some connfd))
    (htimer : findFd c.timerFd s.fdsBuf = .ok (some timerfd)) :
    processConnection inp a s = serveSocket inp c connfd timerfd s >>= fun served =>
      (served.2.fdsBuf.load timerfd).mapError .fault >>= fun timer =>
        if served.1 || timer.revents.has activity then deleteConnection inp a c served.2
        else pure served.2 := by
  simp [processConnection, hget, hconn, htimer]

/-- The loop body on a connection of the queue whose entries are in the buffer:
a failed call ends `main`, and otherwise the connection is processed. -/
theorem Server.Shows.processConnection_spec (h : s.Shows v) (inp : ConnInput) {a : Nat}
    {c : Connection} (hget : v.conns.get a = some c)
    (hconn : c.connFd ∈ v.clients.map PollFd.fd) (htimer : c.timerFd ∈ v.clients.map PollFd.fd)
    (hne : v.listener.fd ≠ c.timerFd) :
    (∃ e, v.socketReady c = true ∧ inp.exchange = .error e ∧
      processConnection inp a s = .error (.returned e)) ∨
    ∃ s', processConnection inp a s = .ok s' ∧ s'.Shows (v.process inp a c) := by
  have hentry : c.connFd ∈ (v.listener :: v.clients).map PollFd.fd := by simp [hconn]
  obtain ⟨ci, p, hci, hp, hpfind⟩ := exists_findIdx? hentry
  obtain ⟨ti, t, hti, ht, htfind⟩ := exists_findIdx? htimer
  have hti' : (v.listener :: v.clients).findIdx? (·.fd = c.timerFd) = some (ti + 1) := by
    simp [List.findIdx?_cons, hne, hti]
  have htfind' : (v.listener :: v.clients).find? (·.fd = c.timerFd) = some t := by
    simp [hne, htfind]
  rw [processConnection_found (by rw [h.conns, hget]) (by rw [h.fdsBuf.findFd_eq, hci])
    (by rw [h.fdsBuf.findFd_eq, hti'])]
  have hload : s.fdsBuf.load ci = .ok p := h.fdsBuf.load hp
  have hloadTimer : s.fdsBuf.load (ti + 1) = .ok t := h.fdsBuf.load (by simpa using ht)
  have hsocket : v.socketReady c = p.revents.has activity := by
    simp only [View.socketReady, View.eventsOf, View.entries, hpfind, Option.map_some,
      Option.getD_some]
  have htimerReady : v.timerReady c = t.revents.has activity := by
    simp only [View.timerReady, View.eventsOf, View.entries, htfind', Option.map_some,
      Option.getD_some]
  cases hready : p.revents.has activity with
  | false =>
    apply Or.inr
    cases hfired : t.revents.has activity with
    | false =>
      refine ⟨s, ?_, by simpa [View.process, View.doomed, hsocket, hready, htimerReady, hfired]⟩
      simp [serveSocket, hload, hready, hloadTimer, hfired]
    | true =>
      obtain ⟨s', hok, h'⟩ := h.deleteConnection_spec inp a c
      refine ⟨s', ?_, by simpa [View.process, View.doomed, hsocket, hready, htimerReady, hfired]⟩
      simp [serveSocket, hload, hready, hloadTimer, hfired, hok]
  | true =>
    cases hexchange : inp.exchange with
    | error e =>
      refine .inl ⟨e, by rw [hsocket, hready], rfl, ?_⟩
      simp [serveSocket, hload, hready, handleData_eq, hexchange]
    | ok gone =>
      apply Or.inr
      obtain ⟨s₁, hok₁, h₁⟩ := h.serveSocket_ready hp hready hti hexchange
      -- the timer's events have just been cleared
      have hcleared : s₁.fdsBuf.load (ti + 1) = .ok t.clear := by
        apply h₁.fdsBuf.load
        simp [View.serve, clearFirst, hti, ht]
      cases gone with
      | false =>
        refine ⟨s₁, ?_, by simpa [View.process, View.doomed, hsocket, hready, hexchange]⟩
        simp [hok₁, hcleared]
      | true =>
        obtain ⟨s', hok, h'⟩ := h₁.deleteConnection_spec inp a c
        refine ⟨s', ?_, by simpa [View.process, View.doomed, hsocket, hready, hexchange]⟩
        simp [hok₁, hcleared, hok]

end LinuxNet.TimerServer
