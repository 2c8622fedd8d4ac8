-- SUMMARY: The descriptor buffer holds the listener and two entries for every connection, at every loop top.
import LinuxNet.Base.Transition
import LinuxNet.TimerServer.FdBufferRefinement
import LinuxNet.TimerServer.ServerSpec
import Mathlib.Algebra.BigOperators.Group.Multiset.Basic

/-! # The buffer mirrors the queue

The two structures of the server are kept in step by `Mirror`: apart from the
listener's entry, the descriptors in the buffer are those of the connections.
The descriptors may be negative, and then they may also be repeated. -/

namespace LinuxNet.TimerServer

/-- The descriptors of the connections of a queue. -/
def connFds (q : Stailq Connection) : Multiset Int :=
  (q.map fun n => ({n.val.connFd, n.val.timerFd} : Multiset Int)).sum

structure View.Mirror (v : View) : Prop where
  fds : (v.clients.map PollFd.fd : Multiset Int) = connFds v.conns
  listenerFresh : v.listener.fd ∉ v.clients.map PollFd.fd
  listenerOpen : v.listener.fd ∈ v.kernel.openFds
  listenerNonneg : 0 ≤ v.listener.fd
  addrs : v.conns.addrs.Nodup

variable {s : Server} {v : View} {P R : Stailq Connection} {a : Nat} {c : Connection}

/-! ## The descriptors of a queue -/

@[simp] theorem connFds_nil : connFds [] = 0 := rfl

theorem connFds_append (q r : Stailq Connection) : connFds (q ++ r) = connFds q + connFds r := by
  simp [connFds]

theorem connFds_cons (n : Node Connection) (q : Stailq Connection) :
    connFds (n :: q) = {n.val.connFd, n.val.timerFd} + connFds q := by
  simp [connFds]

theorem mem_connFds {q : Stailq Connection} {fd : Int} :
    fd ∈ connFds q ↔ ∃ n ∈ q, fd = n.val.connFd ∨ fd = n.val.timerFd := by
  induction q with
  | nil => simp
  | cons n q ih => simp [connFds_cons, ih, or_assoc]

theorem card_connFds (q : Stailq Connection) : (connFds q).card = 2 * q.length := by
  induction q with
  | nil => rfl
  | cons n q ih => rw [connFds_cons, Multiset.card_add, ih]; simp; omega

namespace View.Mirror

theorem even (h : v.Mirror) : v.clients.length % 2 = 0 := by
  have hcard := congrArg Multiset.card h.fds
  rw [card_connFds] at hcard
  simp at hcard
  omega

theorem fds_middle (h : v.Mirror) (hconns : v.conns = P ++ ⟨a, c⟩ :: R) :
    (v.clients.map PollFd.fd : Multiset Int) =
      c.connFd ::ₘ c.timerFd ::ₘ connFds (P ++ R) := by
  rw [h.fds, hconns, connFds_append, connFds_cons, connFds_append]
  simp only [Multiset.insert_eq_cons, Multiset.cons_add, Multiset.add_cons,
    Multiset.singleton_add]

theorem connFd_mem (h : v.Mirror) (hconns : v.conns = P ++ ⟨a, c⟩ :: R) :
    c.connFd ∈ v.clients.map PollFd.fd := by
  rw [← Multiset.mem_coe, h.fds_middle hconns]
  simp

theorem timerFd_mem (h : v.Mirror) (hconns : v.conns = P ++ ⟨a, c⟩ :: R) :
    c.timerFd ∈ v.clients.map PollFd.fd := by
  rw [← Multiset.mem_coe, h.fds_middle hconns]
  simp

theorem addr_not_mem (h : v.Mirror) (hconns : v.conns = P ++ ⟨a, c⟩ :: R) : a ∉ P.addrs := by
  have haddrs := h.addrs
  rw [hconns, Stailq.addrs, List.map_append, List.map_cons, List.nodup_append] at haddrs
  exact fun ha => haddrs.2.2 a ha a (by simp) rfl

end View.Mirror

/-! ## What the operations change -/

@[simp] theorem reported_fds (revents : Nat → Events) (L : List PollFd) :
    (reported revents L).map PollFd.fd = L.map PollFd.fd := by
  apply List.ext_getElem (by simp [reported])
  intro i hi hi'
  simp [reported]

@[simp] theorem clearFirst_fds (fd : Int) (L : List PollFd) :
    (clearFirst fd L).map PollFd.fd = L.map PollFd.fd := by
  unfold clearFirst
  split
  · rfl
  · apply List.ext_getElem (by simp)
    intro i hi hi'
    rw [List.getElem_map, List.getElem_map, List.getElem_modify]
    split <;> rfl

@[simp] theorem ConnInput.exchanged_openFds (inp : ConnInput) (c : Connection) (k : Kernel) :
    (inp.exchanged c k).openFds = k.openFds := by
  unfold ConnInput.exchanged
  dsimp only
  split
  · rfl
  · split <;> rfl

@[simp] theorem refreshTimer_openFds (fd : Int) (r : Option Errno) (k : Kernel) :
    (refreshTimer fd r k).openFds = k.openFds := by
  unfold refreshTimer Kernel.timerfdSettime
  split
  · rfl
  · split <;> rfl

@[simp] theorem createNonBlockingTimer_none (settime : Option Errno) (k : Kernel) :
    createNonBlockingTimer none settime k = (-9, k) := rfl

@[simp] theorem createNonBlockingTimer_fail (fd : Nat) (e : Errno) (k : Kernel) :
    createNonBlockingTimer (some fd) (some e) k = (-(e : Int), k.opened fd) := by
  have hfd : ¬ (fd : Int) < 0 := by omega
  simp [createNonBlockingTimer, Kernel.timerfdCreate, Kernel.timerfdSettime, hfd]

@[simp] theorem createNonBlockingTimer_ok (fd : Nat) (k : Kernel) :
    createNonBlockingTimer (some fd) none k = ((fd : Int), (k.opened fd).arm fd) := by
  have hfd : ¬ (fd : Int) < 0 := by omega
  simp [createNonBlockingTimer, Kernel.timerfdCreate, Kernel.timerfdSettime, hfd]

/-- A new connection's entries come after the others. -/
theorem View.add_eventsOf {fd : Int} (hfd : fd ∈ v.entries.map PollFd.fd) (k : Kernel) :
    (v.add a c k).eventsOf fd = v.eventsOf fd := by
  obtain ⟨i, p, -, -, hfind⟩ := exists_findIdx? hfd
  have hfind' : (v.add a c k).entries.find? (·.fd = fd) = some p := by
    have hentries : (v.add a c k).entries = v.entries ++ [watch c.connFd, watch c.timerFd] := rfl
    rw [hentries, List.find?_append, hfind, Option.some_or]
  rw [eventsOf, eventsOf, hfind, hfind']

theorem remove_openFds {fd fd' : Int} (hne : fd' ≠ fd) (hopen : fd' ∈ v.kernel.openFds) :
    fd' ∈ (v.remove fd).kernel.openFds := by
  simp only [View.remove]
  split
  · exact Finset.mem_erase.2 ⟨hne, hopen⟩
  · exact hopen

/-! ## The parts of a round keep the mirror -/

/-- What a round's environment guarantees: new descriptors are not open, and
malloc returns an address not in use. -/
structure Valid (inp : RoundInput) (q : Stailq Connection) (k : Kernel) : Prop where
  accept : ∀ fd, inp.accept = some fd → (fd : Int) ∉ k.openFds
  timer : ∀ fd, inp.timerfdCreate = some fd → (fd : Int) ∉ k.openFds ∧ inp.accept ≠ some fd
  malloc : ∀ a, inp.malloc = some a → a ∉ q.addrs

/-- The descriptors of a new connection are negative, or were not open before,
and no descriptor has been closed. -/
theorem newConnection_spec {inp : RoundInput} {k : Kernel} {q : Stailq Connection}
    (hvalid : Valid inp q k) {fd : Int} (hopen : fd ∈ k.openFds) (hfd : 0 ≤ fd) :
    fd ≠ (newConnection inp k).1.connFd ∧ fd ≠ (newConnection inp k).1.timerFd ∧
      fd ∈ (newConnection inp k).2.openFds := by
  have hne : ∀ g : Nat, (g : Int) ∉ k.openFds → fd ≠ g := fun g hg hfg => hg (hfg ▸ hopen)
  have hconn : fd ≠ (newConnection inp k).1.connFd := by
    cases haccept : inp.accept with
    | none => simp [newConnection, haccept, Kernel.accept]; omega
    | some g =>
      simpa [newConnection, haccept, Kernel.accept] using hne g (hvalid.accept g haccept)
  refine ⟨hconn, ?_, ?_⟩
  · cases htimer : inp.timerfdCreate with
    | none => simp [newConnection, htimer]; omega
    | some g =>
      cases hsettime : inp.settime with
      | none =>
        simpa [newConnection, htimer, hsettime] using hne g (hvalid.timer g htimer).1
      | some e =>
        have he := e.2
        simp [newConnection, htimer, hsettime]; omega
  · cases haccept : inp.accept <;> cases htimer : inp.timerfdCreate <;>
      cases hsettime : inp.settime <;>
      simp [newConnection, haccept, htimer, hsettime, Kernel.accept, Kernel.opened,
        Kernel.record, Kernel.advance, Kernel.arm, hopen]

namespace View.Mirror

theorem poll (h : v.Mirror) (revents : Nat → Events) (delay : Nat) :
    (v.poll revents delay).Mirror where
  fds := by simpa [View.poll] using h.fds
  listenerFresh := by simpa only [View.poll, reported_fds, PollFd.report_fd] using h.listenerFresh
  listenerOpen := h.listenerOpen
  listenerNonneg := h.listenerNonneg
  addrs := h.addrs

/-- poll reports the events of index 0 for the listening socket. -/
theorem polled_listener (h : v.Mirror) (revents : Nat → Events) (delay : Nat) :
    (v.poll revents delay).listener.revents = revents 0 :=
  if_neg (not_lt.2 h.listenerNonneg)

theorem add (h : v.Mirror) {inp : RoundInput} (hvalid : Valid inp v.conns v.kernel) {a : Nat}
    (ha : inp.malloc = some a) :
    (v.add a (newConnection inp v.kernel).1 (newConnection inp v.kernel).2).Mirror := by
  obtain ⟨hconn, htimer, hopen⟩ := newConnection_spec hvalid h.listenerOpen h.listenerNonneg
  refine ⟨?_, ?_, hopen, h.listenerNonneg, ?_⟩
  · have hfds := h.fds
    simp only [View.add, Stailq.insertTail, List.map_append, connFds_append, ← Multiset.coe_add,
      hfds, connFds_cons, connFds_nil, add_zero]
    rfl
  · have hfresh := h.listenerFresh
    simp only [View.add, List.map_append, List.mem_append, not_or]
    exact ⟨hfresh, by simpa [watch] using ⟨hconn, htimer⟩⟩
  · have haddr := hvalid.malloc a ha
    simp only [View.add, Stailq.insertTail, Stailq.addrs, List.map_append, List.map_cons,
      List.map_nil]
    exact List.nodup_append.2 ⟨h.addrs, by simp, by
      rintro x hx y hy rfl
      exact haddr (by simpa using (List.mem_singleton.1 hy) ▸ hx)⟩

theorem serve (h : v.Mirror) (inp : ConnInput) (c : Connection) : (v.serve inp c).Mirror where
  fds := by simpa [View.serve] using h.fds
  listenerFresh := by simpa only [View.serve, clearFirst_fds] using h.listenerFresh
  listenerOpen := by
    simpa [View.serve, Kernel.advance] using h.listenerOpen
  listenerNonneg := h.listenerNonneg
  addrs := h.addrs

theorem delete (h : v.Mirror) (hconns : v.conns = P ++ ⟨a, c⟩ :: R) :
    (v.delete a c).Mirror ∧ (v.delete a c).conns = P ++ R := by
  have hrest : (v.delete a c).conns = P ++ R := by
    simp only [View.delete, hconns]
    exact Stailq.remove_middle (h.addr_not_mem hconns)
  have hmid := h.fds_middle hconns
  have hne : v.listener.fd ≠ c.connFd ∧ v.listener.fd ≠ c.timerFd := by
    have hfresh := h.listenerFresh
    exact ⟨fun he => hfresh (he ▸ h.connFd_mem hconns),
      fun he => hfresh (he ▸ h.timerFd_mem hconns)⟩
  -- each `remove_fd` takes one descriptor from the buffer
  have hkeys₁ : ((v.remove c.connFd).clients.map PollFd.fd : Multiset Int) =
      c.timerFd ::ₘ connFds (P ++ R) := by
    rw [View.remove, eraseLast_keys (h.connFd_mem hconns), hmid, Multiset.erase_cons_head]
  have hmem₁ : c.timerFd ∈ (v.remove c.connFd).clients.map PollFd.fd := by
    rw [← Multiset.mem_coe, hkeys₁]
    simp
  have hkeys₂ : ((v.delete a c).clients.map PollFd.fd : Multiset Int) = connFds (P ++ R) := by
    have hkeys := eraseLast_keys hmem₁
    rw [hkeys₁, Multiset.erase_cons_head] at hkeys
    exact hkeys
  refine ⟨⟨by rw [hkeys₂, hrest], ?_, ?_, h.listenerNonneg, ?_⟩, hrest⟩
  · intro hmem
    have hsub : (v.delete a c).clients ⊆ v.clients :=
      fun p hp => eraseLast_subset (eraseLast_subset hp)
    exact h.listenerFresh (List.map_subset _ hsub hmem)
  · exact remove_openFds hne.2 (remove_openFds hne.1 h.listenerOpen)
  · have haddrs := h.addrs
    rw [hconns] at haddrs
    rw [hrest]
    refine haddrs.sublist ?_
    simp [Stailq.addrs]

/-- The connection stays in the queue, or it goes when it is doomed. -/
theorem process (h : v.Mirror) (hconns : v.conns = P ++ ⟨a, c⟩ :: R) (inp : ConnInput) :
    (v.process inp a c).Mirror ∧
      (v.process inp a c).conns = P ++ if v.doomed inp c then R else ⟨a, c⟩ :: R := by
  have hserved : (if v.socketReady c then v.serve inp c else v).Mirror ∧
      (if v.socketReady c then v.serve inp c else v).conns = P ++ ⟨a, c⟩ :: R := by
    split
    · exact ⟨h.serve inp c, hconns⟩
    · exact ⟨h, hconns⟩
  by_cases hdoomed : v.doomed inp c = true
  · simpa only [View.process, hdoomed, if_true] using hserved.1.delete hserved.2
  · simpa only [View.process, if_neg hdoomed] using hserved

/-- The connections after `c` are still at the end of the queue. -/
theorem process_conns (h : v.Mirror) (hconns : v.conns = P ++ ⟨a, c⟩ :: R) (inp : ConnInput) :
    ∃ P', (v.process inp a c).conns = P' ++ R := by
  rw [(h.process hconns inp).2]
  split
  · exact ⟨P, rfl⟩
  · exact ⟨P ++ [⟨a, c⟩], by simp⟩

end View.Mirror

/-! ## The pass and the round -/

/-- The pass over the connections of `q`. -/
def View.passOver (inp : Nat → ConnInput) (q : Stailq Connection) (v : View) : View :=
  q.foldl (fun v n => v.process (inp n.addr) n.addr n.val) v

/-- The state after "Add new connection". -/
def View.accepted (inp : RoundInput) (v : View) : View :=
  if v.listener.revents.has pollIn then
    inp.malloc.elim v fun a =>
      v.add a (newConnection inp v.kernel).1 (newConnection inp v.kernel).2
  else v

theorem View.accepted_cases (inp : RoundInput) (v : View) : v.accepted inp = v ∨
    ∃ a, inp.malloc = some a ∧ v.listener.revents.has pollIn ∧ v.accepted inp =
      v.add a (newConnection inp v.kernel).1 (newConnection inp v.kernel).2 := by
  unfold View.accepted
  split
  case isTrue hready =>
    cases inp.malloc with
    | none => exact .inl rfl
    | some a => exact .inr ⟨a, rfl, hready, rfl⟩
  case isFalse => exact .inl rfl

/-- The state after a round in which poll reports `revents`. -/
def View.round (inp : RoundInput) (revents : Nat → Events) (v : View) : View :=
  ((v.poll revents inp.pollDelay).accepted inp).passOver inp.conn
    ((v.poll revents inp.pollDelay).accepted inp).conns

/-- The `next` pointer is read before the connection is processed. -/
theorem Server.Shows.passFrom_cons (inp : Nat → ConnInput) (h : s.Shows v) (hm : v.Mirror)
    (hconns : v.conns = P ++ ⟨a, c⟩ :: R) :
    passFrom inp (⟨a, c⟩ :: R).length (Stailq.first (⟨a, c⟩ :: R)) s =
      (processConnection (inp a) a s >>= passFrom inp R.length (Stailq.first R)) := by
  have hnext : s.connsQueue.next a = Stailq.first R := by
    rw [h.conns, hconns, Stailq.next_middle (hm.addr_not_mem hconns)]
  rw [List.length_cons, show Stailq.first (⟨a, c⟩ :: R) = some a from rfl, passFrom, hnext]

/-- Both entries of a connection of the queue are found. -/
theorem Server.Shows.processQueued_spec (inp : ConnInput) (h : s.Shows v) (hm : v.Mirror)
    (hconns : v.conns = P ++ ⟨a, c⟩ :: R) :
    (∃ e, inp.exchange = .error e ∧ processConnection inp a s = .error (.returned e)) ∨
    ∃ s', processConnection inp a s = .ok s' ∧ s'.Shows (v.process inp a c) := by
  have hget : v.conns.get a = some c := by
    rw [hconns, Stailq.get_middle (hm.addr_not_mem hconns)]
  have hne : v.listener.fd ≠ c.timerFd :=
    fun he => hm.listenerFresh (he ▸ hm.timerFd_mem hconns)
  rcases h.processConnection_spec inp hget (hm.connFd_mem hconns) (hm.timerFd_mem hconns) hne with
    ⟨e, -, he, herr⟩ | hok
  · exact .inl ⟨e, he, herr⟩
  · exact .inr hok

/-- The pass goes through the connections in order, whichever of them it
deletes: the node of the next one stays in the queue. -/
theorem Server.Shows.passFrom_spec (inp : Nat → ConnInput) (h : s.Shows v) (hm : v.Mirror)
    (hconns : v.conns = P ++ R) :
    (∃ n ∈ R, ∃ e, (inp n.addr).exchange = .error e ∧
      passFrom inp R.length (Stailq.first R) s = .error (.returned e)) ∨
    ∃ s', passFrom inp R.length (Stailq.first R) s = .ok s' ∧ s'.Shows (v.passOver inp R) ∧
      (v.passOver inp R).Mirror := by
  induction R generalizing s v P with
  | nil => exact .inr ⟨s, rfl, h, hm⟩
  | cons n R ih =>
    obtain ⟨a, c⟩ := n
    rw [h.passFrom_cons inp hm hconns]
    rcases h.processQueued_spec (inp a) hm hconns with ⟨e, he, herr⟩ | ⟨s₁, hok, h₁⟩
    · exact .inl ⟨⟨a, c⟩, by simp, e, he, by rw [herr]; rfl⟩
    · rw [hok, Except.bind_ok]
      obtain ⟨P', hP'⟩ := hm.process_conns hconns (inp a)
      rcases ih h₁ (hm.process hconns (inp a)).1 hP' with ⟨n, hn, he⟩ | hdone
      · exact .inl ⟨n, List.mem_cons_of_mem _ hn, he⟩
      · exact .inr hdone

/-- The pass from its first connection. -/
theorem Server.Shows.pass_spec (inp : RoundInput) (h : s.Shows v) (hm : v.Mirror) :
    (∃ n ∈ v.conns, ∃ e, (inp.conn n.addr).exchange = .error e ∧
      pass inp s = .error (.returned e)) ∨
    ∃ s', pass inp s = .ok s' ∧ s'.Shows (v.passOver inp.conn v.conns) ∧
      (v.passOver inp.conn v.conns).Mirror := by
  rw [pass, h.conns]
  exact h.passFrom_spec inp.conn hm (P := []) rfl

/-- A round up to "Process existing connections". -/
def pollAndAccept (inp : RoundInput) (s : Server) : Except Halt Server := do
  let s ← mypoll inp s
  addConnection inp s

theorem round_eq (inp : RoundInput) (s : Server) :
    round inp s = pollAndAccept inp s >>= pass inp := by
  unfold round pollAndAccept
  cases mypoll inp s <;> rfl

theorem Valid.poll {inp : RoundInput} (hvalid : Valid inp v.conns v.kernel)
    (revents : Nat → Events) (delay : Nat) :
    Valid inp (v.poll revents delay).conns (v.poll revents delay).kernel :=
  ⟨hvalid.accept, hvalid.timer, hvalid.malloc⟩

theorem Server.Shows.pollAndAccept_spec {inp : RoundInput} (h : s.Shows v) (hm : v.Mirror)
    (hlen : s.fdsBuf.len < 2 ^ 27) (hvalid : Valid inp s.connsQueue s.kernel) :
    pollAndAccept inp s = .error .pollFailed ∨
    pollAndAccept inp s = .error (.assertFailed .insertFd) ∨
    pollAndAccept inp s = .error (.assertFailed .insertConnection) ∨
    ∃ revents s', inp.poll = some revents ∧ pollAndAccept inp s = .ok s' ∧
      s'.Shows ((v.poll revents inp.pollDelay).accepted inp) ∧
      ((v.poll revents inp.pollDelay).accepted inp).Mirror := by
  cases hpoll : inp.poll with
  | none => exact .inl (by simp [pollAndAccept, mypoll, hpoll])
  | some revents =>
    apply Or.inr
    obtain ⟨s₁, hok₁, h₁⟩ := h.mypoll_spec hpoll
    have hm₁ := hm.poll revents inp.pollDelay
    have hvalid₁ : Valid inp (v.poll revents inp.pollDelay).conns
        (v.poll revents inp.pollDelay).kernel := by
      rw [h.conns, h.kernel] at hvalid
      exact hvalid.poll revents inp.pollDelay
    have hlen₁ : s₁.fdsBuf.len < 2 ^ 27 := by
      rw [mypoll_len hok₁]
      exact hlen
    have hadd : pollAndAccept inp s = addConnection inp s₁ := by simp [pollAndAccept, hok₁]
    rw [hadd]
    cases hready : (v.poll revents inp.pollDelay).listener.revents.has pollIn with
    | false =>
      refine .inr (.inr ⟨revents, s₁, rfl, h₁.addConnection_idle hready, ?_, ?_⟩)
      · simpa [View.accepted, hready] using h₁
      · simpa [View.accepted, hready] using hm₁
    | true =>
      rcases h₁.addConnection_spec inp hlen₁ hm₁.even hready with
        herr | herr | ⟨a, s₂, hmalloc, hok₂, h₂⟩
      · exact .inl herr
      · exact .inr (.inl herr)
      · refine .inr (.inr ⟨revents, s₂, rfl, hok₂, ?_, ?_⟩)
        · simpa [View.accepted, hready, hmalloc] using h₂
        · simpa [View.accepted, hready, hmalloc] using hm₁.add hvalid₁ hmalloc

/-- A round ends in one of the ways `main` foresees, or comes back to the top
of the loop with a view that still mirrors the queue. -/
theorem Server.Shows.round_spec {inp : RoundInput} (h : s.Shows v) (hm : v.Mirror)
    (hlen : s.fdsBuf.len < 2 ^ 27) (hvalid : Valid inp s.connsQueue s.kernel) :
    round inp s = .error .pollFailed ∨
    round inp s = .error (.assertFailed .insertFd) ∨
    round inp s = .error (.assertFailed .insertConnection) ∨
    (∃ e, round inp s = .error (.returned e)) ∨
    ∃ revents s', inp.poll = some revents ∧ round inp s = .ok s' ∧
      s'.Shows (v.round inp revents) ∧ (v.round inp revents).Mirror := by
  rw [round_eq]
  rcases h.pollAndAccept_spec hm hlen hvalid with
    herr | herr | herr | ⟨revents, s₁, hpoll, hok, h₁, hm₁⟩
  · exact .inl (by rw [herr]; rfl)
  · exact .inr (.inl (by rw [herr]; rfl))
  · exact .inr (.inr (.inl (by rw [herr]; rfl)))
  · rw [hok, Except.bind_ok]
    rcases h₁.pass_spec inp hm₁ with ⟨-, -, e, -, herr⟩ | ⟨s', hok', hs'⟩
    · exact .inr (.inr (.inr (.inl ⟨e, herr⟩)))
    · exact .inr (.inr (.inr (.inr ⟨revents, s', hpoll, hok', hs'⟩)))

/-! ## Runs of the server -/

/-- `main` at the first top of its loop, with an open listening socket, no
armed timers and nothing recorded. -/
def Start (s : Server) : Prop :=
  ∃ (socketFd : Nat) (reallocOk : Bool) (k : Kernel), (socketFd : Int) ∈ k.openFds ∧
    (∀ fd, k.deadline fd = none) ∧ k.log = [] ∧ startUp socketFd reallocOk k = .ok s

/-- A round that comes back to the top of the loop, with fewer than 2^27 entries. -/
def Round (s : Server) (inp : RoundInput) (s' : Server) : Prop :=
  s.fdsBuf.len < 2 ^ 27 ∧ Valid inp s.connsQueue s.kernel ∧ round inp s = .ok s'

/-- The state `startUp` leaves. -/
def started (socketFd : Nat) (k : Kernel) : Server :=
  ⟨socketFd, ⟨16, 1, some (some (watch socketFd) :: List.replicate 15 none)⟩, [], k⟩

theorem startUp_eq (socketFd : Nat) (reallocOk : Bool) (k : Kernel) :
    startUp socketFd reallocOk k = .ok (started socketFd k) := rfl

/-- The view at the first top of the loop. -/
theorem Start.shows (h : Start s) :
    ∃ fd : Nat, s.Shows ⟨watch fd, [], [], s.kernel⟩ ∧ (fd : Int) ∈ s.kernel.openFds ∧
      (∀ fd, s.kernel.deadline fd = none) ∧ s.kernel.log = [] := by
  obtain ⟨fd, reallocOk, k, hopen, hdeadline, hlog, hstart⟩ := h
  rw [startUp_eq] at hstart
  obtain rfl := Except.ok.inj hstart
  have hbuf : (started fd k).fdsBuf.Holds [watch fd] :=
    ⟨⟨List.replicate 15 none, rfl, rfl⟩, rfl, by simp [started], ⟨0, rfl⟩, by simp [started]⟩
  exact ⟨fd, ⟨rfl, hbuf, rfl, rfl⟩, hopen, hdeadline, hlog⟩

theorem View.Mirror.start {fd : Nat} {k : Kernel} (hopen : (fd : Int) ∈ k.openFds) :
    View.Mirror ⟨watch fd, [], [], k⟩ :=
  ⟨rfl, by simp, hopen, Int.natCast_nonneg fd, by simp [Stailq.addrs]⟩

theorem Start.mirror (h : Start s) : ∃ v, s.Shows v ∧ v.Mirror := by
  obtain ⟨fd, hshows, hopen, -, -⟩ := h.shows
  exact ⟨_, hshows, .start hopen⟩

/-- The two halves of a round that comes back to the top of the loop. -/
theorem Round.halves {s' : Server} {inp : RoundInput} (h : Round s inp s') (hshows : s.Shows v)
    (hm : v.Mirror) :
    ∃ revents s₁ w, inp.poll = some revents ∧ pollAndAccept inp s = .ok s₁ ∧ pass inp s₁ = .ok s' ∧
      w = (v.poll revents inp.pollDelay).accepted inp ∧ s₁.Shows w ∧ w.Mirror ∧
      s'.Shows (w.passOver inp.conn w.conns) ∧ (w.passOver inp.conn w.conns).Mirror := by
  obtain ⟨hlen, hvalid, hround⟩ := h
  rw [round_eq] at hround
  obtain ⟨s₁, hok, hpass⟩ := Except.bind_eq_ok.1 hround
  rcases hshows.pollAndAccept_spec hm hlen hvalid with
    herr | herr | herr | ⟨revents, s₂, hpoll, hok', h₁, hm₁⟩
  · rw [herr] at hok; cases hok
  · rw [herr] at hok; cases hok
  · rw [herr] at hok; cases hok
  · obtain rfl := Except.ok.inj (hok.symm.trans hok')
    rcases h₁.pass_spec inp hm₁ with ⟨-, -, e, -, herr⟩ | ⟨s₃, hok₃, h₃, hm₃⟩
    · rw [herr] at hpass; cases hpass
    · obtain rfl := Except.ok.inj (hok₃.symm.trans hpass)
      exact ⟨revents, s₁, _, hpoll, hok, hpass, rfl, h₁, hm₁, h₃, hm₃⟩

theorem Round.mirror {s' : Server} {inp : RoundInput} (h : Round s inp s')
    (hs : ∃ v, s.Shows v ∧ v.Mirror) : ∃ v, s'.Shows v ∧ v.Mirror := by
  obtain ⟨v, hshows, hm⟩ := hs
  obtain ⟨-, -, w, -, -, -, -, -, -, hshows', hm'⟩ := h.halves hshows hm
  exact ⟨_, hshows', hm'⟩

theorem Reachable.mirror (h : Reachable Start Round s) : ∃ v, s.Shows v ∧ v.Mirror :=
  h.invariant (I := fun s => ∃ v, s.Shows v ∧ v.Mirror) (fun _ => Start.mirror)
    fun _ _ _ hs hround => Round.mirror hround hs

/-- At every loop top the buffer holds the listening socket at index 0 and
after it the descriptors of the connections in the queue. So the next round
finds both descriptors of every connection it processes: neither assertion
about them fires, and the round does not fault either. -/
theorem buffer_mirrors_queue (h : Reachable Start Round s) :
    (∃ listener clients, s.fdsBuf.contents = listener :: clients ∧ listener.fd = s.socketFd ∧
      (clients.map PollFd.fd : Multiset Int) = connFds s.connsQueue) ∧
    ∀ inp, s.fdsBuf.len < 2 ^ 27 → Valid inp s.connsQueue s.kernel →
      round inp s ≠ .error (.assertFailed .connfd) ∧
      round inp s ≠ .error (.assertFailed .timerfd) ∧
      round inp s ≠ .error .useAfterFree ∧ round inp s ≠ .error .endless ∧
      ∀ f, round inp s ≠ .error (.fault f) := by
  obtain ⟨v, hshows, hm⟩ := Reachable.mirror h
  refine ⟨⟨v.listener, v.clients, hshows.fdsBuf.contents_eq, hshows.socketFd.symm, ?_⟩, ?_⟩
  · rw [hshows.conns]
    exact hm.fds
  · intro inp hlen hvalid
    rcases hshows.round_spec hm hlen hvalid with
      herr | herr | herr | ⟨e, herr⟩ | ⟨revents, s₁, -, hok, -, -⟩
    · simp [herr]
    · simp [herr]
    · simp [herr]
    · simp [herr]
    · simp [hok]

/-- A process that has only its listening socket open. -/
def freshKernel : Kernel := ⟨0, {3}, fun _ => none, []⟩

theorem started_fresh : Start (started 3 freshKernel) :=
  ⟨3, true, freshKernel, by decide, fun _ => rfl, rfl, startUp_eq 3 true freshKernel⟩

/-- The first client connects: accept returns 4, timerfd_create 5 and malloc 1. -/
def connecting (client : ConnInput) : RoundInput :=
  ⟨0, some fun _ => pollIn, 0, some 4, 0, some 5, none, true, true, some 1, fun _ => client⟩

theorem connecting_valid (client : ConnInput) : Valid (connecting client) [] freshKernel := by
  refine ⟨?_, ?_, by simp [Stailq.addrs]⟩
  · rintro _ ⟨rfl⟩
    decide
  · rintro _ ⟨rfl⟩
    exact ⟨by decide, by simp [connecting]⟩

theorem nil_length_le : ([] : List UInt8).length ≤ bufSize - 1 := Nat.zero_le _

/-- A client that closes its connection, once it is asked. -/
def quiet : ConnInput := ⟨0, .data [] nil_length_le, .sent 0, 0, none, true, true⟩

/-- The second client connects a second later: accept returns 6, timerfd_create 7 and
malloc 2. -/
def connectingNext (client : ConnInput) : RoundInput :=
  { connecting client with
    pollDelay := 10 ^ 9
    poll := some fun i => if i = 0 then pollIn else 0
    accept := some 6
    timerfdCreate := some 7
    malloc := some 2 }

/-- Nobody connects. -/
def serving (pollDelay : Nat) (revents : Nat → Events) (conn : Nat → ConnInput) : RoundInput :=
  { connecting quiet with
    pollDelay := pollDelay
    poll := some revents
    accept := none
    timerfdCreate := none
    malloc := none
    conn := conn }

theorem serving_valid {pollDelay : Nat} {revents : Nat → Events} {conn : Nat → ConnInput}
    {q : Stailq Connection} {k : Kernel} : Valid (serving pollDelay revents conn) q k := by
  constructor <;> intro _ h <;> cases h

def twoClients : Except Halt Server :=
  round (connecting quiet) (started 3 freshKernel) >>= round (connectingNext quiet)

theorem twoClients_rounds (h : twoClients = .ok s) : ∃ s₁,
    Round (started 3 freshKernel) (connecting quiet) s₁ ∧ Round s₁ (connectingNext quiet) s ∧
      s₁.connsQueue = [⟨1, ⟨4, 5⟩⟩] ∧
      s₁.fdsBuf.contents = [⟨3, pollIn, pollIn⟩, ⟨4, pollIn, 0⟩, ⟨5, pollIn, 0⟩] ∧
      s₁.kernel.deadline 5 = some (3 * 10 ^ 9) ∧ s₁.kernel.now = 0 := by
  obtain ⟨s₁, hfirst, hsecond⟩ := Except.bind_eq_ok.1 h
  have hfacts : (round (connecting quiet) (started 3 freshKernel)).map (fun s₁ =>
      decide (s₁.fdsBuf.len = 3 ∧ (6 : Int) ∉ s₁.kernel.openFds ∧ (7 : Int) ∉ s₁.kernel.openFds ∧
        s₁.connsQueue = [⟨1, ⟨4, 5⟩⟩] ∧
        s₁.fdsBuf.contents = [⟨3, pollIn, pollIn⟩, ⟨4, pollIn, 0⟩, ⟨5, pollIn, 0⟩] ∧
        s₁.kernel.deadline 5 = some (3 * 10 ^ 9) ∧ s₁.kernel.now = 0)) = .ok true := by
    decide +kernel
  rw [hfirst] at hfacts
  obtain ⟨hlen, hsix, hseven, hconns, hcontents, hdeadline, hnow⟩ :=
    of_decide_eq_true (Except.ok.inj hfacts)
  refine ⟨s₁, ⟨show 1 < 2 ^ 27 by decide, connecting_valid quiet, hfirst⟩,
    ⟨by rw [hlen]; decide, ⟨?_, ?_, ?_⟩, hsecond⟩, hconns, hcontents, hdeadline, hnow⟩
  · rintro _ ⟨rfl⟩
    exact hsix
  · rintro _ ⟨rfl⟩
    exact ⟨hseven, by simp [connectingNext]⟩
  · rintro _ ⟨rfl⟩
    rw [hconns]
    decide

theorem twoClients_reachable (h : twoClients = .ok s) : Reachable Start Round s := by
  obtain ⟨s₁, hfirst, hsecond, -⟩ := twoClients_rounds h
  exact ((Reachable.start started_fresh).next hfirst).next hsecond

/-- Two clients have connected, and the first one has left: both descriptors of the
second one are in the buffer. -/
theorem buffer_mirrors_queue_left :
    ∃ s : Server, s.connsQueue = [⟨2, ⟨6, 7⟩⟩] ∧ s.fdsBuf.len = 3 ∧
      ∃ listener clients, s.fdsBuf.contents = listener :: clients ∧ listener.fd = s.socketFd ∧
        (clients.map PollFd.fd : Multiset Int) = connFds s.connsQueue := by
  let leave := serving 0 (fun i => if i = 1 then pollIn else 0) fun _ => quiet
  have hrun : (twoClients >>= fun s => (round leave s).map fun s' =>
      decide (s.fdsBuf.len = 5 ∧ s'.connsQueue = [⟨2, ⟨6, 7⟩⟩] ∧ s'.fdsBuf.len = 3)) =
        .ok true := by
    decide +kernel
  obtain ⟨s, hconnect, hrest⟩ := Except.bind_eq_ok.1 hrun
  obtain ⟨s', hok, hfacts⟩ := Except.map_eq_ok.1 hrest
  obtain ⟨hlen, hconns, hlen'⟩ := of_decide_eq_true hfacts
  have hreach : Reachable Start Round s' :=
    (twoClients_reachable hconnect).next ⟨by rw [hlen]; decide, serving_valid, hok⟩
  exact ⟨s', hconns, hlen', (buffer_mirrors_queue hreach).1⟩

end LinuxNet.TimerServer
