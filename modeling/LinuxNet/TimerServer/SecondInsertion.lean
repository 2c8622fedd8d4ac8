-- SUMMARY: The unchecked insert_fd of a new connection's timer cannot fail, so every queued connection has its timer in the buffer.
import LinuxNet.TimerServer.Mirror

/-! # The second insertion

`main` drops the result of the `insert_fd` for the timer, and the assertion
after it tests the result of the first one again. Nothing goes wrong: there is
an odd number of entries at the top of the loop, so the first `insert_fd` leaves
an even one, and only an odd one fills the buffer. -/

namespace LinuxNet.TimerServer

variable {s s₂ : Server} {v : View} {inp : RoundInput} {c : Connection} {buf : FdBuffer}
variable {P Q R : Stailq Connection}

/-- Every connection of the queue has its timer in the buffer. -/
def Server.HasTimers (s : Server) : Prop :=
  ∀ n ∈ s.connsQueue, n.val.timerFd ∈ s.fdsBuf.contents.map PollFd.fd

/-- "Add new connection" comes to its second `insert_fd`, with the connection
`c` and the buffer `buf`. -/
structure SecondInsert (inp : RoundInput) (s : Server) (c : Connection) (buf : FdBuffer) :
    Prop where
  ready : ∃ listener, s.fdsBuf.load 0 = .ok listener ∧ listener.revents.has pollIn
  conn : (newConnection inp s.kernel).1 = c
  inserted : insertFd inp.reallocConn (watch c.connFd) s.fdsBuf = .ok (0, buf)

/-- The pass over the connections of `q`, before it moves on. -/
def passed (inp : Nat → ConnInput) (q : Stailq Connection) (s : Server) : Except Halt Server :=
  q.foldlM (fun s n => processConnection (inp n.addr) n.addr s) s

theorem View.Mirror.hasTimers (hm : v.Mirror) (h : s.Shows v) : s.HasTimers := by
  intro n hn
  rw [h.conns] at hn
  obtain ⟨P, R, hconns⟩ := List.append_of_mem hn
  rw [h.fdsBuf.contents_eq, List.map_cons]
  exact List.mem_cons_of_mem _ (hm.timerFd_mem hconns)

/-! ## The insertion -/

/-- What is left of "Add new connection" at its second `insert_fd`. -/
theorem SecondInsert.addConnection_eq (h : SecondInsert inp s c buf) :
    addConnection inp s =
      (insertFd inp.reallocTimer (watch c.timerFd) buf).mapError .fault >>= fun stored =>
        let added := insertConnection inp.malloc c s.connsQueue
        assertThat (added.1 = 0) .insertConnection >>= fun _ =>
          pure { s with
            fdsBuf := stored.2
            connsQueue := added.2
            kernel := (newConnection inp s.kernel).2 } := by
  obtain ⟨listener, hload, hready⟩ := h.ready
  have hinserted := h.inserted
  rw [← h.conn] at hinserted ⊢
  simp [addConnection, hload, hready, hinserted, assertThat]

/-- The buffer has an even number of entries when the timer is inserted. -/
theorem SecondInsert.room (h : SecondInsert inp s c buf) (hshows : s.Shows v) (hm : v.Mirror)
    (hlen : s.fdsBuf.len < 2 ^ 27) :
    buf.Holds (v.listener :: v.clients ++ [watch c.connFd]) ∧
      (v.listener :: v.clients ++ [watch c.connFd]).length + 1 < buf.size := by
  rw [hshows.fdsBuf.len] at hlen
  obtain ⟨r, b, hins, hcase⟩ :=
    hshows.fdsBuf.insertFd_spec hlen inp.reallocConn (watch c.connFd)
  obtain ⟨rfl, rfl⟩ := Prod.mk.inj (Except.ok.inj (hins.symm.trans h.inserted))
  rcases hcase with ⟨-, hholds⟩ | ⟨hzero, -, -⟩
  · refine ⟨hholds, hholds.room_even ?_⟩
    have heven := hm.even
    simp only [List.length_append, List.length_cons, List.length_nil]
    omega
  · cases hzero

/-- The second `insert_fd` stores the timer in the cells there are. -/
theorem SecondInsert.stores (h : SecondInsert inp s c buf) (hshows : s.Shows v) (hm : v.Mirror)
    (hlen : s.fdsBuf.len < 2 ^ 27) :
    buf.len + 1 ≠ buf.size ∧
      ∃ buf', buf'.size = buf.size ∧ buf'.contents = buf.contents ++ [watch c.timerFd] ∧
        (∀ reallocOk, insertFd reallocOk (watch c.timerFd) buf = .ok (0, buf')) ∧
        ∀ s₂, addConnection inp s = .ok s₂ → s₂.fdsBuf = buf' := by
  obtain ⟨hholds, hroom⟩ := h.room hshows hm hlen
  refine ⟨by rw [hholds.len]; exact hroom.ne, ?_⟩
  obtain ⟨buf', hins, hholds', hsize⟩ := hholds.insertFd_room hroom true (watch c.timerFd)
  have hany : ∀ reallocOk, insertFd reallocOk (watch c.timerFd) buf = .ok (0, buf') := by
    intro reallocOk
    rw [← hins, insertFd, insertFd, FdBuffer.grow, FdBuffer.grow,
      if_neg (by rw [hholds.len]; exact hroom.ne), if_neg (by rw [hholds.len]; exact hroom.ne)]
  refine ⟨buf', hsize, by rw [hholds'.contents_eq, hholds.contents_eq], hany, fun s₂ hs₂ => ?_⟩
  rw [h.addConnection_eq, hany] at hs₂
  cases hmalloc : inp.malloc with
  | none =>
    simp [hmalloc, insertConnection, assertThat, enomem] at hs₂
  | some a =>
    simp [hmalloc, insertConnection, assertThat] at hs₂
    rw [← hs₂]

/-! ## The pass -/

/-- The pass is the pass over the first connections, and then over the rest. -/
theorem Server.Shows.passFrom_append (input : Nat → ConnInput) (h : s.Shows v) (hm : v.Mirror)
    (hconns : v.conns = P ++ (Q ++ R)) :
    passFrom input (Q ++ R).length (Stailq.first (Q ++ R)) s =
      passed input Q s >>= passFrom input R.length (Stailq.first R) := by
  induction Q generalizing s v P with
  | nil => rfl
  | cons n Q ih =>
    obtain ⟨a, c⟩ := n
    rw [List.cons_append] at hconns ⊢
    rw [h.passFrom_cons input hm hconns, passed, List.foldlM_cons]
    rcases h.processQueued_spec (input a) hm hconns with ⟨e, -, herr⟩ | ⟨s₁, hok, h₁⟩
    · rw [herr]
      rfl
    · rw [hok, Except.bind_ok, Except.bind_ok]
      obtain ⟨P', hP'⟩ := hm.process_conns hconns (input a)
      exact ih h₁ (hm.process hconns (input a)).1 hP'

/-- After any number of connections the buffer mirrors the queue again. -/
theorem Server.Shows.passed_spec {s' : Server} {input : Nat → ConnInput} (h : s.Shows v)
    (hm : v.Mirror) (hconns : v.conns = P ++ (Q ++ R)) (hok : passed input Q s = .ok s') :
    ∃ w, s'.Shows w ∧ w.Mirror := by
  induction Q generalizing s v P with
  | nil =>
    obtain rfl := Except.ok.inj hok
    exact ⟨v, h, hm⟩
  | cons n Q ih =>
    obtain ⟨a, c⟩ := n
    rw [passed, List.foldlM_cons] at hok
    obtain ⟨s₁, hprocess, hrest⟩ := Except.bind_eq_ok.1 hok
    rcases h.processQueued_spec (input a) hm hconns with ⟨e, -, herr⟩ | ⟨s₂, hok₂, h₂⟩
    · rw [herr] at hprocess
      cases hprocess
    · obtain rfl := Except.ok.inj (hok₂.symm.trans hprocess)
      obtain ⟨P', hP'⟩ := hm.process_conns hconns (input a)
      exact ih h₂ (hm.process hconns (input a)).1 hP' hrest

/-- After "Add new connection" the buffer mirrors the queue. -/
theorem Server.Shows.added_mirror {s₁ : Server} (h : s.Shows v) (hm : v.Mirror)
    (hlen : s.fdsBuf.len < 2 ^ 27) (hvalid : Valid inp s.connsQueue s.kernel)
    (hpoll : mypoll inp s = .ok s₁) (hadd : addConnection inp s₁ = .ok s₂) :
    ∃ w, s₂.Shows w ∧ w.Mirror := by
  have hboth : pollAndAccept inp s = .ok s₂ := by
    rw [pollAndAccept, hpoll, Except.bind_ok, hadd]
  rcases h.pollAndAccept_spec hm hlen hvalid with
    herr | herr | herr | ⟨revents, s₃, -, hok, h₃, hm₃⟩
  · rw [herr] at hboth; cases hboth
  · rw [herr] at hboth; cases hboth
  · rw [herr] at hboth; cases hboth
  · obtain rfl := Except.ok.inj (hok.symm.trans hboth)
    exact ⟨_, h₃, hm₃⟩

/-- In a round of a run that finds fewer than 2^27 entries, the unchecked
`insert_fd` does not come to its realloc and returns 0. So every connection has
its timer in the buffer: at the top of the loop, when a connection has just been
queued, and whenever the pass moves on to the next connection. -/
theorem timer_inserted (h : Reachable Start Round s) :
    s.HasTimers ∧ ∀ inp s₁, s.fdsBuf.len < 2 ^ 27 → mypoll inp s = .ok s₁ →
      (∀ c buf, SecondInsert inp s₁ c buf → buf.len + 1 ≠ buf.size ∧
        ∃ buf', buf'.size = buf.size ∧ buf'.contents = buf.contents ++ [watch c.timerFd] ∧
          (∀ reallocOk, insertFd reallocOk (watch c.timerFd) buf = .ok (0, buf')) ∧
          ∀ s₂, addConnection inp s₁ = .ok s₂ → s₂.fdsBuf = buf') ∧
      (Valid inp s.connsQueue s.kernel → ∀ s₂, addConnection inp s₁ = .ok s₂ →
        ∀ Q R, s₂.connsQueue = Q ++ R →
          pass inp s₂ = passed inp.conn Q s₂ >>= passFrom inp.conn R.length (Stailq.first R) ∧
          ∀ s₃, passed inp.conn Q s₂ = .ok s₃ → s₃.HasTimers) := by
  obtain ⟨v, hshows, hm⟩ := Reachable.mirror h
  refine ⟨hm.hasTimers hshows, fun inp s₁ hlen hpoll => ⟨fun c buf hsecond => ?_, ?_⟩⟩
  · obtain ⟨revents, hrevents, -⟩ := mypoll_eq_ok hpoll
    obtain ⟨s₂, hok, h₁⟩ := hshows.mypoll_spec hrevents
    obtain rfl := Except.ok.inj (hok.symm.trans hpoll)
    exact hsecond.stores h₁ (hm.poll revents inp.pollDelay) (by rw [mypoll_len hpoll]; exact hlen)
  · intro hvalid s₂ hadd Q R hqueue
    obtain ⟨w, hw, hmw⟩ := hshows.added_mirror hm hlen hvalid hpoll hadd
    have hconns : w.conns = [] ++ (Q ++ R) := by rw [← hw.conns, hqueue, List.nil_append]
    refine ⟨?_, fun s₃ hpassed => ?_⟩
    · rw [pass, hqueue]
      exact hw.passFrom_append inp.conn hmw hconns
    · obtain ⟨w₃, hw₃, hm₃⟩ := hw.passed_spec hmw hconns hpassed
      exact hm₃.hasTimers hw₃

/-- The first client connects: its timer goes into the third of sixteen cells. -/
theorem timer_inserted_first :
    let inp := connecting ⟨0, .data [] (by decide), .sent 0, 0, none, true, true⟩
    let buf : FdBuffer :=
      ⟨16, 2, some (some ⟨3, pollIn, pollIn⟩ :: some (watch 4) :: List.replicate 14 none)⟩
    ∃ s₁ s₂, mypoll inp (started 3 freshKernel) = .ok s₁ ∧ SecondInsert inp s₁ ⟨4, 5⟩ buf ∧
      (∃ buf', ∀ reallocOk, insertFd reallocOk (watch 5) buf = .ok (0, buf')) ∧
      addConnection inp s₁ = .ok s₂ ∧ s₂.connsQueue = [⟨1, ⟨4, 5⟩⟩] ∧ s₂.HasTimers := by
  intro inp buf
  let s₁ : Server :=
    { started 3 freshKernel with
      fdsBuf := (started 3 freshKernel).fdsBuf.poll fun _ => pollIn
      kernel := freshKernel.advance 0 }
  obtain ⟨-, hround⟩ := timer_inserted (.start started_fresh)
  obtain ⟨hsecond, hpass⟩ := hround inp s₁ (by decide) rfl
  have hreached : SecondInsert inp s₁ ⟨4, 5⟩ buf := ⟨⟨⟨3, pollIn, pollIn⟩, rfl, rfl⟩, rfl, rfl⟩
  obtain ⟨-, buf', -, -, hstored, -⟩ := hsecond _ _ hreached
  exact ⟨s₁, _, rfl, hreached, ⟨buf', hstored⟩, rfl, rfl,
    (hpass (connecting_valid _) _ rfl [] _ rfl).2 _ rfl⟩

end LinuxNet.TimerServer
