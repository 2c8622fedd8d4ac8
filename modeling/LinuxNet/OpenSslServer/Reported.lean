-- SUMMARY: Why the TLS server removes a client: what poll has reported of it still holds when the loop comes to its slot.
import LinuxNet.OpenSslServer.Skipped
import LinuxNet.OpenSslServer.WantRead

/-! # What poll has reported

The loop moves clients between slots, and takes new ones in, while the events in the
slots are those of the last poll. It still reads only from a session whose socket has
something for it. -/

namespace LinuxNet.OpenSslServer

open Tls (Conn Record)

variable {s t : Server} {inp : RoundInput} {w w' : World} {l : Label} {ls : List Label}
  {i j : Nat} {x y : Session} {c : Conn} {sockServer : Nat} {openFds : Finset Int}

/-! ## What a visit leaves as it is -/

/-- The sessions that have been written to, in order. -/
def writes (calls : List Call) : List Session :=
  calls.filterMap fun
    | .sslWrite x => some x
    | _ => none

namespace Server

/-- Only poll changes the events, and this part of a visit writes to no session. -/
structure Silent (s t : Server) : Prop where
  server : t.sockServer = s.sockServer
  events : ∀ j, (t.fds j).revents = (s.fds j).revents
  calls : writes t.calls = writes s.calls

theorem Silent.trans {u : Server} (h : Silent s t) (h' : Silent t u) : Silent s u :=
  ⟨h'.server.trans h.server, fun j => (h'.events j).trans (h.events j), h'.calls.trans h.calls⟩

theorem silent_record {call : Call} (hcall : writes [call] = []) : Silent s (s.record call) := by
  refine ⟨rfl, fun _ => rfl, ?_⟩
  unfold writes at hcall ⊢
  rw [record, List.filterMap_append, hcall, List.append_nil]

theorem silent_close (i : Nat) : Silent s (s.close i) :=
  ⟨rfl, fun _ => rfl, (silent_record (s := s) rfl).calls⟩

theorem silent_setSlot (i : Nat) (fd : Int) (x : Option Session) : Silent s (s.setSlot i fd x) := by
  refine ⟨rfl, fun j => ?_, rfl⟩
  by_cases hj : j = i
  · simp [setSlot, hj]
  · simp [setSlot, hj]

theorem sslFree_silent (hfree : s.sslFree i = .ok t) : Silent s t := by
  unfold sslFree at hfree
  split at hfree
  · obtain rfl := Except.ok.inj hfree
    exact ⟨rfl, fun _ => rfl, rfl⟩
  · split at hfree
    · obtain rfl := Except.ok.inj hfree
      exact ⟨rfl, fun _ => rfl, (silent_record (s := s) rfl).calls⟩
    · cases hfree

theorem dropClient_silent (hdrop : s.dropClient i = .ok t) : Silent s t := by
  obtain ⟨u, hfree, ht⟩ := Except.bind_eq_ok.1 hdrop
  obtain rfl := Except.ok.inj ht
  have hfreed : Silent s u := (silent_close i).trans (sslFree_silent hfree)
  have hmoved := hfreed.trans (silent_setSlot i (u.fds (u.nfds - 1)).fd (u.arrSsl (u.nfds - 1)))
  obtain ⟨hserver, hevents, hcalls⟩ := hmoved.trans (silent_setSlot (u.nfds - 1) (-1) none)
  exact ⟨hserver, hevents, hcalls⟩

theorem handshake_silent (hshake : handshake inp s = .ok t) : Silent s t := by
  obtain ⟨x, -, hshake⟩ := Except.bind_eq_ok.1 hshake
  have haccept : Silent s (s.record (.sslAccept x)) := silent_record rfl
  dsimp only at hshake
  split at hshake
  · obtain rfl := Except.ok.inj hshake
    exact ⟨haccept.server, haccept.events, haccept.calls⟩
  · obtain ⟨u, hfree, ht⟩ := Except.bind_eq_ok.1 hshake
    obtain rfl := Except.ok.inj ht
    have hcleared := (haccept.trans (silent_close s.nfds)).trans
      (silent_setSlot s.nfds (-1) (s.arrSsl s.nfds))
    exact (hcleared.trans (sslFree_silent hfree)).trans (silent_setSlot u.nfds (-1) none)

theorem addClient_silent {fd : Nat} (hadd : addClient inp fd s = .ok t) : Silent s t := by
  have haccept : writes (s.record (.accept fd)).calls = writes s.calls :=
    (silent_record (s := s) rfl).calls
  unfold addClient at hadd
  dsimp only at hadd
  split at hadd
  · split at hadd
    · refine Silent.trans ?_ (handshake_silent hadd)
      refine ⟨rfl, fun j => ?_, ?_⟩
      · by_cases hj : j = s.nfds
        · simp [sslNew, record, hj]
        · simp [sslNew, record, hj]
      · simp [sslNew, record, writes]
    · obtain rfl := Except.ok.inj hadd
      exact ⟨rfl, fun _ => rfl, haccept⟩
  · obtain rfl := Except.ok.inj hadd
    exact ⟨rfl, fun _ => rfl, haccept⟩

/-- A client is answered unless it is dropped. -/
theorem Paired.serveClient_writes (h : s.Paired) (hx : s.arrSsl i = some x)
    (hserve : OpenSslServer.serveClient inp i s = .ok t) : t.sockServer = s.sockServer ∧
      (∀ j, (t.fds j).revents = (s.fds j).revents) ∧
      writes t.calls = writes s.calls ++ if disconnects (inp.sslRead x) then [] else [x] := by
  have hlive : x ∈ s.sessions.live := (h.live x).2 ⟨i, hx⟩
  have hread : Silent s (s.record (.sslRead x)) := silent_record rfl
  unfold OpenSslServer.serveClient at hserve
  rw [session_eq hx hlive, Except.bind_ok] at hserve
  dsimp only at hserve
  cases hresult : inp.sslRead x with
  | fail e =>
    rw [hresult] at hserve
    obtain ⟨hserver, hevents, hcalls⟩ := hread.trans (dropClient_silent hserve)
    exact ⟨hserver, hevents, by rw [hcalls]; exact (List.append_nil _).symm⟩
  | data bytes hb =>
    rw [hresult] at hserve
    dsimp only at hserve
    unfold disconnects
    split at hserve
    · rw [if_pos ‹_›, List.append_nil]
      obtain ⟨hserver, hevents, hcalls⟩ := hread.trans (dropClient_silent hserve)
      exact ⟨hserver, hevents, hcalls⟩
    · rw [if_neg ‹_›]
      have hwrite : ((s.record (.sslRead x)).record (.terminate bytes.length)).session i = .ok x :=
        session_eq hx hlive
      rw [hwrite, Except.bind_ok] at hserve
      obtain rfl := Except.ok.inj hserve
      exact ⟨rfl, fun _ => rfl, by simp [Server.record, writes]⟩

/-- What a visit writes, and that it changes no events. -/
theorem Paired.visit_writes (h : s.Paired) (hi : i < s.nfds)
    (hvisit : OpenSslServer.visit inp i s = .ok t) : t.sockServer = s.sockServer ∧
      (∀ j, (t.fds j).revents = (s.fds j).revents) ∧
      writes t.calls = writes s.calls ++ (if (s.fds i).revents.has pollIn ∧
        (s.fds i).fd ≠ s.sockServer then s.arrSsl i else none).toList.filter
          fun x => !disconnects (inp.sslRead x) := by
  unfold OpenSslServer.visit at hvisit
  by_cases hready : (s.fds i).revents.has pollIn = true
  · rw [if_pos hready] at hvisit
    by_cases hserver : (s.fds i).fd = s.sockServer
    · rw [if_pos hserver] at hvisit
      rw [if_neg fun hor => hor.2 hserver]
      split at hvisit
      · obtain rfl := Except.ok.inj hvisit
        exact ⟨rfl, fun _ => rfl, (List.append_nil _).symm⟩
      · obtain ⟨hsame, hevents, hcalls⟩ := addClient_silent hvisit
        exact ⟨hsame, hevents, by rw [hcalls]; exact (List.append_nil _).symm⟩
    · obtain ⟨x, -, hx, -⟩ := h.exists_session hi
      rw [if_neg hserver] at hvisit
      obtain ⟨hsame, hevents, hcalls⟩ := h.serveClient_writes hx hvisit
      have hread : (if (s.fds i).revents.has pollIn ∧ (s.fds i).fd ≠ s.sockServer then s.arrSsl i
          else none) = some x := (if_pos ⟨hready, hserver⟩).trans hx
      refine ⟨hsame, hevents, ?_⟩
      rw [hcalls, hread]
      cases hdrop : disconnects (inp.sslRead x) <;> simp [hdrop]
  · rw [if_neg hready] at hvisit
    obtain rfl := Except.ok.inj hvisit
    rw [if_neg fun hor => hready hor.1]
    exact ⟨rfl, fun _ => rfl, (List.append_nil _).symm⟩

/-- What a visit leaves in a slot that the loop has not come to. -/
theorem Paired.visit_ahead (h : s.Paired) (hi : i < s.nfds)
    (hvisit : OpenSslServer.visit inp i s = .ok t) (hij : i < j) (hj : j < t.nfds) :
    t.arrSsl j = s.arrSsl j ∨ i = 0 ∧ j = s.nfds := by
  rcases Nat.eq_zero_or_pos i with rfl | h1
  · obtain ⟨hnfds, hsame, -⟩ := h.visit_listener hvisit
    by_cases hlt : j < s.nfds
    · exact .inl (hsame j hlt).1
    · refine .inr ⟨rfl, ?_⟩
      split at hnfds <;> omega
  · obtain ⟨x, -, hx, -⟩ := h.exists_session hi
    exact .inl ((h.visit_client h1 hi hx hvisit).2.1 j ⟨hij, hj⟩).1

end Server

/-! ## The events and the connections -/

namespace World

/-- What poll has reported for a slot still holds, until the loop comes to it. Nothing
has been reported for the slot that a new client is put in. -/
structure Reported (w : World) (i : Nat) : Prop where
  ahead : ∀ j x, i ≤ j → j ≠ 0 → j < w.server.nfds → (w.server.fds j).revents.has pollIn →
    w.server.arrSsl j = some x → (w.conn x).Readable
  behind : i = 0 → w.server.nfds < maxConnection →
    (w.server.fds w.server.nfds).revents.has pollIn = false

/-- A change of the connections that takes nothing out of a socket. -/
theorem Reported.mono (h : w.Reported i) (hserver : w'.server = w.server)
    (hconn : ∀ x, (w.conn x).Readable → (w'.conn x).Readable) : w'.Reported i := by
  refine ⟨fun j x hij hj hlt hready hx => ?_, fun h0 hroom => ?_⟩
  · rw [hserver] at hlt hready hx
    exact hconn x (h.ahead j x hij hj hlt hready hx)
  · rw [hserver] at hroom ⊢
    exact h.behind h0 hroom

theorem readable_setConn (hc : (w.conn x).Readable → c.Readable) (y : Session)
    (hy : (w.conn y).Readable) : ((w.setConn x c).conn y).Readable := by
  by_cases hyx : y = x
  · subst hyx
    simpa [setConn] using hc hy
  · simpa [setConn, hyx] using hy

theorem Valid.reading_slot (hw : w.Valid) (hx : w.reading = some x) :
    ∃ i, w.slot = some i ∧ i ≠ 0 ∧ i < w.server.nfds ∧ w.server.arrSsl i = some x ∧
      (w.server.fds i).revents.has pollIn = true := by
  obtain ⟨i, hslot, h⟩ := Option.bind_eq_some_iff.1 hx
  obtain ⟨⟨hready, hserver⟩, hx⟩ := Option.ite_none_right_eq_some.1 h
  refine ⟨i, hslot, ?_, hw.slot i hslot, hx, hready⟩
  rintro rfl
  exact hserver hw.paired.listener

/-- The loop reads from a session whose socket poll would report. -/
theorem Valid.readable (hw : w.Valid) (hreported : ∀ i ∈ w.slot, w.Reported i)
    (hx : w.reading = some x) : (w.conn x).Readable := by
  obtain ⟨i, hslot, hi, hlt, harr, hready⟩ := hw.reading_slot hx
  exact (hreported i hslot).ahead i x le_rfl hi hlt hready harr

/-- A visit reads from no session in a slot that the loop has not come to. -/
theorem Valid.afterVisit_ahead (hw : w.Valid) (hslot : w.slot = some i) (hij : i < j)
    (hx : w.server.arrSsl j = some x) : w.afterVisit x = w.conn x := by
  have hlive : x ∈ w.server.sessions.live := (hw.paired.live x).2 ⟨j, hx⟩
  rw [afterVisit, if_pos hlive, if_neg]
  intro hread
  obtain ⟨k, hk, -, -, hxk, -⟩ := hw.reading_slot hread
  obtain rfl := Option.some.inj (hslot.symm.trans hk)
  exact hij.ne (hw.paired.dense.inj i j x hxk hx)

theorem Valid.reported_poll (hw : w.Valid) (waiting : Bool) (slot : Option Nat) :
    World.Reported ⟨w.server.poll (w.revents waiting), slot, w.conn⟩ 0 := by
  refine ⟨fun j x _ hj hlt hready hx => ?_, fun _ hroom => ?_⟩
  · have hbound := hw.paired.bound
    have hmax : j < maxConnection := Nat.lt_of_lt_of_le hlt hbound
    replace hx : w.server.arrSsl j = some x := hx
    simp only [Server.poll, if_pos hmax, PollFd.report, revents, if_neg hj, hx] at hready
    by_contra hnot
    simp [hnot] at hready
  · have hnone : w.server.arrSsl w.server.nfds = none := hw.paired.dense.eq_none le_rfl
    have hpos : w.server.nfds ≠ 0 := Nat.one_le_iff_ne_zero.1 hw.paired.pos
    replace hroom : w.server.nfds < maxConnection := hroom
    simp only [Server.poll, if_pos hroom, PollFd.report, revents, if_neg hpos, hnone, ite_self]
    exact Events.zero_has pollIn

/-- Every step keeps it. -/
theorem Valid.reported_step (hw : w.Valid) (hreported : ∀ i ∈ w.slot, w.Reported i)
    (h : Step w l w') : ∀ i ∈ w'.slot, w'.Reported i := by
  cases l with
  | write x r =>
    obtain ⟨-, rfl⟩ := Option.ite_some_none_eq_some.1 h
    exact fun i hi => (hreported i hi).mono rfl (readable_setConn id)
  | arrive x n =>
    obtain ⟨-, rfl⟩ := Option.ite_some_none_eq_some.1 h
    exact fun i hi => (hreported i hi).mono rfl
      (readable_setConn (Or.imp_left fun hpos => Nat.add_pos_left hpos n))
  | close x =>
    obtain ⟨-, rfl⟩ := Option.ite_some_none_eq_some.1 h
    exact fun i hi => (hreported i hi).mono rfl (readable_setConn fun _ => .inr (.inl rfl))
  | reset x =>
    obtain ⟨-, rfl⟩ := Option.ite_some_none_eq_some.1 h
    exact fun i hi => (hreported i hi).mono rfl (readable_setConn fun _ => .inr (.inr rfl))
  | poll waiting =>
    obtain ⟨-, rfl⟩ := Option.ite_some_none_eq_some.1 h
    intro i hi
    obtain ⟨-, rfl⟩ := Option.ite_some_none_eq_some.1 hi
    exact hw.reported_poll waiting _
  | visit accept sslAccept =>
    have hbound := (hw.step h).paired.bound
    obtain ⟨i, t, hslot, -, hvisit, rfl⟩ := step_visit h
    intro k hk
    obtain ⟨-, rfl⟩ := Option.ite_some_none_eq_some.1 hk
    have hi := hw.slot i hslot
    have hold := hreported i hslot
    refine ⟨fun j x hij hj hlt hready hx => ?_, fun h0 => absurd h0 (Nat.succ_ne_zero i)⟩
    replace hready : (t.fds j).revents.has pollIn = true := hready
    rw [(hw.paired.visit_writes hi hvisit).2.1 j] at hready
    rcases hw.paired.visit_ahead hi hvisit hij hlt with hsame | ⟨h0, hlast⟩
    · have hx' : w.server.arrSsl j = some x := hsame.symm.trans hx
      have hlt' : j < w.server.nfds := hw.paired.dense.lt hx'
      have hconn := hold.ahead j x (Nat.le_of_succ_le hij) hj hlt' hready hx'
      rwa [← hw.afterVisit_ahead hslot hij hx'] at hconn
    · subst hlast
      have hroom : w.server.nfds < maxConnection := Nat.lt_of_lt_of_le hlt hbound
      rw [hold.behind h0 hroom] at hready
      cases hready

end World

/-! ## Steps of the server -/

namespace World

/-- The session that the next visit writes to. -/
def answered (w : World) : List Session :=
  w.reading.toList.filter fun x => !disconnects ((w.conn x).read messageSize)

/-- The sessions that have been written to between two states. -/
def written (w w' : World) : List Session :=
  (writes w'.server.calls).drop (writes w.server.calls).length

theorem Valid.step_writes (hw : w.Valid) (h : Step w l w') :
    w'.server.sockServer = w.server.sockServer ∧
      w.written w' = if l.isVisit then w.answered else [] := by
  cases l with
  | write | arrive | close | reset =>
    obtain ⟨-, rfl⟩ := Option.ite_some_none_eq_some.1 h
    exact ⟨rfl, List.drop_length⟩
  | poll waiting =>
    obtain ⟨-, rfl⟩ := Option.ite_some_none_eq_some.1 h
    exact ⟨rfl, List.drop_nil⟩
  | visit accept sslAccept =>
    obtain ⟨i, t, hslot, -, hvisit, rfl⟩ := step_visit h
    obtain ⟨hserver, -, hcalls⟩ := hw.paired.visit_writes (hw.slot i hslot) hvisit
    refine ⟨hserver, ?_⟩
    rw [written, hcalls, List.drop_left, answered, reading, hslot]
    rfl

/-- A session that has been freed does not come back. -/
theorem Valid.granted_step (hw : w.Valid) (h : Step w l w')
    (hgranted : x ∈ w.server.sessions.granted) : x ∈ w'.server.sessions.granted ∧
      (x ∉ w.server.sessions.live → x ∉ w'.server.sessions.live) := by
  by_cases hl : l.isVisit = true
  · cases l with
    | visit accept sslAccept =>
      obtain ⟨i, t, hslot, hfresh, hvisit, rfl⟩ := step_visit h
      obtain ⟨u, hu, hpaired, hvisited⟩ := hw.paired.visit (w.input accept sslAccept)
        (hw.slot i hslot) fun _ => hfresh
      obtain rfl := Except.ok.inj (hu.symm.trans hvisit)
      dsimp only
      cases hvisited with
      | quiet _ hsessions | unplaced _ _ _ _ _ hsessions =>
        rw [hsessions]
        exact ⟨hgranted, id⟩
      | dropped y _ _ hsessions =>
        rw [hsessions, Server.mem_giveBack hw.paired.lease]
        exact ⟨hgranted, fun hgone hor => hgone hor.2⟩
      | placed fd number _ _ _ hsessions =>
        have hnodup := hpaired.lease.nodup
        rw [hsessions] at hnodup ⊢
        have hnew := (Multiset.nodup_cons.1 hnodup).1
        refine ⟨Multiset.mem_cons_of_mem hgranted, fun hgone hmem => ?_⟩
        rcases Multiset.mem_cons.1 hmem with rfl | hmem
        · exact hnew hgranted
        · exact hgone hmem
      | refused fd number _ _ _ hsessions =>
        rw [hsessions]
        refine ⟨Multiset.mem_cons_of_mem hgranted, fun hgone => ?_⟩
        simpa [Lease.grant, Lease.giveBack] using hgone
    | _ => cases hl
  · obtain ⟨hsessions, -⟩ := step_other h hl
    rw [hsessions]
    exact ⟨hgranted, id⟩

end World

/-! ## Removals -/

/-- The two invariants that the loop rests on. -/
structure World.InOrder (w : World) : Prop where
  valid : w.Valid
  reported : ∀ i ∈ w.slot, w.Reported i

theorem World.InOrder.start (h : (sockServer : Int) ∈ openFds) :
    (start sockServer openFds).InOrder :=
  ⟨World.Valid.start h, nofun⟩

theorem World.InOrder.step (hw : w.InOrder) (h : Step w l w') : w'.InOrder :=
  ⟨hw.valid.step h, hw.valid.reported_step hw.reported h⟩

/-- What SSL_read finds in a connection makes the server give the client up. -/
def GivesUp (c : Conn) : Prop := c.incoming = [] ∨ isQuit c.incoming = true

theorem disconnects_iff : disconnects (c.read messageSize) = true ↔ GivesUp c := by
  rw [disconnects_read, isQuit_request, GivesUp]

theorem World.Valid.not_live_iff (hw : w.Valid) (h : Step w l w')
    (hx : x ∈ w.server.sessions.live) : x ∉ w'.server.sessions.live ↔
      l.isVisit = true ∧ w.reading = some x ∧ GivesUp (w.conn x) := by
  by_cases hl : l.isVisit = true
  · obtain ⟨-, hvisits⟩ := hw.visits h hl
    cases hvisits with
    | dropped y hread hdrop hsessions =>
      rw [hsessions, Server.mem_giveBack hw.paired.lease, hread]
      constructor
      · intro hnot
        obtain rfl : x = y := not_not.1 fun hne => hnot ⟨hne, hx⟩
        exact ⟨hl, rfl, disconnects_iff.1 hdrop⟩
      · rintro ⟨-, hxy, -⟩ ⟨hne, -⟩
        exact hne (Option.some.inj hxy).symm
    | answered y hread hkeep hsessions =>
      refine iff_of_false (not_not.2 (hsessions ▸ hx)) ?_
      rintro ⟨-, hxy, hgives⟩
      obtain rfl := Option.some.inj (hread.symm.trans hxy)
      exact Bool.false_ne_true (hkeep.symm.trans (disconnects_iff.2 hgives))
    | other hidle hkeep =>
      refine iff_of_false (not_not.2 (hkeep x hx)) ?_
      rintro ⟨-, hxy, -⟩
      rw [hidle] at hxy
      cases hxy
  · obtain ⟨hsessions, -⟩ := step_other h hl
    exact iff_of_false (not_not.2 (hsessions ▸ hx)) fun hor => hl hor.1

/-- In every run the server reads from a client only where its socket has bytes, or
where the connection has ended, and a step removes a client exactly if it reads from
it and finds no whole record, or one to quit. -/
theorem removed_iff (hlisten : (sockServer : Int) ∈ openFds)
    (hrun : Run Step (start sockServer openFds) ls w) (h : Step w l w')
    (hx : x ∈ w.server.sessions.live) :
    (w.reading = some x → (w.conn x).Readable) ∧
      (x ∉ w'.server.sessions.live ↔
        l.isVisit = true ∧ w.reading = some x ∧ GivesUp (w.conn x)) := by
  have hw : w.InOrder :=
    hrun.invariant (fun _ _ _ hv hstep => hv.step hstep) (World.InOrder.start hlisten)
  exact ⟨hw.valid.readable hw.reported, hw.valid.not_live_iff h hx⟩

/-- Of two clients the first one leaves, and the second one takes its slot and has
sent a record, of which the first bytes arrive. -/
def movedClient : List Label :=
  [.poll true, .visit (some 4) true, .visit none true,
    .poll true, .visit (some 5) true, .visit none true, .visit none true,
    .close client, .poll false, .visit none true, .visit none true,
    .write ⟨2, 5⟩ smallRecord, .arrive ⟨2, 5⟩ 5, .poll false, .visit none true]

theorem removed_iff_moved : ∃ w w', Step w (.visit none true) w' ∧
    w.server.nfds = 2 ∧ w.server.arrSsl 1 = some ⟨2, 5⟩ ∧ client ∉ w.server.sessions.live ∧
    ⟨2, 5⟩ ∉ w'.server.sessions.live ∧ w.reading = some ⟨2, 5⟩ ∧ GivesUp (w.conn ⟨2, 5⟩) := by
  have hrun : (movedClient.foldlM step (start 3 {3})).bind (fun w =>
      (step w (.visit none true)).map fun w' => decide (w.server.nfds = 2 ∧
        w.server.arrSsl 1 = some ⟨2, 5⟩ ∧ client ∉ w.server.sessions.live ∧
        ⟨2, 5⟩ ∈ w.server.sessions.live ∧ ⟨2, 5⟩ ∉ w'.server.sessions.live)) = some true := by
    decide +kernel
  obtain ⟨w, hw, hlast⟩ := Option.bind_eq_some_iff.1 hrun
  obtain ⟨w', hw', hfacts⟩ := Option.map_eq_some_iff.1 hlast
  obtain ⟨hnfds, hslot, hfirst, hlive, hgone⟩ := of_decide_eq_true hfacts
  obtain ⟨-, hremoved⟩ := removed_iff (by decide) (Run.foldlM_iff.2 hw) hw' hlive
  exact ⟨w, w', hw', hnfds, hslot, hfirst, hgone, (hremoved.1 hgone).2⟩

end LinuxNet.OpenSslServer
