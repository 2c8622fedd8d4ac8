-- SUMMARY: When a failing accept keeps the poll server from serving its clients.
import LinuxNet.PollServer.Coverage

/-! # Starvation by a failing accept

When accept fails the server goes on with the next poll, past the loop over the
clients. A listening socket on which accept fails again and again stays
readable, and the clients are served in none of these rounds. -/

namespace LinuxNet.PollServer

variable {s s' t s₀ : Server} {inp : RoundInput} {fd : Int}

/-- Every client that the round's poll reports is received from in the round. -/
def ReportedServed (inp : RoundInput) (s s' : Server) : Prop :=
  ∀ revents ∈ inp.poll, ∀ fd ∈ s.clients, s.reported revents fd → fd ∈ recvs s'.calls

/-- If poll reports the listening socket and accept fails, poll reports no client. -/
def RoundInput.Unblocked (inp : RoundInput) (s : Server) : Prop :=
  ∀ revents ∈ inp.poll, (revents 0).has pollIn → inp.accept = none →
    ∀ fd ∈ s.clients, s.reported revents fd = false

namespace Server

/-- A client that poll has reported has a flagged slot when the client loop starts. -/
theorem Table.reported_slot (h : s.Table)
    (hfresh : ∀ fd, inp.accept = some fd → (fd : Int) ∉ s.openFds) {revents : Nat → Events}
    (hpoll : inp.poll = some revents) (ht : loopStart inp s = some t) (hfd : fd ∈ s.clients)
    (hreported : s.reported revents fd) : (fd, true) ∈ t.slots 1 (t.nfds - 1) := by
  have hslot : (fd, true) ∈ (s.poll revents).slots 1 (s.nfds - 1) := by
    rw [h.poll_slots]
    exact List.mem_map.2 ⟨fd, hfd, by rw [hreported]⟩
  rw [loopStart, hpoll, Option.bind_some] at ht
  dsimp only at ht
  split at ht
  · obtain ⟨g, haccept, rfl⟩ := Option.map_eq_some_iff.1 ht
    by_cases hroom : s.nfds < maxConnection
    · rw [((h.poll revents).addClient (hfresh g haccept) hroom).2]
      exact List.mem_append_left _ hslot
    · obtain ⟨-, hnfds, hfds⟩ := (h.poll revents).addClient_full g hroom
      rw [hnfds, slots, hfds]
      exact hslot
  · cases ht
    exact hslot

/-- The client loop of a round serves the reported clients. -/
theorem Table.served_of_loopStart (h : s.Table) (hround : Round s inp s')
    (ht : loopStart inp s = some t) : ReportedServed inp s s' := by
  intro revents hpoll fd hfd hreported
  have hslot := h.reported_slot hround.1 hpoll ht hfd hreported
  have hpos : t.nfds - 1 ≠ 0 := fun h0 => by
    rw [h0] at hslot
    cases hslot
  have hscanned := clientLoop_spec inp (s := t) (i := 1) (n := t.nfds - 1) le_rfl (by omega)
  have hend := hround.2
  rw [round_eq inp s revents hpoll, ht] at hend
  have hend' : PollServer.clientLoop inp (t.nfds - 1) 1 t = s' := Option.some.inj hend
  rw [hend'] at hscanned
  rw [hscanned.recvs]
  apply List.mem_append_right
  exact swapScan_flagged_mem hslot

/-- A round serves the reported clients exactly if it is not blocked. -/
theorem Table.servesReported_iff (h : s.Table) (hround : Round s inp s') :
    ReportedServed inp s s' ↔ inp.Unblocked s := by
  cases ht : loopStart inp s with
  | some t =>
    refine iff_of_true (h.served_of_loopStart hround ht) ?_
    intro revents hpoll hready haccept
    have hlistener : ((s.poll revents).fds 0).revents.has pollIn = true := by
      rw [h.poll_listener]
      exact hready
    simp [loopStart, Option.mem_def.1 hpoll, hlistener, haccept] at ht
  | none =>
    have hrecvs : ∀ revents ∈ inp.poll, recvs s'.calls = [] := fun revents hpoll => by
      have hend := hround.2
      rw [round_eq inp s revents hpoll, ht] at hend
      rw [← Option.some.inj hend]
      rfl
    constructor
    · intro hserved revents hpoll _ _ fd hfd
      rw [← Bool.not_eq_true]
      intro hreported
      have hmem := hserved revents hpoll fd hfd hreported
      rw [hrecvs revents hpoll] at hmem
      cases hmem
    · intro hcond revents hpoll fd hfd hreported
      have hblocked : (revents 0).has pollIn ∧ inp.accept = none := by
        rw [loopStart, Option.mem_def.1 hpoll, Option.bind_some] at ht
        dsimp only at ht
        rw [h.poll_listener] at ht
        split at ht
        · rename_i hready
          exact ⟨hready, Option.map_eq_none_iff.1 ht⟩
        · cases ht
      have hfalse := hcond revents hpoll hblocked.1 hblocked.2 fd hfd
      rw [hreported] at hfalse
      cases hfalse

end Server

theorem table_of_reachable (h : Reachable Start Round s) : s.Table :=
  h.invariant (fun _ hs => hs.table) fun _ _ _ ht hround => (round_spec ht hround.1 hround.2).1

/-- In a run from a reachable state the reported clients are served, in all
rounds, exactly if accept fails on a reported listening socket only when no
client is reported. -/
theorem reportedServed_iff {rounds : List RoundInput} (h : Reachable Start Round s₀) :
    Run (fun s inp s' => Round s inp s' ∧ ReportedServed inp s s') s₀ rounds s ↔
      Run (fun s inp s' => Round s inp s' ∧ inp.Unblocked s) s₀ rounds s :=
  Run.iff_of_invariant (fun _ _ _ ht hround => ht.servesReported_iff hround)
    (fun _ _ _ ht hround _ => (round_spec ht hround.1 hround.2).1) (table_of_reachable h)

/-- A client connects, and is served in a round in which accept is not tried. -/
theorem reportedServed_iff_one : ∃ (s : Server) (rounds : List RoundInput), rounds.length = 2 ∧
    Run (fun s inp s' => Round s inp s' ∧ ReportedServed inp s s') (startUp 3 {3}) rounds s ∧
      recvs s.calls = [4] := by
  let connect : RoundInput :=
    ⟨some fun _ => pollIn, some 4, fun _ => .data [] (by decide), fun _ => .sent 1⟩
  let request : RoundInput :=
    ⟨some fun i => if i = 1 then pollIn else 0, none, fun _ => .data [104, 105] (by decide),
      fun _ => .sent 1⟩
  have hrun : (round connect (startUp 3 {3}) >>= fun s => (round request s).map fun s' =>
      decide (recvs s'.calls = [4])) = some true := by
    decide +kernel
  obtain ⟨s, hfirst, hrest⟩ := Option.bind_eq_some_iff.1 hrun
  obtain ⟨s', hsecond, hfacts⟩ := Option.map_eq_some_iff.1 hrest
  have hround : Round (startUp 3 {3}) connect s := by
    refine ⟨?_, hfirst⟩
    rintro _ ⟨rfl⟩
    decide
  have hround' : Round s request s' := ⟨by simp [request], hsecond⟩
  have hclear : connect.Unblocked (startUp 3 {3}) := by
    rintro _ _ _ ⟨⟩
  have hclear' : request.Unblocked s := by
    rintro _ ⟨rfl⟩ hready
    simp [Events.has] at hready
  have hstart : Reachable Start Round (startUp 3 {3}) := .start ⟨3, {3}, by decide, rfl⟩
  exact ⟨s', [connect, request], rfl, (reportedServed_iff hstart).2
    (.cons ⟨hround, hclear⟩ (.single ⟨hround', hclear'⟩)), of_decide_eq_true hfacts⟩

/-- The law fails when accept does: a client that poll reports is not served. -/
theorem not_reportedServed : ¬ ∀ s inp s', Reachable Start Round s → Round s inp s' →
    ReportedServed inp s s' := by
  let connect : RoundInput :=
    ⟨some fun i => if i = 0 then pollIn else 0, some 4, fun _ => .data [] (by decide),
      fun _ => .sent 1⟩
  let exhausted : RoundInput :=
    ⟨some fun _ => pollIn, none, fun _ => .data [104, 105] (by decide), fun _ => .sent 1⟩
  have hrun : (round connect (startUp 3 {3}) >>= fun s => (round exhausted s).map fun s' =>
      decide (4 ∈ s.clients ∧ s.reported (fun _ => pollIn) 4 ∧ 4 ∉ recvs s'.calls)) =
      some true := by
    decide +kernel
  obtain ⟨s, hfirst, hrest⟩ := Option.bind_eq_some_iff.1 hrun
  obtain ⟨s', hsecond, hfacts⟩ := Option.map_eq_some_iff.1 hrest
  obtain ⟨hclient, hreported, hnot⟩ := of_decide_eq_true hfacts
  have hround : Round (startUp 3 {3}) connect s := by
    refine ⟨?_, hfirst⟩
    rintro _ ⟨rfl⟩
    decide
  have hround' : Round s exhausted s' := ⟨by simp [exhausted], hsecond⟩
  have hstart : Reachable Start Round (startUp 3 {3}) := .start ⟨3, {3}, by decide, rfl⟩
  intro hall
  exact hnot (hall s exhausted s' (hstart.next hround) hround' _ rfl 4 hclient hreported)

end LinuxNet.PollServer
