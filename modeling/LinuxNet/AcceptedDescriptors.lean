-- SUMMARY: When the multiplexing servers keep every accepted descriptor in their tables until they close it.
import LinuxNet.HttpServer.Held
import LinuxNet.OpenSslServer.Held
import LinuxNet.PollServer.Held
import LinuxNet.SelectServer.Held

/-! # Accepted descriptors of the multiplexing servers

A client for whom there is no room is accepted all the same: no server closes the
descriptor then, and none has it in its table. -/

namespace LinuxNet

/-- In each of the servers, the runs in which every accepted descriptor that has
not been closed is in the table at every loop top are the runs in which there is
room for every client that is accepted. -/
theorem accepted_tracked_iff {select : SelectServer.Server} {poll : PollServer.Server}
    {openSsl : OpenSslServer.Server} {http : HttpServer.Server}
    (hselect : SelectServer.Start select) (hpoll : PollServer.Start poll)
    (hopenSsl : OpenSslServer.Start openSsl) (hhttp : HttpServer.Start http) :
    (∀ rounds p, Run (fun p inp q => SelectServer.HoldingRound p inp q ∧ q.2 ⊆ q.1.tracked)
        (select, ∅) rounds p ↔
      Run (fun p inp q => SelectServer.HoldingRound p inp q ∧ inp.HasRoom p.1)
        (select, ∅) rounds p) ∧
    (∀ rounds p, Run (fun p inp q => PollServer.HoldingRound p inp q ∧ q.2 ⊆ q.1.tracked)
        (poll, ∅) rounds p ↔
      Run (fun p inp q => PollServer.HoldingRound p inp q ∧ inp.HasRoom p.1)
        (poll, ∅) rounds p) ∧
    (∀ rounds p, Run (fun p inp q => OpenSslServer.HoldingRound p inp q ∧ q.2 ⊆ q.1.tracked)
        (openSsl, ∅) rounds p ↔
      Run (fun p inp q => OpenSslServer.HoldingRound p inp q ∧ inp.HasRoom p.1)
        (openSsl, ∅) rounds p) ∧
    (∀ rounds p, Run (fun p inp q => HttpServer.HoldingRound p inp q ∧ q.2 ⊆ q.1.tracked)
        (http, ∅) rounds p ↔
      Run (fun p inp q => HttpServer.HoldingRound p inp q ∧ inp.HasRoom p.1)
        (http, ∅) rounds p) := by
  refine ⟨?_, ?_, ?_, ?_⟩
  · intro rounds p
    apply holding_iff SelectServer.Server.tracked
      (fun s (inp : SelectServer.RoundInput) => inp.HasRoom s) (I := SelectServer.Server.Watched)
    · exact fun s inp s' h hround => h.round hround
    · exact fun s inp s' held h hround hheld => h.held_round hround hheld
    · exact hselect.watched.1
  · intro rounds p
    apply holding_iff PollServer.Server.tracked
      (fun s (inp : PollServer.RoundInput) => inp.HasRoom s) (I := PollServer.Server.Table)
    · exact fun s inp s' h hround => (PollServer.round_spec h hround.1 hround.2).1
    · exact fun s inp s' held h hround hheld => h.held_round hround hheld
    · exact hpoll.table
  · intro rounds p
    apply holding_iff OpenSslServer.Server.tracked
      (fun s (inp : OpenSslServer.RoundInput) => inp.HasRoom s) (I := OpenSslServer.Server.Paired)
    · exact fun s inp s' h hround => h.next hround
    · exact fun s inp s' held h hround hheld => h.held_round hround hheld
    · exact hopenSsl.paired
  · intro rounds p
    apply holding_iff HttpServer.Server.tracked
      (fun s (inp : HttpServer.RoundInput) => inp.HasRoom s) (I := HttpServer.Server.Entries)
    · exact fun s inp s' h hround => (h.held_round hround.1 (Finset.empty_subset _)).1
    · exact fun s inp s' held h hround hheld => (h.held_round hround.1 hheld).2
    · exact hhttp.entries

/-! ## A client connects -/

theorem select_connects : ∃ s₀ inp p, SelectServer.Start s₀ ∧
    SelectServer.HoldingRound (s₀, ∅) inp p ∧ inp.HasRoom s₀ ∧ p.2 = {4} := by
  let connect : SelectServer.RoundInput :=
    ⟨some {3}, SelectServer.acceptOnly 4, fun _ => .data [] (by decide), fun _ => .sent 1⟩
  have hrun : (SelectServer.startUp 3 {0, 1, 2, 3} >>= fun s => SelectServer.round connect s >>=
      fun s' => .ok (decide (0 < s.fdsClient.room ∧
        heldAfter ∅ (SelectServer.handovers s'.calls) = {4}))) = .ok true := by
    decide +kernel
  obtain ⟨s, hstart, hrest⟩ := Except.bind_eq_ok.1 hrun
  obtain ⟨s', hround, hfacts⟩ := Except.bind_eq_ok.1 hrest
  obtain ⟨hfree, hheld⟩ := of_decide_eq_true (Except.ok.inj hfacts)
  refine ⟨s, connect, (s', _), ⟨3, _, by decide, hstart⟩,
    ⟨⟨SelectServer.fresh_of_acceptOnly rfl, hround⟩, rfl⟩, ?_, hheld⟩
  intro _ fd haccept
  obtain ⟨-, rfl⟩ := SelectServer.acceptOnly_eq_some.1 haccept
  exact ⟨by decide, .inl hfree⟩

theorem poll_connects : ∃ s₀ inp p, PollServer.Start s₀ ∧
    PollServer.HoldingRound (s₀, ∅) inp p ∧ inp.HasRoom s₀ ∧ p.2 = {4} := by
  let connect : PollServer.RoundInput :=
    ⟨some fun i => if i = 0 then pollIn else 0, some 4, fun _ => .data [] (by decide),
      fun _ => .sent 1⟩
  have hrun : ((PollServer.round connect (PollServer.startUp 3 {3})).map fun s =>
      decide (heldAfter ∅ (PollServer.handovers s.calls) = {4})) = some true := by
    decide +kernel
  obtain ⟨s, hround, hfacts⟩ := Option.map_eq_some_iff.1 hrun
  refine ⟨_, connect, (s, _), ⟨3, {3}, by decide, rfl⟩, ⟨⟨?_, hround⟩, rfl⟩,
    fun _ _ _ _ => by decide, of_decide_eq_true hfacts⟩
  rintro _ ⟨rfl⟩
  decide

theorem openSsl_connects : ∃ s₀ inp p, OpenSslServer.Start s₀ ∧
    OpenSslServer.HoldingRound (s₀, ∅) inp p ∧ inp.HasRoom s₀ ∧ p.2 = {4} := by
  let connect : OpenSslServer.RoundInput :=
    ⟨some fun i => if i = 0 then pollIn else 0, some 4, true, fun _ => .data [] (by decide)⟩
  have hrun : ((OpenSslServer.next connect (OpenSslServer.startUp 3 {3})).map fun s =>
      decide (heldAfter ∅ (OpenSslServer.handovers s.calls) = {4})) = some true := by
    decide +kernel
  obtain ⟨s, hround, hfacts⟩ := Option.map_eq_some_iff.1 hrun
  refine ⟨_, connect, (s, _), ⟨3, {3}, by decide, rfl⟩,
    ⟨⟨?_, OpenSslServer.next_eq_some.1 hround⟩, rfl⟩, ?_, of_decide_eq_true hfacts⟩
  · rintro _ ⟨rfl⟩
    decide
  · rintro _ _ _ _ ⟨rfl⟩
    decide

/-- An array with POLLIN in slots that have never been used. -/
def stalePollIn : Nat → PollFd := fun _ => ⟨0, 0, pollIn⟩

/-- The client that is accepted into such a slot is not handled in the same round. -/
def connectHttp (fd : Nat) : HttpServer.RoundInput :=
  ⟨some fun i => if i = 0 then pollIn else 0, fun _ => some fd, fun _ => some .completed⟩

theorem http_connects : ∃ s, HttpServer.HoldingRound (HttpServer.startUp 3 stalePollIn {3}, ∅)
      (connectHttp 4) (s, {4}) ∧
    (connectHttp 4).HasRoom (HttpServer.startUp 3 stalePollIn {3}) := by
  have hrun : (HttpServer.round (connectHttp 4) (HttpServer.startUp 3 stalePollIn {3})).map (fun s =>
      decide (s.running ∧ heldAfter ∅ (HttpServer.handovers s.calls) = {4})) = some true := by
    decide +kernel
  obtain ⟨s, hround, hfacts⟩ := Option.map_eq_some_iff.1 hrun
  obtain ⟨hrunning, hheld⟩ := of_decide_eq_true hfacts
  refine ⟨s, ⟨⟨⟨rfl, ?_, hround⟩, hrunning⟩, hheld.symm⟩, fun _ _ _ _ _ _ => by decide⟩
  rintro _ _ ⟨rfl⟩
  decide

/-- A client connects to each of the servers, which tracks it. -/
theorem accepted_tracked_iff_one :
    (∃ s₀ rounds p, Run (fun p inp q => SelectServer.HoldingRound p inp q ∧ q.2 ⊆ q.1.tracked)
      (s₀, ∅) rounds p ∧ p.2 = {4}) ∧
    (∃ s₀ rounds p, Run (fun p inp q => PollServer.HoldingRound p inp q ∧ q.2 ⊆ q.1.tracked)
      (s₀, ∅) rounds p ∧ p.2 = {4}) ∧
    (∃ s₀ rounds p, Run (fun p inp q => OpenSslServer.HoldingRound p inp q ∧ q.2 ⊆ q.1.tracked)
      (s₀, ∅) rounds p ∧ p.2 = {4}) ∧
    ∃ s₀ rounds p, Run (fun p inp q => HttpServer.HoldingRound p inp q ∧ q.2 ⊆ q.1.tracked)
      (s₀, ∅) rounds p ∧ p.2 = {4} := by
  obtain ⟨select, selectInp, p, hselect, hround, hroom, hheld⟩ := select_connects
  obtain ⟨poll, pollInp, q, hpoll, hround', hroom', hheld'⟩ := poll_connects
  obtain ⟨openSsl, openSslInp, r, hopenSsl, hround'', hroom'', hheld''⟩ := openSsl_connects
  obtain ⟨s, hhttp⟩ := http_connects
  obtain ⟨hselects, hpolls, hopenSsls, hhttps⟩ :=
    accepted_tracked_iff hselect hpoll hopenSsl ⟨3, stalePollIn, {3}, by decide, rfl⟩
  exact ⟨⟨select, [selectInp], p, (hselects _ _).2 (.single ⟨hround, hroom⟩), hheld⟩,
    ⟨poll, [pollInp], q, (hpolls _ _).2 (.single ⟨hround', hroom'⟩), hheld'⟩,
    ⟨openSsl, [openSslInp], r, (hopenSsls _ _).2 (.single ⟨hround'', hroom''⟩), hheld''⟩,
    ⟨_, [connectHttp 4], (s, {4}), (hhttps _ _).2 (.single hhttp), rfl⟩⟩

/-- The servers do not track every client they have accepted: the HTTP server has
room for one, and accepts a second one. -/
theorem not_accepted_tracked : ¬ ∀ s₀ rounds p, HttpServer.Start s₀ →
    Run HttpServer.HoldingRound (s₀, ∅) rounds p → p.2 ⊆ p.1.tracked := by
  have hrun : (HttpServer.round (connectHttp 4) (HttpServer.startUp 3 stalePollIn {3})).bind
      (fun s => (HttpServer.round (connectHttp 5) s).map fun s' =>
        decide (s.running ∧ s'.running ∧ (5 : Int) ∉ s.openFds ∧ (5 : Int) ∉ s'.tracked ∧
          (5 : Int) ∈ heldAfter (heldAfter ∅ (HttpServer.handovers s.calls))
            (HttpServer.handovers s'.calls))) = some true := by
    decide +kernel
  obtain ⟨s, hfirst, hrest⟩ := Option.bind_eq_some_iff.1 hrun
  obtain ⟨s', hsecond, hfacts⟩ := Option.map_eq_some_iff.1 hrest
  obtain ⟨hrunning, hrunning', hnew, huntracked, hheld⟩ := of_decide_eq_true hfacts
  have hround : HttpServer.Round (HttpServer.startUp 3 stalePollIn {3}) (connectHttp 4) s := by
    refine ⟨rfl, ?_, hfirst⟩
    rintro _ _ ⟨rfl⟩
    decide
  have hround' : HttpServer.Round s (connectHttp 5) s' := by
    refine ⟨hrunning, ?_, hsecond⟩
    rintro _ _ ⟨rfl⟩
    exact hnew
  intro hall
  exact huntracked (hall _ [connectHttp 4, connectHttp 5] (s', _)
    ⟨3, stalePollIn, {3}, by decide, rfl⟩
    (.cons (t := (s, _)) ⟨⟨hround, hrunning⟩, rfl⟩ (.single ⟨⟨hround', hrunning'⟩, rfl⟩)) hheld)

end LinuxNet
