-- SUMMARY: When the connections of the timer server have open descriptors, although accepts and timers may fail.
import LinuxNet.TimerServer.Pass

/-! # Failed accepts and timers

The program does not look at the results of accept and of
create_non_blocking_timer. A connection that is added after a failure has a
negative descriptor, and the round that adds it does not remove it. -/

namespace LinuxNet.TimerServer

variable {s s' : Server} {v : View} {inp : RoundInput} {P R : Stailq Connection} {fd : Int}

/-- The connections have descriptors that are not negative and are open, and the
descriptors in the buffer are pairwise distinct. -/
structure Server.Sound (s : Server) : Prop where
  nonneg : ∀ n ∈ s.connsQueue, 0 ≤ n.val.connFd ∧ 0 ≤ n.val.timerFd
  isOpen : ∀ n ∈ s.connsQueue,
    n.val.connFd ∈ s.kernel.openFds ∧ n.val.timerFd ∈ s.kernel.openFds
  nodup : (s.fdsBuf.contents.map PollFd.fd).Nodup

/-- If accept or the timer fails, "Add new connection" leaves the buffer and the
queue as poll has left them. -/
def Unchanged (inp : RoundInput) (s : Server) : Prop :=
  ∀ s₁ s₂, mypoll inp s = .ok s₁ → addConnection inp s₁ = .ok s₂ →
    inp.accept = none ∨ inp.timerfdCreate = none ∨ inp.settime ≠ none →
      s₂.fdsBuf.contents = s₁.fdsBuf.contents ∧ s₂.connsQueue = s₁.connsQueue

/-- The connections have no negative descriptors. -/
def View.Nonneg (v : View) : Prop := ∀ fd ∈ connFds v.conns, 0 ≤ fd

namespace View

theorem Apart.sound (h : v.Apart) (hnonneg : v.Nonneg) (hm : v.Mirror) (hshows : s.Shows v) :
    s.Sound := by
  have hmem : ∀ n ∈ s.connsQueue,
      n.val.connFd ∈ connFds v.conns ∧ n.val.timerFd ∈ connFds v.conns := by
    rw [hshows.conns]
    exact fun n hn => ⟨mem_connFds.2 ⟨n, hn, .inl rfl⟩, mem_connFds.2 ⟨n, hn, .inr rfl⟩⟩
  refine ⟨fun n hn => ?_, fun n hn => ?_, ?_⟩
  · obtain ⟨hconn, htimer⟩ := hmem n hn
    exact ⟨hnonneg _ hconn, hnonneg _ htimer⟩
  · obtain ⟨hconn, htimer⟩ := hmem n hn
    rw [hshows.kernel]
    exact ⟨h.isOpen _ hconn (hnonneg _ hconn), h.isOpen _ htimer (hnonneg _ htimer)⟩
  · rw [hshows.fdsBuf.contents_eq, List.map_cons, List.nodup_cons]
    refine ⟨hm.listenerFresh, ?_⟩
    have hnodup : (connFds v.conns).Nodup := by
      rw [Multiset.nodup_iff_count_le_one]
      intro fd
      by_cases hfd : 0 ≤ fd
      · exact h.count fd hfd
      · rw [Multiset.count_eq_zero.2 fun hmem => hfd (hnonneg fd hmem)]
        omega
    rw [← hm.fds] at hnodup
    exact hnodup

/-- When accept and the timer succeed, there are still no negative descriptors. -/
theorem Nonneg.accepted {revents : Nat → Events} (h : v.Nonneg) (hm : v.Mirror)
    (hsucc : inp.Succeeds) (hpoll : inp.poll = some revents) :
    ((v.poll revents inp.pollDelay).accepted inp).Nonneg := by
  rcases hm.accepted_cases hsucc hpoll with hsame | ⟨a, fd, t, hfd, ht, hset, hadd⟩
  · rw [hsame]
    exact h
  · rw [hadd, newConnection_ok _ hfd ht hset]
    intro g hg
    simp only [View.add, Stailq.insertTail, connFds_append, connFds_cons, connFds_nil, add_zero,
      Multiset.mem_add] at hg
    rcases hg with hg | hg
    · exact h g hg
    · rcases Multiset.mem_cons.1 hg with rfl | hg
      · exact Int.natCast_nonneg fd
      · rw [Multiset.mem_singleton.1 hg]
        exact Int.natCast_nonneg t

theorem Nonneg.passOver (h : v.Nonneg) (hm : v.Mirror) (input : Nat → ConnInput)
    (hconns : v.conns = P ++ R) : (v.passOver input R).Nonneg := by
  have hstep : ∀ v P R a c, View.Mirror v → View.Nonneg v → v.conns = P ++ ⟨a, c⟩ :: R →
      (v.process (input a) a c).Nonneg := by
    intro v P R a c hm h hconns fd hfd
    have hsub : (v.process (input a) a c).conns ⊆ v.conns := by
      rw [(hm.process hconns (input a)).2, hconns]
      split
      · exact List.append_subset.2 ⟨by simp, by simp⟩
      · exact List.Subset.refl _
    obtain ⟨n, hn, hown⟩ := mem_connFds.1 hfd
    exact h fd (mem_connFds.2 ⟨n, hsub hn, hown⟩)
  obtain ⟨-, hafter, -⟩ := hm.passOver_invariant (S := []) input hstep h (by simpa using hconns)
  exact hafter

/-- A closed descriptor has no entry. -/
theorem Apart.quiet (h : v.Apart) (hm : v.Mirror) (hclosed : 0 ≤ fd → fd ∉ v.kernel.openFds)
    (hneg : fd < 0 → v.Quiet fd) : v.Quiet fd := by
  by_cases hfd : fd < 0
  · exact hneg hfd
  · rintro p hp rfl
    have hshut := hclosed (not_lt.1 hfd)
    rcases List.mem_cons.1 hp with rfl | hp
    · exact absurd hm.listenerOpen hshut
    · have hmem : p.fd ∈ connFds v.conns := by
        rw [← hm.fds]
        exact List.mem_map_of_mem hp
      exact absurd (h.isOpen _ hmem (not_lt.1 hfd)) hshut

/-- The loop body leaves a connection alone whose descriptors have no events. -/
theorem process_quiet {a : Nat} {c : Connection} (input : ConnInput) (hconn : v.Quiet c.connFd)
    (htimer : v.Quiet c.timerFd) : v.process input a c = v := by
  simp [View.process, View.doomed, hconn.not_ready, htimer.not_fired]

/-- Such a connection is still in the queue after the pass, if it was the last one. -/
theorem mem_passOver {a : Nat} {c : Connection} (hm : v.Mirror) (input : Nat → ConnInput)
    (hconns : v.conns = P ++ [⟨a, c⟩]) (hconn : v.Quiet c.connFd) (htimer : v.Quiet c.timerFd) :
    ⟨a, c⟩ ∈ (v.passOver input v.conns).conns := by
  obtain ⟨-, ⟨hconn', htimer'⟩, P', hP'⟩ := hm.passOver_invariant (P := []) (R := P)
    (I := fun v => v.Quiet c.connFd ∧ v.Quiet c.timerFd) input
    (fun v P R b d hm h hconns => ⟨h.1.process _ b d, h.2.process _ b d⟩) ⟨hconn, htimer⟩ hconns
  have hlast : v.passOver input v.conns = v.passOver input P := by
    rw [hconns]
    simp only [passOver, List.foldl_append, List.foldl_cons, List.foldl_nil]
    exact process_quiet (input a) hconn' htimer'
  rw [hlast, hP']
  simp

end View

/-! ## Rounds -/

/-- A failed call makes a descriptor of the new connection negative. -/
theorem newConnection_negative (k : Kernel)
    (h : inp.accept = none ∨ inp.timerfdCreate = none ∨ inp.settime ≠ none) :
    (newConnection inp k).1.connFd < 0 ∨ (newConnection inp k).1.timerFd < 0 := by
  rcases h with haccept | htimer | hsettime
  · simp [newConnection, haccept, Kernel.accept]
  · simp [newConnection, htimer]
  · obtain ⟨e, he⟩ := Option.ne_none_iff_exists'.1 hsettime
    have hpos := e.2
    cases htimer : inp.timerfdCreate with
    | none => simp [newConnection, htimer]
    | some t => simp [newConnection, htimer, he, hpos]

/-- A round in which the listening socket is reported adds a connection. -/
theorem Round.added {revents : Nat → Events} (h : Round s inp s') (hshows : s.Shows v)
    (hm : v.Mirror) (hpoll : inp.poll = some revents) (hready : (revents 0).has pollIn) :
    ∃ a s₁ s₂, mypoll inp s = .ok s₁ ∧ addConnection inp s₁ = .ok s₂ ∧ inp.malloc = some a ∧
      s₁.Shows (v.poll revents inp.pollDelay) ∧
      s₂.Shows ((v.poll revents inp.pollDelay).add a
        (newConnection inp (v.poll revents inp.pollDelay).kernel).1
        (newConnection inp (v.poll revents inp.pollDelay).kernel).2) := by
  obtain ⟨hlen, -, hround⟩ := h
  obtain ⟨s₁, hok₁, hrest⟩ := Except.bind_eq_ok.1 hround
  obtain ⟨s₂, hok₂, -⟩ := Except.bind_eq_ok.1 hrest
  obtain ⟨s₁', hok₁', h₁⟩ := hshows.mypoll_spec hpoll
  obtain rfl := Except.ok.inj (hok₁.symm.trans hok₁')
  have hm₁ := hm.poll revents inp.pollDelay
  rcases h₁.addConnection_spec inp (by rw [mypoll_len hok₁]; exact hlen) hm₁.even
    (by rw [hm.polled_listener]; exact hready) with herr | herr | ⟨a, s₃, hmalloc, hok₃, h₃⟩
  · rw [herr] at hok₂; cases hok₂
  · rw [herr] at hok₂; cases hok₂
  · obtain rfl := Except.ok.inj (hok₂.symm.trans hok₃)
    exact ⟨a, s₁, s₂, hok₁, hok₂, hmalloc, h₁, h₃⟩

theorem RoundInput.not_succeeds (h : ¬ inp.Succeeds) :
    ∃ revents, inp.poll = some revents ∧ (revents 0).has pollIn ∧
      (inp.accept = none ∨ inp.timerfdCreate = none ∨ inp.settime ≠ none) := by
  simp only [RoundInput.Succeeds, not_forall] at h
  obtain ⟨revents, hpoll, hready, hfailed⟩ := h
  refine ⟨revents, hpoll, hready, ?_⟩
  by_contra hnone
  obtain ⟨haccept, htimer, hsettime⟩ : inp.accept ≠ none ∧ inp.timerfdCreate ≠ none ∧
      inp.settime = none := by simpa only [not_or, not_not] using hnone
  exact hfailed
    ⟨Option.ne_none_iff_exists'.1 haccept, Option.ne_none_iff_exists'.1 htimer, hsettime⟩

/-- The states at loop tops before anything has failed. -/
def Server.Intact (s : Server) : Prop := ∃ v, s.Shows v ∧ v.Mirror ∧ v.Apart ∧ v.Nonneg

theorem Start.intact (h : Start s) : s.Intact := by
  obtain ⟨fd, hshows, hopen, -, -⟩ := h.shows
  exact ⟨_, hshows, .start hopen, ⟨by simp, by simp⟩, by simp [View.Nonneg]⟩

theorem Round.intact (h : Round s inp s') (hs : s.Intact) (hsucc : inp.Succeeds) : s'.Intact := by
  obtain ⟨v, hshows, hm, ha, hnonneg⟩ := hs
  obtain ⟨revents, s₁, w, hpoll, -, -, rfl, -, hm₁, ha₁, -, h₂, hm₂⟩ := h.spec hshows hm ha
  exact ⟨_, h₂, hm₂, ha₁.passOver hm₁ inp.conn (P := []) rfl,
    (hnonneg.accepted hm hsucc hpoll).passOver hm₁ inp.conn (P := []) rfl⟩

theorem Server.Intact.sound (hs : s.Intact) : s.Sound := by
  obtain ⟨v, hshows, hm, ha, hnonneg⟩ := hs
  exact ha.sound hnonneg hm hshows

/-- The connection that a round adds is in the queue at its end: it has no events
yet, and so the pass leaves it alone. -/
theorem Round.added_mem {revents : Nat → Events} (h : Round s inp s') (hshows : s.Shows v)
    (hm : v.Mirror) (ha : v.Apart) (hpoll : inp.poll = some revents)
    (hready : (revents 0).has pollIn) : ∃ a k, ⟨a, (newConnection inp k).1⟩ ∈ s'.connsQueue := by
  obtain ⟨a, -, -, -, -, hmalloc, -, -⟩ := h.added hshows hm hpoll hready
  obtain ⟨revents', s₁, w, hpoll', -, -, hw, -, hm₁, -, -, h₂, -⟩ := h.spec hshows hm ha
  obtain rfl := Option.some.inj (hpoll.symm.trans hpoll')
  have hvalid := h.2.1
  rw [hshows.conns, hshows.kernel] at hvalid
  have hvalid₁ := hvalid.poll revents inp.pollDelay
  have hlistener := hm.polled_listener revents inp.pollDelay
  have hquiet : ∀ fd, (0 ≤ fd → fd ∉ (v.poll revents inp.pollDelay).kernel.openFds) →
      (v.poll revents inp.pollDelay).Quiet fd := fun fd hclosed =>
    (ha.poll revents inp.pollDelay).quiet (hm.poll revents inp.pollDelay) hclosed
      fun hfd => .poll hfd revents inp.pollDelay
  refine ⟨a, (v.poll revents inp.pollDelay).kernel, ?_⟩
  generalize v.poll revents inp.pollDelay = u at hw hlistener hvalid₁ hquiet ⊢
  have hadded : w = u.add a (newConnection inp u.kernel).1 (newConnection inp u.kernel).2 := by
    rw [hw, View.accepted, hlistener, if_pos hready, hmalloc]
    rfl
  obtain ⟨hconn, htimer⟩ := newConnection_fresh hvalid₁
  rw [h₂.conns]
  apply View.mem_passOver hm₁ inp.conn (P := u.conns)
  · rw [hadded]
    rfl
  · rw [hadded]
    exact (hquiet _ fun hfd => (hconn hfd).1).add a _ _
  · rw [hadded]
    exact (hquiet _ fun hfd => (htimer hfd).1).add a _ _

/-- A round keeps the connections sound exactly if accept and the timer succeed. -/
theorem Round.next_sound_iff (h : Round s inp s') (hs : s.Intact) : s'.Sound ↔ inp.Succeeds := by
  refine ⟨fun hsound => ?_, fun hsucc => (h.intact hs hsucc).sound⟩
  by_contra hfailed
  obtain ⟨v, hshows, hm, ha, -⟩ := hs
  obtain ⟨revents, hpoll, hready, hfailed⟩ := RoundInput.not_succeeds hfailed
  obtain ⟨a, k, hmem⟩ := h.added_mem hshows hm ha hpoll hready
  obtain ⟨hconn, htimer⟩ := hsound.nonneg _ hmem
  rcases newConnection_negative k hfailed with hneg | hneg
  · exact absurd hconn (not_le.2 hneg)
  · exact absurd htimer (not_le.2 hneg)

/-- A round leaves the buffer and the queue alone after a failure exactly if
there is none. -/
theorem Round.unchanged_iff (h : Round s inp s') (hs : s.Intact) :
    Unchanged inp s ↔ inp.Succeeds := by
  obtain ⟨v, hshows, hm, -, -⟩ := hs
  constructor
  · intro hunchanged
    by_contra hfailed
    obtain ⟨revents, hpoll, hready, hfailed⟩ := RoundInput.not_succeeds hfailed
    obtain ⟨a, s₁, s₂, hok₁, hok₂, -, h₁, h₂⟩ := h.added hshows hm hpoll hready
    obtain ⟨-, hconns⟩ := hunchanged s₁ s₂ hok₁ hok₂ hfailed
    rw [h₁.conns, h₂.conns] at hconns
    simp [View.add, Stailq.insertTail] at hconns
  · intro hsucc s₁ s₂ hok₁ hok₂ hfailed
    cases hpoll : inp.poll with
    | none =>
      rw [mypoll, hpoll] at hok₁
      cases hok₁
    | some revents =>
      obtain ⟨s₁', hok₁', h₁⟩ := hshows.mypoll_spec hpoll
      obtain rfl := Except.ok.inj (hok₁.symm.trans hok₁')
      cases hready : (revents 0).has pollIn with
      | false =>
        rw [h₁.addConnection_idle (by rw [hm.polled_listener, hready])] at hok₂
        obtain rfl := Except.ok.inj hok₂
        exact ⟨rfl, rfl⟩
      | true =>
        obtain ⟨⟨fd, hfd⟩, ⟨t, ht⟩, hset⟩ := hsucc revents hpoll hready
        simp [hfd, ht, hset] at hfailed

/-! ## Runs -/

/-- The connections stay sound in all rounds of a run exactly if accept and the
timer succeed in all rounds in which the listening socket is reported, and so
do, exactly then, the buffer and the queue stay as they were after a failure. -/
theorem sound_iff {s₀ : Server} {rounds : List RoundInput} (h0 : Start s₀) :
    (Run (fun s inp s' => Round s inp s' ∧ s'.Sound) s₀ rounds s ↔
      Run (fun s inp s' => Round s inp s' ∧ inp.Succeeds) s₀ rounds s) ∧
    (Run (fun s inp s' => Round s inp s' ∧ Unchanged inp s) s₀ rounds s ↔
      Run (fun s inp s' => Round s inp s' ∧ inp.Succeeds) s₀ rounds s) := by
  constructor
  · apply Run.iff_of_invariant (I := Server.Intact)
    · exact fun s inp s' hs hround => hround.next_sound_iff hs
    · exact fun s inp s' hs hround hsound => hround.intact hs ((hround.next_sound_iff hs).1 hsound)
    · exact h0.intact
  · apply Run.iff_of_invariant (I := Server.Intact)
    · exact fun s inp s' hs hround => hround.unchanged_iff hs
    · exact fun s inp s' hs hround hsame => hround.intact hs ((hround.unchanged_iff hs).1 hsame)
    · exact h0.intact

/-- A client connects, and accept and the timer succeed. -/
theorem sound_iff_one : ∃ (s : Server) (rounds : List RoundInput),
    Run (fun s inp s' => Round s inp s' ∧ s'.Sound) (started 3 freshKernel) rounds s ∧
    Run (fun s inp s' => Round s inp s' ∧ Unchanged inp s) (started 3 freshKernel) rounds s ∧
    s.connsQueue = [⟨1, ⟨4, 5⟩⟩] := by
  have hrun : (round (connecting quiet) (started 3 freshKernel)).map
      (fun s => decide (s.connsQueue = [⟨1, ⟨4, 5⟩⟩])) = .ok true := by
    decide +kernel
  obtain ⟨s, hok, hconns⟩ := Except.map_eq_ok.1 hrun
  have hround : Round (started 3 freshKernel) (connecting quiet) s :=
    ⟨show 1 < 2 ^ 27 by decide, connecting_valid quiet, hok⟩
  have hsucc : (connecting quiet).Succeeds := fun _ _ _ => ⟨⟨4, rfl⟩, ⟨5, rfl⟩, rfl⟩
  exact ⟨s, [connecting quiet], (sound_iff started_fresh).1.2 (.single ⟨hround, hsucc⟩),
    (sound_iff started_fresh).2.2 (.single ⟨hround, hsucc⟩), of_decide_eq_true hconns⟩

/-- The client has aborted its connection when accept is called, and -1 is put in
the buffer and in the queue. -/
theorem not_sound : ¬ ∀ s, Reachable Start Round s → s.Sound := by
  let aborted : RoundInput := { connecting quiet with accept := none }
  have hrun : (round aborted (started 3 freshKernel)).map
      (fun s => decide (s.connsQueue = [⟨1, ⟨-1, 5⟩⟩])) = .ok true := by
    decide +kernel
  obtain ⟨s, hok, hfacts⟩ := Except.map_eq_ok.1 hrun
  have hconns : s.connsQueue = [⟨1, ⟨-1, 5⟩⟩] := of_decide_eq_true hfacts
  have hvalid : Valid aborted [] freshKernel := by
    refine ⟨by simp [aborted], ?_, by simp [Stailq.addrs]⟩
    rintro _ ⟨rfl⟩
    exact ⟨by decide, by simp [aborted]⟩
  have hround : Round (started 3 freshKernel) aborted s :=
    ⟨show 1 < 2 ^ 27 by decide, hvalid, hok⟩
  intro hall
  have hsound := hall s ((Reachable.start started_fresh).next hround)
  obtain ⟨hconn, -⟩ := hsound.nonneg ⟨1, ⟨-1, 5⟩⟩ (by rw [hconns]; simp)
  exact absurd hconn (by decide)

end LinuxNet.TimerServer
