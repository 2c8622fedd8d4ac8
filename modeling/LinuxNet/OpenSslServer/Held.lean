-- SUMMARY: When the TLS server has every accepted descriptor in its table or has closed it.
import LinuxNet.OpenSslServer.Sessions

/-! # Accepted descriptors of the TLS server -/

namespace LinuxNet.OpenSslServer

variable {s s' : Server} {inp : RoundInput} {held : Finset Int} {i n : Nat}

/-- The descriptors in the table. -/
def Server.tracked (s : Server) : Finset Int :=
  (Finset.range s.nfds).image fun i => (s.fds i).fd

/-- If accept returns a client, its descriptor is not 0, and there is room for it. -/
def RoundInput.HasRoom (inp : RoundInput) (s : Server) : Prop :=
  ∀ revents ∈ inp.poll, (revents 0).has pollIn →
    ∀ fd, inp.accept = some fd → 0 < fd ∧ s.nfds < maxConnection

namespace Server.Paired

theorem mem_tracked (h : s.Paired) {fd : Int} :
    fd ∈ s.tracked ↔ ∃ x ∈ s.sessions.live, x.fd = fd := by
  rw [tracked, Finset.mem_image]
  constructor
  · rintro ⟨i, hi, rfl⟩
    obtain ⟨x, hlive, -, hfd⟩ := h.exists_session (Finset.mem_range.1 hi)
    exact ⟨x, hlive, hfd⟩
  · rintro ⟨x, hlive, rfl⟩
    obtain ⟨i, hi⟩ := (h.live x).1 hlive
    refine ⟨i, Finset.mem_range.2 (h.dense.lt hi), ?_⟩
    rw [h.parallel, hi]
    rfl

theorem tracked_subset_openFds (h : s.Paired) : s.tracked ⊆ s.openFds := by
  intro fd hfd
  obtain ⟨x, hlive, rfl⟩ := h.mem_tracked.1 hfd
  exact h.isOpen x hlive

theorem tracked_congr (h : s.Paired) (h' : s'.Paired) (hlive : s'.sessions.live = s.sessions.live) :
    s'.tracked = s.tracked := by
  ext fd
  rw [h.mem_tracked, h'.mem_tracked, hlive]

theorem tracked_giveBack (h : s.Paired) (h' : s'.Paired) {x : Session}
    (hx : x ∈ s.sessions.live) (hsessions : s'.sessions = s.sessions.giveBack x) :
    s'.tracked = s.tracked.erase x.fd := by
  ext fd
  rw [h'.mem_tracked, Finset.mem_erase, h.mem_tracked, hsessions]
  constructor
  · rintro ⟨y, hy, rfl⟩
    obtain ⟨hlive, hne⟩ := h.lease.name_ne hx hy
    exact ⟨hne, y, hlive, rfl⟩
  · rintro ⟨hne, y, hlive, rfl⟩
    exact ⟨y, (mem_giveBack h.lease).2 ⟨fun he => hne (congrArg Session.fd he), hlive⟩, rfl⟩

/-- The visit of a client loses track of nothing. -/
theorem held_visited (h : s.Paired) (h' : s'.Paired) (hi : i ≠ 0) (hvisit : Visited inp i s s') :
    heldAfter held (handovers s'.calls) ⊆ s'.tracked ↔
      heldAfter held (handovers s.calls) ⊆ s.tracked := by
  cases hvisit with
  | quiet hidle hsessions hcalls => rw [hcalls, h.tracked_congr h' (by rw [hsessions])]
  | dropped x _ hlive hsessions hcalls =>
    rw [hcalls, heldAfter_closed, h.tracked_giveBack h' hlive hsessions]
    exact erase_subset_erase_iff (h.mem_tracked.2 ⟨x, hlive, rfl⟩)
  | unplaced fd h0 => exact absurd h0 hi
  | placed fd number h0 => exact absurd h0 hi
  | refused fd number h0 => exact absurd h0 hi

/-- The visit of the listening socket keeps track of the client that accept
returns exactly if there is room for it. -/
theorem held_accepted (h : s.Paired) (h' : s'.Paired) (hvisit : Visited inp 0 s s')
    (hfresh : ∀ fd, inp.accept = some fd → (fd : Int) ∉ s.openFds)
    (hheld : heldAfter held (handovers s.calls) ⊆ s.tracked) :
    heldAfter held (handovers s'.calls) ⊆ s'.tracked ↔ ((s.fds 0).revents.has pollIn →
      ∀ fd, inp.accept = some fd → 0 < fd ∧ s.nfds < maxConnection) := by
  cases hvisit with
  | quiet hidle hsessions hcalls =>
    rw [hcalls, h.tracked_congr h' (by rw [hsessions])]
    refine iff_of_true hheld fun hready fd haccept => ?_
    rw [hidle rfl hready] at haccept
    cases haccept
  | dropped x h0 => exact absurd rfl h0
  | unplaced fd _ hready haccept hlost hsessions hcalls =>
    refine iff_of_false (fun hsub => ?_) fun hroom => hlost (hroom hready fd haccept)
    rw [hcalls, heldAfter_given, h.tracked_congr h' (by rw [hsessions])] at hsub
    exact hfresh fd haccept (h.tracked_subset_openFds (hsub (Finset.mem_insert_self _ _)))
  | placed fd number _ haccept hroom hsessions hcalls =>
    refine iff_of_true ?_ fun _ g hg => by rwa [← Option.some.inj (haccept.symm.trans hg)]
    rw [hcalls, heldAfter_given]
    intro g hg
    rw [h'.mem_tracked, hsessions]
    rcases Finset.mem_insert.1 hg with rfl | hg
    · exact ⟨⟨number, fd⟩, Multiset.mem_cons_self _ _, rfl⟩
    · obtain ⟨x, hlive, hx⟩ := h.mem_tracked.1 (hheld hg)
      exact ⟨x, Multiset.mem_cons_of_mem hlive, hx⟩
  | refused fd number _ haccept hroom hsessions hcalls =>
    refine iff_of_true ?_ fun _ g hg => by rwa [← Option.some.inj (haccept.symm.trans hg)]
    have hlive : s'.sessions.live = s.sessions.live := by
      rw [hsessions]
      exact Multiset.erase_cons_head _ _
    rw [hcalls, heldAfter_append, h.tracked_congr h' hlive]
    intro g hg
    obtain ⟨hne, hmem⟩ := Finset.mem_erase.1 hg
    exact hheld (Finset.mem_of_mem_insert_of_ne hmem hne)

theorem held_visitFrom (h : s.Paired) (hi : 1 ≤ i) (hn : i + n = maxConnection)
    (hrun : OpenSslServer.visitFrom inp n i s = .ok s') :
    heldAfter held (handovers s'.calls) ⊆ s'.tracked ↔
      heldAfter held (handovers s.calls) ⊆ s.tracked := by
  induction n generalizing i s with
  | zero =>
    rw [OpenSslServer.visitFrom] at hrun
    split at hrun
    · cases hrun
    · cases hrun
      rfl
  | succ n ih =>
    rw [OpenSslServer.visitFrom] at hrun
    by_cases hlt : i < s.nfds
    · rw [if_pos hlt] at hrun
      obtain ⟨t, hvisit, ht, heffect⟩ := h.visit inp hlt (by omega)
      rw [hvisit, Except.bind_ok] at hrun
      rw [ih ht (by omega) (by omega) hrun, h.held_visited ht (by omega) heffect]
    · rw [if_neg hlt] at hrun
      cases hrun
      rfl

/-- A round tracks what is held exactly if it has room for the client that
accept returns. -/
theorem held_round (h : s.Paired) (hround : Round s inp s') (hheld : held ⊆ s.tracked) :
    heldAfter held (handovers s'.calls) ⊆ s'.tracked ↔ inp.HasRoom s := by
  obtain ⟨hfresh, hround⟩ := hround
  cases hpoll : inp.poll with
  | none =>
    rw [OpenSslServer.round, hpoll] at hround
    cases hround
  | some revents =>
    rw [OpenSslServer.round, hpoll] at hround
    obtain ⟨t, hrun, ht⟩ := Except.bind_eq_ok.1 hround
    cases ht
    have hpolled := h.poll revents
    have hpos : 0 < (s.poll revents).nfds := h.pos
    obtain ⟨t, hvisit, ht, heffect⟩ := hpolled.visit inp hpos fun _ => hfresh
    have hrest : OpenSslServer.visitFrom inp 99 1 t = .ok s' := by
      rw [maxConnection, OpenSslServer.visitFrom, if_pos hpos, hvisit] at hrun
      exact hrun
    have hstart : heldAfter held (handovers (s.poll revents).calls) ⊆ (s.poll revents).tracked := by
      rw [h.tracked_congr hpolled rfl]
      exact hheld
    have hready : ((s.poll revents).fds 0).revents = revents 0 := by
      have hslot : (0 : Nat) < maxConnection := by decide
      have hfd : ¬ (s.fds 0).fd < 0 := by
        rw [h.listener]
        omega
      simp only [Server.poll, if_pos hslot, PollFd.report, if_neg hfd]
    rw [ht.held_visitFrom le_rfl (by decide) hrest,
      hpolled.held_accepted ht heffect hfresh hstart, hready, RoundInput.HasRoom,
      forall_reported_iff hpoll]
    rfl

end Server.Paired

/-- `run_server` at the first top of its loop, with an open listening socket. -/
def Start (s : Server) : Prop :=
  ∃ (sockServer : Nat) (openFds : Finset Int),
    (sockServer : Int) ∈ openFds ∧ s = startUp sockServer openFds

theorem Start.paired (h : Start s) : s.Paired := by
  obtain ⟨sockServer, openFds, hopen, rfl⟩ := h
  exact startUp_paired hopen

theorem Server.Paired.next (h : s.Paired) (hround : Round s inp s') : s'.Paired := by
  obtain ⟨r, hrun, hr⟩ := h.round hround.1
  exact hr s' (Except.ok.inj (hrun.symm.trans hround.2))

/-- A round, and what it makes of the accepted descriptors that are not closed. -/
def HoldingRound := Holding Round fun s => handovers s.calls

end LinuxNet.OpenSslServer
