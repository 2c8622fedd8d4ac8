-- SUMMARY: What the scan of the select server does for one descriptor, and the rules that carry it over a whole scan.
import LinuxNet.SelectServer.Server

/-! # The scan of the select server -/

namespace LinuxNet.SelectServer

variable {s s' : Server} {inp : RoundInput} {readSet : Finset Nat} {i n : Nat}

/-- The descriptor and the socket of a call that reads from a socket. -/
def Call.read : Call → Option (Nat × Nat)
  | .accept fd socket _ => some (fd, socket)
  | .recv fd socket => some (fd, socket)
  | _ => none

/-- Whether the exchange with the client `fd` ends its connection: recv or send
fails or returns 0, or the client asks to quit. -/
def RoundInput.leaves (inp : RoundInput) (fd : Nat) : Bool :=
  match inp.recv fd with
  | .fail _ => true
  | .data bytes _ =>
    bytes = [] || SendResult.failed (inp.send fd) || isQuit (filled messageSize bytes)

theorem readSet_subset (inp : RoundInput) (s : Server) : s.readSet inp ⊆ s.master := by
  unfold Server.readSet
  cases inp.select with
  | none => exact Finset.Subset.refl _
  | some reported => exact Finset.filter_subset _ _

/-! ## One visit -/

namespace Server

/-- The kernel's part of a successful accept: `fd` refers to a new socket. -/
def opened (fd : Nat) (s : Server) : Server :=
  { s with
    openFds := insert fd s.openFds
    socketOf := Function.update s.socketOf fd (s.accepted + 1)
    accepted := s.accepted + 1 }

/-- The server's part of a successful accept: `fd` has a slot and is watched. -/
def watch (fd : Nat) (s : Server) : Server :=
  { s.record (.fdSet fd) with
    fdsClient := s.fdsClient.put fd
    master := insert fd s.master
    globalMaxFd := max s.globalMaxFd fd }

theorem addClient_room (hroom : 0 < s.fdsClient.room) (fd : Nat) :
    s.addClient fd = if fd < fdSetSize then .ok ((s.opened fd).watch fd) else .error ⟨fd⟩ := by
  have hfree : 0 ∈ s.fdsClient.entries := Slots.zero_mem_iff.2 hroom
  by_cases hfd : fd < fdSetSize
  · simp [addClient, hfree, fdSet, hfd, opened, watch, record]
  · simp [addClient, hfree, fdSet, hfd]

theorem addClient_full (hroom : s.fdsClient.room = 0) (fd : Nat) :
    s.addClient fd = .ok (s.opened fd) := by
  have hfull : 0 ∉ s.fdsClient.entries := fun hmem => by
    have hpos := Slots.zero_mem_iff.1 hmem
    omega
  simp [addClient, hfull, opened]

end Server

/-- Serving a client calls recv once, and drops the client if the exchange ends
its connection. -/
theorem serveClient_eq (inp : RoundInput) (i : Nat) (s : Server) :
    ∃ tail, (∀ call ∈ tail, call.read = none ∧ ∀ fd, call ≠ .fdSet fd ∧ call ≠ .close fd) ∧
      serveClient inp i s =
        let s := { s with calls := s.calls ++ .recv i (s.socketOf i) :: tail }
        if inp.leaves i then s.dropClient i else s := by
  unfold serveClient RoundInput.leaves
  cases inp.recv i with
  | fail e => exact ⟨[], by simp, by simp [Server.record]⟩
  | data bytes hb =>
    dsimp only
    by_cases hnil : bytes = []
    · exact ⟨[], by simp, by simp [hnil, Server.record]⟩
    · refine ⟨[.terminate bytes.length, .send i (s.socketOf i)], by simp [Call.read], ?_⟩
      simp [hnil, Server.record]

/-- What the visit of a descriptor does. -/
inductive Visited (inp : RoundInput) (i : Nat) (s : Server) : Server → Prop
  | refused (hi : i = s.sockServer) (haccept : inp.accept s.openFds = none) :
      Visited inp i s (s.record (.accept i (s.socketOf i) none))
  | unplaced (fd : Nat) (hi : i = s.sockServer) (haccept : inp.accept s.openFds = some fd)
      (hroom : s.fdsClient.room = 0) :
      Visited inp i s ((s.record (.accept i (s.socketOf i) (some fd))).opened fd)
  | added (fd : Nat) (hi : i = s.sockServer) (haccept : inp.accept s.openFds = some fd)
      (hroom : 0 < s.fdsClient.room) (hfd : fd < fdSetSize) :
      Visited inp i s (((s.record (.accept i (s.socketOf i) (some fd))).opened fd).watch fd)
  | served (hi : i ≠ s.sockServer) : Visited inp i s (serveClient inp i s)

theorem visit_cases (h : visit inp i s = .ok s') : Visited inp i s s' := by
  unfold visit at h
  by_cases hi : i = s.sockServer
  · rw [if_pos hi] at h
    dsimp only at h
    cases haccept : inp.accept s.openFds with
    | none =>
      rw [haccept] at h
      cases h
      exact .refused hi haccept
    | some fd =>
      rw [haccept] at h
      dsimp only at h
      generalize ht : s.record (.accept i (s.socketOf i) (some fd)) = t at h
      have hslots : t.fdsClient = s.fdsClient := by rw [← ht, Server.record]
      rcases Nat.eq_zero_or_pos s.fdsClient.room with hroom | hroom
      · rw [Server.addClient_full (by rw [hslots, hroom])] at h
        cases h
        rw [← ht]
        exact .unplaced fd hi haccept hroom
      · rw [Server.addClient_room (by rw [hslots]; exact hroom)] at h
        by_cases hfd : fd < fdSetSize
        · rw [if_pos hfd] at h
          cases h
          rw [← ht]
          exact .added fd hi haccept hroom hfd
        · rw [if_neg hfd] at h
          cases h
  · rw [if_neg hi] at h
    cases h
    exact .served hi

/-- A visit fails only if accept returns a descriptor for a free slot that an
`fd_set` has no bit for. -/
theorem visit_total (hfd : ∀ fd, inp.accept s.openFds = some fd → 0 < s.fdsClient.room →
    fd < fdSetSize) : ∃ s', visit inp i s = .ok s' := by
  unfold visit
  by_cases hi : i = s.sockServer
  · rw [if_pos hi]
    dsimp only
    cases haccept : inp.accept s.openFds with
    | none => exact ⟨_, rfl⟩
    | some fd =>
      dsimp only
      generalize ht : s.record (.accept i (s.socketOf i) (some fd)) = t
      have hslots : t.fdsClient = s.fdsClient := by rw [← ht, Server.record]
      rcases Nat.eq_zero_or_pos s.fdsClient.room with hroom | hroom
      · exact ⟨_, Server.addClient_full (by rw [hslots, hroom]) fd⟩
      · have hroom' : 0 < t.fdsClient.room := by rwa [hslots]
        exact ⟨_, (Server.addClient_room hroom' fd).trans (if_pos (hfd fd haccept hroom))⟩
  · exact ⟨_, if_neg hi⟩

/-! ## Rules for a whole scan -/

/-- What every visit keeps holds at the end of a scan, which is behind
`global_max_fd`. -/
theorem scan_invariant {I : Nat → Server → Prop}
    (hvisit : ∀ i s s', I i s → i ∈ readSet → visit inp i s = .ok s' → I (i + 1) s')
    (hskip : ∀ i s, I i s → i ∉ readSet → I (i + 1) s)
    (h : scan inp readSet n i s = .ok s') (hs : I i s) : ∃ j, s'.globalMaxFd < j ∧ I j s' := by
  induction n generalizing i s with
  | zero =>
    by_cases hi : i ≤ s.globalMaxFd
    · simp [scan, hi] at h
    · simp only [scan, hi, if_false, Except.ok.injEq] at h
      subst h
      exact ⟨i, by omega, hs⟩
  | succ n ih =>
    by_cases hi : i ≤ s.globalMaxFd
    · simp only [scan, hi, if_true] at h
      obtain ⟨t, ht, hrest⟩ := Except.bind_eq_ok.1 h
      by_cases hmem : i ∈ readSet
      · rw [if_pos hmem] at ht
        exact ih hrest (hvisit i s t hs hmem ht)
      · rw [if_neg hmem] at ht
        obtain rfl := Except.ok.inj ht
        exact ih hrest (hskip i s hs hmem)
    · simp only [scan, hi, if_false, Except.ok.injEq] at h
      subst h
      exact ⟨i, by omega, hs⟩

/-- A scan ends, if every visit does and keeps `global_max_fd` within the bits of
an `fd_set`. -/
theorem scan_total {I : Nat → Server → Prop}
    (hvisit : ∀ i s, I i s → i ∈ readSet → ∃ s', visit inp i s = .ok s' ∧ I (i + 1) s')
    (hskip : ∀ i s, I i s → i ∉ readSet → I (i + 1) s)
    (hbound : ∀ i s, I i s → s.globalMaxFd < fdSetSize) (hn : i + n = fdSetSize) (hs : I i s) :
    ∃ s' j, scan inp readSet n i s = .ok s' ∧ I j s' := by
  induction n generalizing i s with
  | zero =>
    have hmax := hbound i s hs
    exact ⟨s, i, by simp [scan, show ¬ i ≤ s.globalMaxFd by omega], hs⟩
  | succ n ih =>
    by_cases hi : i ≤ s.globalMaxFd
    · by_cases hmem : i ∈ readSet
      · obtain ⟨t, ht, hI⟩ := hvisit i s hs hmem
        obtain ⟨s', j, hrest, hend⟩ := ih (by omega) hI
        exact ⟨s', j, by simp [scan, hi, hmem, ht, hrest], hend⟩
      · obtain ⟨s', j, hrest, hend⟩ := ih (by omega) (hskip i s hs hmem)
        exact ⟨s', j, by simp [scan, hi, hmem, hrest], hend⟩
    · exact ⟨s, i, by simp [scan, hi], hs⟩

/-- A scan for the listening socket alone is one visit. -/
theorem scan_listener (hbound : s.sockServer ≤ s.globalMaxFd)
    (h : scan inp {s.sockServer} n 0 s = .ok s') : Visited inp s.sockServer s s' := by
  have hstep := scan_invariant
    (I := fun i t => (i ≤ s.sockServer ∧ t = s) ∨ (s.sockServer < i ∧ Visited inp s.sockServer s t))
    (fun i t t' ht hi hvisit => ?_) (fun i t ht hi => ?_) h (.inl ⟨Nat.zero_le _, rfl⟩)
  · obtain ⟨j, hj, ⟨hle, rfl⟩ | ⟨-, hvisited⟩⟩ := hstep
    · omega
    · exact hvisited
  · obtain rfl := Finset.mem_singleton.1 hi
    rcases ht with ⟨-, rfl⟩ | ⟨hlt, -⟩
    · exact .inr ⟨Nat.lt_succ_self _, visit_cases hvisit⟩
    · exact absurd hlt (lt_irrefl _)
  · have hne : i ≠ s.sockServer := fun he => hi (Finset.mem_singleton.2 he)
    rcases ht with ⟨hle, rfl⟩ | ⟨hlt, hvisited⟩
    · exact .inl ⟨by omega, rfl⟩
    · exact .inr ⟨by omega, hvisited⟩

end LinuxNet.SelectServer
