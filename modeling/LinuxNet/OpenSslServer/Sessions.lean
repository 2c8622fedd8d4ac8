-- SUMMARY: The TLS server's arrays pair every descriptor with a live session of its own, and every session is freed once.
import LinuxNet.Base.Dense
import LinuxNet.Base.Held
import LinuxNet.OpenSslServer.Server

/-! # Descriptors and sessions of the TLS server

The two arrays hold the same clients in the same slots. A session that is live
is in one slot, so that freeing the one in a slot and compacting the arrays
leaves no slot with a freed session. -/

namespace LinuxNet.OpenSslServer

variable {s s' : Server} {inp : RoundInput} {i n last : Nat} {x : Session} {fd : Nat}

/-- The descriptors that accept has returned and those closed, in order. -/
def handovers (calls : List Call) : List (Handover Int) :=
  calls.filterMap fun
    | .accept fd => some (.given fd)
    | .close fd => some (.closed fd)
    | _ => none

/-- The descriptor in a slot with the given session. -/
def slotFd : Option Session → Int
  | none => -1
  | some x => x.fd

namespace Server

/-- The arrays hold the live sessions, densely, and their descriptors. -/
structure Paired (s : Server) : Prop where
  pos : 1 ≤ s.nfds
  bound : s.nfds ≤ maxConnection
  listener : (s.fds 0).fd = s.sockServer
  dense : Dense s.nfds s.arrSsl
  parallel : ∀ i, (s.fds i).fd = slotFd (s.arrSsl i)
  live : ∀ x, x ∈ s.sessions.live ↔ ∃ i, s.arrSsl i = some x
  isOpen : ∀ x ∈ s.sessions.live, x.fd ∈ s.openFds
  lease : s.sessions.Valid Session.fd
  numbered : ∀ x ∈ s.sessions.granted, x.number < s.sessions.granted.card

theorem session_eq (harr : s.arrSsl i = some x) (hlive : x ∈ s.sessions.live) :
    s.session i = .ok x := by
  simp [session, harr, hlive]

theorem sslFree_eq (harr : s.arrSsl i = some x) (hlive : x ∈ s.sessions.live) :
    s.sslFree i = .ok { s.record (.sslFree x) with sessions := s.sessions.giveBack x } := by
  simp [sslFree, harr, hlive]

theorem setSlot_fd (s : Server) (i : Nat) (fd : Int) (x : Option Session) (j : Nat) :
    ((s.setSlot i fd x).fds j).fd = if j = i then fd else (s.fds j).fd := by
  by_cases hj : j = i
  · simp [setSlot, hj]
  · simp [setSlot, hj]

theorem mem_giveBack {L : Lease Session} (h : L.Valid Session.fd) {y : Session} :
    y ∈ (L.giveBack x).live ↔ y ≠ x ∧ y ∈ L.live :=
  (Multiset.Nodup.of_map Session.fd h.names).mem_erase_iff

/-- What the visit of slot `i` makes of the sessions and of the descriptors. -/
inductive Visited (inp : RoundInput) (i : Nat) (s s' : Server) : Prop
  | quiet (hidle : i = 0 → (s.fds 0).revents.has pollIn → inp.accept = none)
      (hsessions : s'.sessions = s.sessions) (hcalls : handovers s'.calls = handovers s.calls)
  | dropped (x : Session) (hi : i ≠ 0) (hlive : x ∈ s.sessions.live)
      (hsessions : s'.sessions = s.sessions.giveBack x)
      (hcalls : handovers s'.calls = handovers s.calls ++ [.closed x.fd])
  | unplaced (fd : Nat) (hi : i = 0) (hready : (s.fds 0).revents.has pollIn)
      (haccept : inp.accept = some fd) (hlost : ¬ (0 < fd ∧ s.nfds < maxConnection))
      (hsessions : s'.sessions = s.sessions)
      (hcalls : handovers s'.calls = handovers s.calls ++ [.given (fd : Int)])
  | placed (fd number : Nat) (hi : i = 0) (haccept : inp.accept = some fd)
      (hroom : 0 < fd ∧ s.nfds < maxConnection)
      (hsessions : s'.sessions = s.sessions.grant ⟨number, fd⟩)
      (hcalls : handovers s'.calls = handovers s.calls ++ [.given (fd : Int)])
  | refused (fd number : Nat) (hi : i = 0) (haccept : inp.accept = some fd)
      (hroom : 0 < fd ∧ s.nfds < maxConnection)
      (hsessions : s'.sessions = (s.sessions.grant ⟨number, fd⟩).giveBack ⟨number, fd⟩)
      (hcalls : handovers s'.calls = handovers s.calls ++ [.given (fd : Int), .closed (fd : Int)])

namespace Paired

/-- The invariant reads the descriptors of `fds` only. -/
theorem congr (h : s.Paired) (hfds : ∀ i, (s'.fds i).fd = (s.fds i).fd)
    (hserver : s'.sockServer = s.sockServer) (harr : s'.arrSsl = s.arrSsl)
    (hnfds : s'.nfds = s.nfds) (hopen : s.openFds ⊆ s'.openFds)
    (hsessions : s'.sessions = s.sessions) : s'.Paired := by
  refine ⟨hnfds ▸ h.pos, hnfds ▸ h.bound, ?_, ?_, ?_, ?_, ?_, hsessions ▸ h.lease,
    hsessions ▸ h.numbered⟩
  · rw [hfds, hserver, h.listener]
  · rw [hnfds, harr]
    exact h.dense
  · intro i
    rw [hfds, harr, h.parallel]
  · rw [hsessions, harr]
    exact h.live
  · rw [hsessions]
    exact fun x hx => hopen (h.isOpen x hx)

theorem poll (h : s.Paired) (revents : Nat → Events) : (s.poll revents).Paired := by
  refine h.congr (fun j => ?_) rfl rfl rfl (Finset.Subset.refl _) rfl
  simp only [Server.poll]
  split <;> rfl

theorem record (h : s.Paired) (call : Call) : (s.record call).Paired :=
  h.congr (fun _ => rfl) rfl rfl rfl (Finset.Subset.refl _) rfl

/-- A slot below `nfds` has a live session. -/
theorem exists_session (h : s.Paired) (hi : i < s.nfds) :
    ∃ x ∈ s.sessions.live, s.arrSsl i = some x ∧ x.fd = (s.fds i).fd := by
  obtain ⟨x, hx⟩ := h.dense.exists_eq_some hi
  exact ⟨x, (h.live x).2 ⟨i, hx⟩, hx, by rw [h.parallel, hx]; rfl⟩

/-- Two slots below `nfds` have different descriptors. -/
theorem fd_inj (h : s.Paired) {i j : Nat} (hi : i < s.nfds) (hj : j < s.nfds)
    (hfd : (s.fds i).fd = (s.fds j).fd) : i = j := by
  obtain ⟨x, hx, hxi, hxfd⟩ := h.exists_session hi
  obtain ⟨y, hy, hyj, hyfd⟩ := h.exists_session hj
  have hxy : x = y := h.lease.eq_of_name hx hy (by rw [hxfd, hyfd, hfd])
  exact h.dense.inj i j x hxi (hxy ▸ hyj)

/-- The session in slot `i` is freed, and the arrays are compacted. -/
theorem remove (h : s.Paired) (hn : s.nfds = last + 1) (hlast : 1 ≤ last) (hi : i ≠ 0)
    (hx : s.arrSsl i = some x) (hserver : s'.sockServer = s.sockServer)
    (hfds : ∀ j, (s'.fds j).fd =
      if j = last then -1 else if j = i then (s.fds last).fd else (s.fds j).fd)
    (harr : s'.arrSsl = moveLast s.arrSsl last i) (hnfds : s'.nfds = last)
    (hopen : s'.openFds = s.openFds.erase x.fd)
    (hsessions : s'.sessions = s.sessions.giveBack x) : s'.Paired := by
  have hbound := h.bound
  have hdense : Dense (last + 1) s.arrSsl := hn ▸ h.dense
  have hlive : x ∈ s.sessions.live := (h.live x).2 ⟨i, hx⟩
  refine ⟨by omega, by omega, ?_, ?_, ?_, ?_, ?_, ?_, ?_⟩
  · rw [hfds, if_neg (by omega), if_neg hi.symm, h.listener, hserver]
  · rw [hnfds, harr]
    exact hdense.of_moveLast (hdense.lt hx)
  · intro j
    rw [hfds, harr, Dense.moveLast_apply, h.parallel, h.parallel]
    split
    · rfl
    · split <;> rfl
  · intro y
    rw [hsessions, harr, hdense.exists_moveLast hx, mem_giveBack h.lease, h.live]
  · intro y hy
    rw [hsessions] at hy
    obtain ⟨hmem, hne⟩ := h.lease.name_ne hlive hy
    rw [hopen]
    exact Finset.mem_erase.2 ⟨hne, h.isOpen y hmem⟩
  · rw [hsessions]
    exact h.lease.giveBack hlive
  · rw [hsessions]
    exact h.numbered

/-- A client that leaves. -/
theorem dropClient (h : s.Paired) (hi : i < s.nfds) (h1 : 1 ≤ i) :
    ∃ s', s.dropClient i = .ok s' ∧ s'.Paired ∧ ∃ x ∈ s.sessions.live,
      s'.sessions = s.sessions.giveBack x ∧
      handovers s'.calls = handovers s.calls ++ [.closed x.fd] := by
  obtain ⟨x, hlive, hx, hfd⟩ := h.exists_session hi
  have hclosed : (s.close i).sslFree i = .ok { (s.close i).record (.sslFree x) with
      sessions := s.sessions.giveBack x } := sslFree_eq hx hlive
  refine ⟨_, by rw [Server.dropClient, hclosed]; rfl, ?_, x, hlive, rfl, ?_⟩
  swap
  · rw [hfd]
    simp [setSlot, Server.record, Server.close, handovers]
  refine h.remove (i := i) (show s.nfds = s.nfds - 1 + 1 by omega) (by omega) (by omega) hx rfl ?_
    rfl rfl ?_ rfl
  · intro j
    simp only [setSlot_fd]
    rfl
  · rw [hfd]
    rfl

/-- A session for a new descriptor, in the slot behind the last one. -/
theorem add (h : s.Paired) (hroom : s.nfds < maxConnection) (hnew : (fd : Int) ∉ s.openFds)
    (hx : x = ⟨s.sessions.granted.card, fd⟩) (hserver : s'.sockServer = s.sockServer)
    (hfds : ∀ j, (s'.fds j).fd = if j = s.nfds then (fd : Int) else (s.fds j).fd)
    (harr : s'.arrSsl = Function.update s.arrSsl s.nfds (some x)) (hnfds : s'.nfds = s.nfds + 1)
    (hopen : s'.openFds = insert (fd : Int) s.openFds)
    (hsessions : s'.sessions = s.sessions.grant x) : s'.Paired := by
  have hpos := h.pos
  have hfd : x.fd = fd := by rw [hx]
  have hfree : x.fd ∉ s.sessions.live.map Session.fd := fun hmem => by
    obtain ⟨y, hy, hyx⟩ := Multiset.mem_map.1 hmem
    rw [hfd] at hyx
    exact hnew (hyx ▸ h.isOpen y hy)
  have hfresh : x ∉ s.sessions.granted := fun hmem => by
    have hlt := h.numbered x hmem
    rw [hx] at hlt
    exact lt_irrefl _ hlt
  have hnone : ∀ i, s.arrSsl i ≠ some x := fun i hi =>
    hfree (Multiset.mem_map_of_mem _ ((h.live x).2 ⟨i, hi⟩))
  refine ⟨by omega, by omega, ?_, ?_, ?_, ?_, ?_, ?_, ?_⟩
  · rw [hfds, if_neg (by omega), h.listener, hserver]
  · rw [hnfds, harr]
    exact h.dense.push hnone
  · intro j
    rw [hfds, harr, Function.update_apply, h.parallel]
    split
    · exact hfd.symm
    · rfl
  · intro y
    rw [hsessions, harr, h.dense.exists_push, ← h.live y]
    exact Multiset.mem_cons
  · intro y hy
    rw [hsessions] at hy
    rw [hopen]
    rcases Multiset.mem_cons.1 hy with rfl | hy
    · rw [hfd]
      exact Finset.mem_insert_self _ _
    · exact Finset.mem_insert_of_mem (h.isOpen y hy)
  · rw [hsessions]
    exact h.lease.grant hfresh hfree
  · intro y hy
    rw [hsessions] at hy ⊢
    have hcard : (s.sessions.grant x).granted.card = s.sessions.granted.card + 1 :=
      Multiset.card_cons _ _
    rcases Multiset.mem_cons.1 hy with rfl | hy
    · rw [hcard, hx]
      exact Nat.lt_succ_self _
    · have hlt := h.numbered y hy
      omega

/-- The handshake with the client in the slot behind the last one. -/
theorem handshake {t : Server} (h : { t with nfds := t.nfds + 1 }.Paired) (hpos : 1 ≤ t.nfds)
    (inp : RoundInput) (hx : t.arrSsl t.nfds = some x) :
    ∃ s', handshake inp t = .ok s' ∧ s'.Paired ∧
      (s'.sessions = t.sessions ∧ handovers s'.calls = handovers t.calls ∨
        s'.sessions = t.sessions.giveBack x ∧
          handovers s'.calls = handovers t.calls ++ [.closed x.fd]) := by
  have hlive : x ∈ t.sessions.live := (h.live x).2 ⟨t.nfds, hx⟩
  have hfd : x.fd = (t.fds t.nfds).fd := by
    have hparallel := h.parallel t.nfds
    rw [hx] at hparallel
    exact hparallel.symm
  have hsession : t.session t.nfds = .ok x := session_eq hx hlive
  cases haccept : inp.sslAccept with
  | true =>
    have hrun : OpenSslServer.handshake inp t =
        .ok { t.record (.sslAccept x) with nfds := t.nfds + 1 } := by
      rw [OpenSslServer.handshake, hsession, Except.bind_ok, haccept, if_pos rfl]
      rfl
    exact ⟨_, hrun, h.record _, .inl ⟨rfl, by simp [Server.record, handovers]⟩⟩
  | false =>
    have hrun : OpenSslServer.handshake inp t =
        .ok { (t.setSlot t.nfds (-1) (t.arrSsl t.nfds)).setSlot t.nfds (-1) none with
          openFds := t.openFds.erase (t.fds t.nfds).fd
          sessions := t.sessions.giveBack x
          calls := t.calls ++ [.sslAccept x, .close (t.fds t.nfds).fd, .sslFree x] } := by
      have hfree := sslFree_eq (x := x) (i := t.nfds)
        (s := ((t.record (.sslAccept x)).close t.nfds).setSlot t.nfds (-1) (t.arrSsl t.nfds))
        (by simpa [setSlot] using hx) hlive
      rw [OpenSslServer.handshake, hsession, Except.bind_ok, haccept, if_neg Bool.false_ne_true]
      refine (congrArg (· >>= _) hfree).trans ?_
      simp [setSlot, Server.record, Server.close]
    refine ⟨_, hrun, h.remove (i := t.nfds) rfl hpos (by omega) hx rfl ?_ rfl rfl
      ?_ rfl, .inr ⟨rfl, by simp [handovers, hfd]⟩⟩
    · intro j
      simp only [setSlot_fd]
      by_cases hj : j = t.nfds
      · rw [if_pos hj, if_pos hj]
      · rw [if_neg hj, if_neg hj, if_neg hj, if_neg hj]
    · rw [hfd]

/-- A client that accept has returned. -/
theorem addClient (h : s.Paired) (inp : RoundInput) (hnew : (fd : Int) ∉ s.openFds)
    (hready : (s.fds 0).revents.has pollIn) (haccept : inp.accept = some fd) :
    ∃ s', addClient inp fd s = .ok s' ∧ s'.Paired ∧ Visited inp 0 s s' := by
  have hleft : ({ s.record (.accept fd) with openFds := insert (fd : Int) s.openFds } :
      Server).Paired := h.congr (fun _ => rfl) rfl rfl rfl (Finset.subset_insert _ _) rfl
  have hgiven : handovers (s.calls ++ [.accept fd]) = handovers s.calls ++ [.given (fd : Int)] := by
    simp [handovers]
  unfold OpenSslServer.addClient
  dsimp only
  by_cases hpos : 0 < fd
  · by_cases hroom : s.nfds < maxConnection
    · rw [if_pos hpos, if_pos (by exact hroom)]
      generalize ht : sslNew _ _ = t
      have hnfds : t.nfds = s.nfds := by rw [← ht]; rfl
      have hsessions : t.sessions = s.sessions.grant ⟨s.sessions.granted.card, fd⟩ := by
        rw [← ht]
        simp [sslNew, Server.record]
      have hcalls : handovers t.calls = handovers s.calls ++ [.given (fd : Int)] := by
        rw [← ht, ← hgiven]
        simp [sslNew, Server.record, handovers]
      have harr : t.arrSsl = Function.update s.arrSsl s.nfds
          (some ⟨s.sessions.granted.card, fd⟩) := by
        rw [← ht]
        simp [sslNew, Server.record]
      have hpaired : { t with nfds := t.nfds + 1 }.Paired := by
        refine h.add hroom hnew rfl (by rw [← ht]; rfl) ?_ harr (by simp only; omega)
          (by rw [← ht]; rfl) hsessions
        intro j
        by_cases hj : j = s.nfds
        · simp [← ht, sslNew, Server.record, hj]
        · simp [← ht, sslNew, Server.record, hj]
      obtain ⟨s', hrun, hs', heffect⟩ := hpaired.handshake (hnfds ▸ h.pos) inp
        (x := ⟨s.sessions.granted.card, fd⟩) (by simp [harr, hnfds])
      refine ⟨s', hrun, hs', ?_⟩
      rcases heffect with ⟨hsame, hnone⟩ | ⟨hfreed, hclosed⟩
      · exact .placed fd _ rfl haccept ⟨hpos, hroom⟩ (hsame.trans hsessions) (hnone.trans hcalls)
      · apply Visited.refused fd _ rfl haccept ⟨hpos, hroom⟩ (hsessions ▸ hfreed)
        rw [hclosed, hcalls, List.append_assoc]
        rfl
    · rw [if_pos hpos, if_neg (by exact hroom)]
      exact ⟨_, rfl, hleft, .unplaced fd rfl hready haccept (fun hlt => hroom hlt.2) rfl hgiven⟩
  · rw [if_neg hpos]
    exact ⟨_, rfl, hleft, .unplaced fd rfl hready haccept (fun hlt => hpos hlt.1) rfl hgiven⟩

theorem serveClient (h : s.Paired) (inp : RoundInput) (hi : i < s.nfds) (h1 : 1 ≤ i) :
    ∃ s', serveClient inp i s = .ok s' ∧ s'.Paired ∧ Visited inp i s s' := by
  obtain ⟨x, hlive, hx, hfd⟩ := h.exists_session hi
  have hread : (s.record (.sslRead x)).Paired := h.record _
  have hsame : handovers (s.record (.sslRead x)).calls = handovers s.calls := by
    simp [Server.record, handovers]
  have hdrop : ∃ s', (s.record (.sslRead x)).dropClient i = .ok s' ∧ s'.Paired ∧
      Visited inp i s s' := by
    obtain ⟨s', hrun, hs', y, hy, hsessions, hcalls⟩ := hread.dropClient hi h1
    exact ⟨s', hrun, hs', .dropped y (by omega) hy hsessions (hsame ▸ hcalls)⟩
  unfold OpenSslServer.serveClient
  rw [session_eq hx hlive, Except.bind_ok]
  dsimp only
  cases inp.sslRead x with
  | fail e => exact hdrop
  | data bytes hb =>
    dsimp only
    by_cases hquit : (bytes = [] || isQuit (filled messageSize bytes)) = true
    · rw [if_pos hquit]
      exact hdrop
    · have hwrite : ((s.record (.sslRead x)).record (.terminate bytes.length)).session i = .ok x :=
        session_eq hx hlive
      rw [if_neg hquit, hwrite, Except.bind_ok]
      exact ⟨_, rfl, (hread.record _).record _,
        .quiet (by omega) rfl (by simp [Server.record, handovers])⟩

/-- A visit uses live sessions only. The listening socket is in slot 0 alone. -/
theorem visit (h : s.Paired) (inp : RoundInput) (hi : i < s.nfds)
    (hfresh : i = 0 → ∀ fd, inp.accept = some fd → (fd : Int) ∉ s.openFds) :
    ∃ s', visit inp i s = .ok s' ∧ s'.Paired ∧ Visited inp i s s' := by
  unfold OpenSslServer.visit
  by_cases hready : (s.fds i).revents.has pollIn = true
  · rw [if_pos hready]
    by_cases hserver : (s.fds i).fd = s.sockServer
    · obtain rfl : i = 0 := h.fd_inj hi h.pos (hserver.trans h.listener.symm)
      rw [if_pos hserver]
      cases haccept : inp.accept with
      | none => exact ⟨s, rfl, h, .quiet (fun _ _ => haccept) rfl rfl⟩
      | some fd => exact h.addClient inp (hfresh rfl fd haccept) hready haccept
    · have h1 : 1 ≤ i := Nat.one_le_iff_ne_zero.2 fun h0 => hserver (h0 ▸ h.listener)
      rw [if_neg hserver]
      exact h.serveClient inp hi h1
  · rw [if_neg hready]
    exact ⟨s, rfl, h, .quiet (fun h0 hflag => absurd (h0 ▸ hflag) hready) rfl rfl⟩

theorem visitFrom (h : s.Paired) (inp : RoundInput) (hn : i + n = maxConnection)
    (hfresh : i = 0 → ∀ fd, inp.accept = some fd → (fd : Int) ∉ s.openFds) :
    ∃ s', visitFrom inp n i s = .ok s' ∧ s'.Paired := by
  induction n generalizing i s with
  | zero =>
    have hbound := h.bound
    exact ⟨s, by rw [OpenSslServer.visitFrom, if_neg (by omega)], h⟩
  | succ n ih =>
    by_cases hi : i < s.nfds
    · obtain ⟨t, hvisit, ht, -⟩ := h.visit inp hi hfresh
      obtain ⟨s', hrest, hs'⟩ := ih (i := i + 1) ht (by omega) (by omega)
      exact ⟨s', by simp [OpenSslServer.visitFrom, hi, hvisit, hrest], hs'⟩
    · exact ⟨s, by simp [OpenSslServer.visitFrom, hi], h⟩

end Paired

/-! ## Cleanup -/

/-- What holds in the cleanup loop: the slots before `k` are clear, and the live
sessions are in the others, once each. -/
structure Cleaning (k : Nat) (s : Server) : Prop where
  clear : ∀ i, i < k ∨ maxConnection ≤ i → s.arrSsl i = none
  inj : ∀ i j x, s.arrSsl i = some x → s.arrSsl j = some x → i = j
  live : ∀ x, x ∈ s.sessions.live ↔ ∃ i, s.arrSsl i = some x
  lease : s.sessions.Valid Session.fd

theorem Paired.cleaning (h : s.Paired) : s.Cleaning 0 := by
  refine ⟨?_, h.dense.inj, h.live, h.lease⟩
  intro i hi
  have hbound := h.bound
  exact h.dense.eq_none (by omega)

/-- A slot without a session is clear. -/
theorem Cleaning.skip {k : Nat} {t : Server} (h : s.Cleaning k) (hx : s.arrSsl k = none)
    (harr : t.arrSsl = s.arrSsl) (hsessions : t.sessions = s.sessions) : t.Cleaning (k + 1) := by
  refine ⟨fun i hi => ?_, ?_, ?_, hsessions ▸ h.lease⟩
  · rw [harr]
    by_cases hik : i = k
    · rw [hik, hx]
    · exact h.clear i (by omega)
  · rw [harr]
    exact h.inj
  · rw [harr, hsessions]
    exact h.live

/-- A slot whose session is freed becomes clear. -/
theorem Cleaning.free {k : Nat} {t : Server} {x : Session} (h : s.Cleaning k)
    (hx : s.arrSsl k = some x) (harr : t.arrSsl = Function.update s.arrSsl k none)
    (hsessions : t.sessions = s.sessions.giveBack x) : t.Cleaning (k + 1) := by
  have hlive : x ∈ s.sessions.live := (h.live x).2 ⟨k, hx⟩
  have hafter : ∀ i y, t.arrSsl i = some y ↔ i ≠ k ∧ s.arrSsl i = some y := by
    intro i y
    rw [harr]
    by_cases hik : i = k <;> simp [hik]
  refine ⟨fun i hi => ?_, fun i j y hi hj => ?_, fun y => ?_, hsessions ▸ h.lease.giveBack hlive⟩
  · apply Option.eq_none_iff_forall_ne_some.2
    intro y hy
    obtain ⟨hik, hmem⟩ := (hafter i y).1 hy
    rw [h.clear i (by omega)] at hmem
    cases hmem
  · exact h.inj i j y ((hafter i y).1 hi).2 ((hafter j y).1 hj).2
  · rw [hsessions, mem_giveBack h.lease, h.live]
    constructor
    · rintro ⟨hne, i, hi⟩
      refine ⟨i, (hafter i y).2 ⟨fun hik => hne ?_, hi⟩⟩
      rw [hik, hx] at hi
      exact (Option.some.inj hi).symm
    · rintro ⟨i, hi⟩
      obtain ⟨hik, hmem⟩ := (hafter i y).1 hi
      exact ⟨fun he => hik (h.inj i k x (he ▸ hmem) hx), i, hmem⟩

/-- Cleaning a slot frees its session, which is live, if there is one. -/
theorem Cleaning.cleanSlot {k : Nat} (h : s.Cleaning k) :
    ∃ s', cleanSlot s k = .ok s' ∧ s'.Cleaning (k + 1) ∧
      s'.sessions.granted = s.sessions.granted := by
  unfold OpenSslServer.cleanSlot
  generalize ht : (if 0 < (s.fds k).fd then s.close k else s) = t
  have harr : t.arrSsl = s.arrSsl := by rw [← ht]; split <;> rfl
  have hsessions : t.sessions = s.sessions := by rw [← ht]; split <;> rfl
  dsimp only
  rw [harr]
  cases hx : s.arrSsl k with
  | none => exact ⟨t, rfl, h.skip hx harr hsessions, by rw [hsessions]⟩
  | some x =>
    have hlive : x ∈ s.sessions.live := (h.live x).2 ⟨k, hx⟩
    have hxt : t.arrSsl k = some x := by rw [harr, hx]
    have hlivet : x ∈ t.sessions.live := by rwa [hsessions]
    have hfree := sslFree_eq (s := t.record (.sslShutdown x)) hxt hlivet
    dsimp only
    rw [session_eq hxt hlivet, Except.bind_ok, hfree, Except.bind_ok]
    have hgranted : t.sessions.granted = s.sessions.granted := congrArg Lease.granted hsessions
    refine ⟨_, rfl, h.free hx ?_ ?_, hgranted⟩
    · exact congrArg (Function.update · k none) harr
    · exact congrArg (·.giveBack x) hsessions

theorem Cleaning.cleanSlots (h : s.Cleaning 0) (k : Nat) :
    ∃ s', (List.range k).foldlM OpenSslServer.cleanSlot s = .ok s' ∧ s'.Cleaning k ∧
      s'.sessions.granted = s.sessions.granted := by
  induction k with
  | zero => exact ⟨s, rfl, h, rfl⟩
  | succ k ih =>
    obtain ⟨t, hrun, ht, hgranted⟩ := ih
    obtain ⟨s', hlast, hs', hgranted'⟩ := ht.cleanSlot
    refine ⟨s', ?_, hs', hgranted'.trans hgranted⟩
    rw [List.range_succ, List.foldlM_append, hrun, Except.bind_ok]
    simp [hlast]

/-- After the cleanup every session that was created has been freed once. -/
theorem Paired.cleanup (h : s.Paired) : ∃ s', cleanup s = .ok s' ∧
    s'.sessions.granted = s.sessions.granted ∧
    ∀ x, s'.sessions.ended.count x = if x ∈ s'.sessions.granted then 1 else 0 := by
  have hstart : ({ s.record (.close s.sockServer) with
      openFds := s.openFds.erase s.sockServer } : Server).Cleaning 0 :=
    ⟨h.cleaning.clear, h.cleaning.inj, h.cleaning.live, h.cleaning.lease⟩
  obtain ⟨s', hrun, hs', hgranted⟩ := hstart.cleanSlots maxConnection
  refine ⟨s', hrun, hgranted, fun x => ?_⟩
  have hnone : s'.sessions.live.count x = 0 := by
    rw [Multiset.count_eq_zero, hs'.live]
    rintro ⟨i, hi⟩
    rw [hs'.clear i (by omega)] at hi
    cases hi
  rw [← hs'.lease.count_add x, hnone, Nat.zero_add]

end Server

/-! ## Runs -/

/-- A round that does not end the loop, in which accept returns a descriptor that
is not open. -/
def Round (s : Server) (inp : RoundInput) (s' : Server) : Prop :=
  (∀ fd, inp.accept = some fd → (fd : Int) ∉ s.openFds) ∧ round inp s = .ok (some s')

theorem startUp_paired {sockServer : Nat} {openFds : Finset Int}
    (h : (sockServer : Int) ∈ openFds) : (startUp sockServer openFds).Paired := by
  let x : Session := ⟨0, sockServer⟩
  have hempty : Dense 0 (fun _ : Nat => (none : Option Session)) := ⟨by simp, by simp⟩
  have harr : (startUp sockServer openFds).arrSsl = Function.update (fun _ => none) 0 (some x) := by
    simp [startUp, Server.sslNew, Lease.empty, x]
  have hsessions : (startUp sockServer openFds).sessions = Lease.empty.grant x := by
    simp [startUp, Server.sslNew, Lease.empty, x]
  refine ⟨le_rfl, show 1 ≤ maxConnection by decide, rfl, ?_, ?_, ?_, ?_, ?_, ?_⟩
  · rw [harr]
    exact hempty.push (by simp)
  · intro i
    rw [harr]
    by_cases hi : i = 0
    · simp [startUp, Server.sslNew, Server.record, slotFd, hi, x]
    · simp [startUp, Server.sslNew, Server.record, slotFd, hi]
  · intro y
    rw [harr, hempty.exists_push, hsessions]
    simp [Lease.grant, Lease.empty]
  · intro y hy
    rw [hsessions] at hy
    obtain rfl : y = x := by simpa [Lease.grant, Lease.empty] using hy
    exact h
  · rw [hsessions]
    exact Lease.valid_empty.grant (by simp [Lease.empty]) (by simp [Lease.empty])
  · rw [hsessions]
    simp [Lease.grant, Lease.empty, x]

namespace Server.Paired

/-- A round goes through, whatever the environment does. -/
theorem round (h : s.Paired) (hfresh : ∀ fd, inp.accept = some fd → (fd : Int) ∉ s.openFds) :
    ∃ r, round inp s = .ok r ∧ ∀ s' ∈ r, s'.Paired := by
  unfold OpenSslServer.round
  cases inp.poll with
  | none => exact ⟨none, rfl, by simp⟩
  | some revents =>
    obtain ⟨s', hrun, hs'⟩ := (h.poll revents).visitFrom inp (i := 0)
      (Nat.zero_add maxConnection) fun _ => hfresh
    refine ⟨some s', by simp [hrun], ?_⟩
    rintro _ ⟨rfl⟩
    exact hs'

end Server.Paired

/-- In every reachable state the slots below `nfds` hold live sessions for their
descriptors, each session and each descriptor in one slot, and the other slots are
clear. No round uses a session that is not live, and after the cleanup every
session has been freed exactly once. -/
theorem sessions_paired {sockServer : Nat} {openFds : Finset Int} {rounds : List RoundInput}
    (hlisten : (sockServer : Int) ∈ openFds)
    (hrun : Run Round (startUp sockServer openFds) rounds s) :
    (1 ≤ s.nfds ∧ s.nfds ≤ maxConnection ∧
      (∀ i < s.nfds, ∃ x ∈ s.sessions.live, s.arrSsl i = some x ∧ x.fd = (s.fds i).fd) ∧
      (∀ i < s.nfds, ∀ j < s.nfds, i ≠ j →
        s.arrSsl i ≠ s.arrSsl j ∧ (s.fds i).fd ≠ (s.fds j).fd) ∧
      ∀ i, s.nfds ≤ i → (s.fds i).fd = -1 ∧ s.arrSsl i = none) ∧
    (∀ inp : RoundInput, (∀ fd, inp.accept = some fd → (fd : Int) ∉ s.openFds) →
      ∃ r, round inp s = .ok r) ∧
    ∃ s', cleanup s = .ok s' ∧ s'.sessions.granted = s.sessions.granted ∧
      ∀ x, s'.sessions.ended.count x = if x ∈ s'.sessions.granted then 1 else 0 := by
  have h : s.Paired := by
    apply hrun.invariant (I := Server.Paired) _ (startUp_paired hlisten)
    intro t inp t' ht hround
    obtain ⟨r, hok, hr⟩ := ht.round hround.1
    exact hr t' (Except.ok.inj (hok.symm.trans hround.2))
  refine ⟨⟨h.pos, h.bound, fun i hi => h.exists_session hi, ?_, ?_⟩, ?_, h.cleanup⟩
  · intro i hi j hj hij
    obtain ⟨x, -, hx, -⟩ := h.exists_session hi
    refine ⟨fun he => hij ?_, fun he => hij (h.fd_inj hi hj he)⟩
    exact h.dense.inj i j x hx (he ▸ hx)
  · intro i hi
    have hnone := h.dense.eq_none hi
    exact ⟨by rw [h.parallel, hnone]; rfl, hnone⟩
  · intro inp hfresh
    obtain ⟨r, hok, -⟩ := h.round hfresh
    exact ⟨r, hok⟩

/-- The state after a round that goes through and does not end the loop. -/
def next (inp : RoundInput) (s : Server) : Option Server := (round inp s).toOption.join

theorem next_eq_some : next inp s = some s' ↔ round inp s = .ok (some s') := by
  unfold next
  cases round inp s <;> simp [Except.toOption]

/-- A client connects and leaves, another one fails its handshake, and the server
stops: the three sessions have been freed. -/
theorem sessions_paired_three : ∃ (s s' : Server) (rounds : List RoundInput),
    Run Round (startUp 3 {3}) rounds s ∧ cleanup s = .ok s' ∧ s'.sessions.granted.card = 3 ∧
      ∀ x, s'.sessions.ended.count x = if x ∈ s'.sessions.granted then 1 else 0 := by
  let connect : RoundInput :=
    ⟨some fun i => if i = 0 then pollIn else 0, some 4, true, fun _ => .data [] (by decide)⟩
  let leave : RoundInput :=
    ⟨some fun i => if i = 1 then pollIn else 0, none, true, fun _ => .data [] (by decide)⟩
  let refuse : RoundInput :=
    ⟨some fun i => if i = 0 then pollIn else 0, some 4, false, fun _ => .data [] (by decide)⟩
  have hrun : (next connect (startUp 3 {3}) >>= fun s₁ => next leave s₁ >>= fun s₂ =>
      (next refuse s₂).map fun s₃ => decide ((4 : Int) ∉ s₂.openFds ∧
        s₃.sessions.granted.card = 3)) = some true := by
    decide +kernel
  obtain ⟨s₁, hfirst, hrest⟩ := Option.bind_eq_some_iff.1 hrun
  obtain ⟨s₂, hsecond, hrest⟩ := Option.bind_eq_some_iff.1 hrest
  obtain ⟨s₃, hthird, hfacts⟩ := Option.map_eq_some_iff.1 hrest
  obtain ⟨hfresh, hcard⟩ := of_decide_eq_true hfacts
  have hround₁ : Round (startUp 3 {3}) connect s₁ := by
    refine ⟨?_, next_eq_some.1 hfirst⟩
    rintro _ ⟨rfl⟩
    decide
  have hround₂ : Round s₁ leave s₂ := ⟨by simp [leave], next_eq_some.1 hsecond⟩
  have hround₃ : Round s₂ refuse s₃ := by
    refine ⟨?_, next_eq_some.1 hthird⟩
    rintro _ ⟨rfl⟩
    exact hfresh
  have hrounds := Run.cons hround₁ (.cons hround₂ (.single hround₃))
  obtain ⟨-, -, s', hcleanup, hgranted, hfreed⟩ :=
    sessions_paired (by decide) hrounds
  exact ⟨s₃, s', _, hrounds, hcleanup, hgranted ▸ hcard, hfreed⟩

end LinuxNet.OpenSslServer
