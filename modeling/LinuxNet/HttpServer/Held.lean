-- SUMMARY: When the HTTP server has every accepted descriptor in its table or has closed it.
import LinuxNet.Base.Held
import LinuxNet.HttpServer.Dispatch
import Mathlib.Data.Finset.Image
import Mathlib.Data.Finset.Range

/-! # Accepted descriptors of the HTTP server

The handler may be called on the listening socket, which is then closed like a
client; so a table need not have it. If it does, it is in slot 0. -/

namespace LinuxNet.HttpServer

variable {s s' : Server} {inp : RoundInput} {held : Finset Int} {i n fd : Nat}

/-- The descriptors that accept has returned and those closed, in order. -/
def handovers (calls : List Call) : List (Handover Int) :=
  calls.filterMap fun
    | .accept fd => some (.given fd)
    | .close fd => some (.closed fd)
    | .handle .. => none

/-- The descriptors in the table. -/
def Server.tracked (s : Server) : Finset Int :=
  (Finset.range s.nfds).image fun i => (s.fds i).fd

/-- If accept returns a client, there is room for it in the table. -/
def RoundInput.HasRoom (inp : RoundInput) (s : Server) : Prop :=
  ∀ revents ∈ inp.poll, 0 < s.nfds → (s.fds 0).fd = s.sockServer → (revents 0).has pollIn →
    inp.accept 0 ≠ none → s.nfds < maxConnection

namespace Server

/-- The table has open and pairwise distinct descriptors, with the listening
socket in slot 0 at most. -/
structure Entries (s : Server) : Prop where
  bound : s.nfds ≤ maxConnection
  isOpen : ∀ i < s.nfds, (s.fds i).fd ∈ s.openFds
  inj : ∀ i < s.nfds, ∀ j < s.nfds, (s.fds i).fd = (s.fds j).fd → i = j
  listener : ∀ i < s.nfds, (s.fds i).fd = s.sockServer → i = 0
  nonneg : 0 ≤ s.sockServer

theorem mem_tracked {g : Int} : g ∈ s.tracked ↔ ∃ i < s.nfds, (s.fds i).fd = g := by
  simp [tracked]

namespace Entries

/-- The invariant reads the descriptors of `fds` only. -/
theorem congr (h : s.Entries) (hfds : ∀ i, (s'.fds i).fd = (s.fds i).fd) (hnfds : s'.nfds = s.nfds)
    (hopen : s.openFds ⊆ s'.openFds) (hserver : s'.sockServer = s.sockServer) : s'.Entries := by
  refine ⟨hnfds ▸ h.bound, ?_, ?_, ?_, hserver ▸ h.nonneg⟩
  · rw [hnfds]
    intro i hi
    rw [hfds]
    exact hopen (h.isOpen i hi)
  · rw [hnfds]
    intro i hi j hj he
    rw [hfds, hfds] at he
    exact h.inj i hi j hj he
  · rw [hnfds, hserver]
    intro i hi he
    rw [hfds] at he
    exact h.listener i hi he

theorem dropClient (h : s.Entries) (hi : i < s.nfds) : (s.dropClient i).Entries ∧
    (s.dropClient i).tracked = s.tracked.erase (s.fds i).fd := by
  have hfd : ∀ j, ((s.dropClient i).fds j).fd =
      if j = i then (s.fds (s.nfds - 1)).fd else (s.fds j).fd := by
    intro j
    by_cases hj : j = i
    · simp [Server.dropClient, hj]
    · simp [Server.dropClient, hj]
  have hnfds : (s.dropClient i).nfds = s.nfds - 1 := rfl
  -- the slots that remain, and where their descriptors were before
  have hfrom : ∀ j < s.nfds - 1, ∃ k < s.nfds, k ≠ i ∧ (s.fds k).fd = ((s.dropClient i).fds j).fd ∧
      (k = j ∨ j = i ∧ k = s.nfds - 1) := by
    intro j hj
    by_cases hji : j = i
    · exact ⟨s.nfds - 1, by omega, by omega, by rw [hfd, if_pos hji], .inr ⟨hji, rfl⟩⟩
    · exact ⟨j, by omega, hji, by rw [hfd, if_neg hji], .inl rfl⟩
  have hbound := h.bound
  refine ⟨⟨by omega, ?_, ?_, ?_, h.nonneg⟩, ?_⟩
  · intro j hj
    obtain ⟨k, hk, hne, he, -⟩ := hfrom j hj
    rw [← he]
    exact Finset.mem_erase.2 ⟨fun hsame => hne (h.inj k hk i hi hsame), h.isOpen k hk⟩
  · intro j hj l hl he
    obtain ⟨k, hk, hne, hkj, hcase⟩ := hfrom j hj
    obtain ⟨m, hm, hne', hml, hcase'⟩ := hfrom l hl
    have hkm := h.inj k hk m hm (by rw [hkj, hml, he])
    omega
  · intro j hj he
    obtain ⟨k, hk, hne, hkj, hcase⟩ := hfrom j hj
    have hk0 := h.listener k hk (hkj.trans he)
    omega
  · ext g
    rw [Finset.mem_erase, mem_tracked, mem_tracked, hnfds]
    constructor
    · rintro ⟨j, hj, rfl⟩
      obtain ⟨k, hk, hne, he, -⟩ := hfrom j hj
      rw [← he]
      exact ⟨fun hsame => hne (h.inj k hk i hi hsame), k, hk, rfl⟩
    · rintro ⟨hne, j, hj, rfl⟩
      have hji : j ≠ i := fun he => hne (by rw [he])
      by_cases hlast : j = s.nfds - 1
      · exact ⟨i, by omega, by rw [hfd, if_pos rfl, hlast]⟩
      · exact ⟨j, by omega, by rw [hfd, if_neg hji]⟩

theorem addClient (h : s.Entries) (hnew : (fd : Int) ∉ s.openFds)
    (hother : (fd : Int) ≠ s.sockServer) :
    (s.addClient fd).Entries ∧ (s.addClient fd).tracked =
      if s.nfds < maxConnection then insert (fd : Int) s.tracked else s.tracked := by
  by_cases hroom : s.nfds < maxConnection
  · rw [if_pos hroom, addClient_room hroom]
    have hfd : ∀ j, (Function.update s.fds s.nfds
        { s.fds s.nfds with fd := (fd : Int), events := pollIn } j).fd =
          if j = s.nfds then (fd : Int) else (s.fds j).fd := by
      intro j
      by_cases hj : j = s.nfds <;> simp [hj]
    have hne : ∀ j < s.nfds, (s.fds j).fd ≠ fd := fun j hj he => hnew (he ▸ h.isOpen j hj)
    refine ⟨⟨hroom, ?_, ?_, ?_, h.nonneg⟩, ?_⟩
    · intro j hj
      have hlt : j < s.nfds + 1 := hj
      simp only [hfd]
      split
      · exact Finset.mem_insert_self _ _
      · exact Finset.mem_insert_of_mem (h.isOpen j (by omega))
    · intro j hj l hl he
      simp only [hfd] at he hj hl
      by_cases hjn : j = s.nfds
      · by_cases hln : l = s.nfds
        · rw [hjn, hln]
        · rw [if_pos hjn, if_neg hln] at he
          exact absurd he.symm (hne l (by omega))
      · by_cases hln : l = s.nfds
        · rw [if_neg hjn, if_pos hln] at he
          exact absurd he (hne j (by omega))
        · rw [if_neg hjn, if_neg hln] at he
          exact h.inj j (by omega) l (by omega) he
    · intro j hj he
      simp only [hfd] at he hj
      by_cases hjn : j = s.nfds
      · rw [if_pos hjn] at he
        exact absurd he hother
      · rw [if_neg hjn] at he
        exact h.listener j (by omega) he
    · ext g
      simp only [Finset.mem_insert, mem_tracked, hfd]
      constructor
      · rintro ⟨j, hj, rfl⟩
        by_cases hjn : j = s.nfds
        · exact .inl (if_pos hjn)
        · exact .inr ⟨j, by omega, (if_neg hjn).symm⟩
      · rintro (rfl | ⟨j, hj, rfl⟩)
        · exact ⟨s.nfds, Nat.lt_succ_self _, if_pos rfl⟩
        · exact ⟨j, by omega, if_neg (by omega)⟩
  · rw [if_neg hroom, addClient_full hroom]
    exact ⟨h.congr (fun _ => rfl) rfl (Finset.subset_insert _ _) rfl, rfl⟩

theorem addClient_handovers (s : Server) (fd : Nat) :
    handovers (s.addClient fd).calls = handovers s.calls ++ [.given (fd : Int)] := by
  unfold Server.addClient
  dsimp only
  split <;> simp [Server.record, handovers]

theorem dropClient_handovers (s : Server) (i : Nat) :
    handovers (s.dropClient i).calls = handovers s.calls ++ [.closed (s.fds i).fd] := by
  simp [Server.dropClient, Server.record, handovers]

/-- A visit that accepts nobody loses track of nothing. -/
theorem held_visit (h : s.Entries) (inp : RoundInput) (held : Finset Int) (hi : i < s.nfds)
    (hquiet : (s.fds i).fd = s.sockServer → (s.fds i).revents.has pollIn → inp.accept i = none) :
    (visit inp i s).Entries ∧ (heldAfter held (handovers (visit inp i s).calls) ⊆
      (visit inp i s).tracked ↔ heldAfter held (handovers s.calls) ⊆ s.tracked) := by
  unfold HttpServer.visit
  by_cases hready : (s.fds i).revents.has pollIn = true
  · by_cases hfd : (s.fds i).fd = s.sockServer
    · rw [if_pos hready, if_pos hfd, hquiet hfd hready]
      exact ⟨h, Iff.rfl⟩
    · rw [if_pos hready, if_neg hfd]
      exact ⟨h, Iff.rfl⟩
  · rw [if_neg hready]
    have hhandle : (s.record (.handle i (s.fds i).fd)).Entries :=
      h.congr (fun _ => rfl) rfl (Finset.Subset.refl _) rfl
    have hsame : handovers (s.record (.handle i (s.fds i).fd)).calls = handovers s.calls := by
      simp [Server.record, handovers]
    have htracked : (s.record (.handle i (s.fds i).fd)).tracked = s.tracked := rfl
    have hi' : i < (s.record (.handle i (s.fds i).fd)).nfds := hi
    dsimp only
    generalize s.record (.handle i (s.fds i).fd) = t at hhandle hsame htracked hi' ⊢
    have hquiet : t.Entries ∧ (heldAfter held (handovers t.calls) ⊆ t.tracked ↔
        heldAfter held (handovers s.calls) ⊆ s.tracked) := ⟨hhandle, by rw [hsame, htracked]⟩
    cases inp.handle i with
    | none => exact ⟨hhandle.congr (fun _ => rfl) rfl (Finset.Subset.refl _) rfl, hquiet.2⟩
    | some activity =>
      dsimp only
      split
      · obtain ⟨hdropped, herase⟩ := hhandle.dropClient hi'
        refine ⟨hdropped, Iff.trans ?_ hquiet.2⟩
        rw [herase, dropClient_handovers, heldAfter_closed]
        exact erase_subset_erase_iff (mem_tracked.2 ⟨i, hi', rfl⟩)
      · exact hquiet

/-- Behind slot 0 nobody is accepted. -/
theorem held_visitFrom (h : s.Entries) (inp : RoundInput) (held : Finset Int) (n : Nat)
    (hi : 1 ≤ i) :
    (HttpServer.visitFrom inp n i s).Entries ∧
      (heldAfter held (handovers (HttpServer.visitFrom inp n i s).calls) ⊆
        (HttpServer.visitFrom inp n i s).tracked ↔
          heldAfter held (handovers s.calls) ⊆ s.tracked) := by
  induction n generalizing i s with
  | zero => exact ⟨h, Iff.rfl⟩
  | succ n ih =>
    rw [HttpServer.visitFrom]
    split
    case isTrue hguard =>
      have hquiet : (s.fds i).fd = s.sockServer → (s.fds i).revents.has pollIn →
          inp.accept i = none := fun hfd _ => by
        have hslot := h.listener i hguard.1 hfd
        omega
      obtain ⟨hentries, hstep⟩ := h.held_visit inp held hguard.1 hquiet
      obtain ⟨hend, hrest⟩ := ih hentries (Nat.le_succ_of_le hi)
      exact ⟨hend, hrest.trans hstep⟩
    case isFalse => exact ⟨h, Iff.rfl⟩

theorem poll_tracked (s : Server) (revents : Nat → Events) :
    (s.poll revents).tracked = s.tracked := by
  simp only [Server.tracked, poll_fd]
  rfl

/-- A loop that accepts a client keeps the table, and tracks what is held exactly if
there is room for the client. -/
theorem held_accepting {revents : Nat → Events} (h : s.Entries) (hpos : 0 < s.nfds)
    (hfd : (s.fds 0).fd = s.sockServer) (hready : (revents 0).has pollIn)
    (haccept : inp.accept 0 = some fd) (hnew : (fd : Int) ∉ s.openFds)
    (hheld : held ⊆ s.tracked) :
    (HttpServer.visitFrom inp 1 1 (visit inp 0 (s.poll revents))).Entries ∧
      (heldAfter held (handovers
        (HttpServer.visitFrom inp 1 1 (visit inp 0 (s.poll revents))).calls) ⊆
          (HttpServer.visitFrom inp 1 1 (visit inp 0 (s.poll revents))).tracked ↔
            s.nfds < maxConnection) := by
  have hpolled : (s.poll revents).Entries :=
    h.congr (poll_fd revents) rfl (Finset.Subset.refl _) rfl
  have hrevents := poll_revents revents hpos (by rw [hfd]; exact h.nonneg)
  have hvisit : visit inp 0 (s.poll revents) = (s.poll revents).addClient fd := by
    rw [visit_listener (by rw [hrevents]; exact hready) (by rw [poll_fd]; exact hfd), haccept]
    rfl
  have hother : (fd : Int) ≠ s.sockServer := fun he => hnew (he ▸ hfd ▸ h.isOpen 0 hpos)
  obtain ⟨hentries, hadded⟩ := hpolled.addClient hnew hother
  rw [hvisit]
  obtain ⟨hend, hrest⟩ := hentries.held_visitFrom inp held 1 le_rfl
  refine ⟨hend, hrest.trans ?_⟩
  rw [hadded, addClient_handovers, heldAfter_given, poll_tracked]
  by_cases hroom : s.nfds < maxConnection
  · refine iff_of_true ?_ hroom
    rw [if_pos (by exact hroom)]
    exact Finset.insert_subset_insert _ hheld
  · refine iff_of_false (fun hsub => ?_) hroom
    rw [if_neg (by exact hroom)] at hsub
    -- the new client is held, and not in the table
    obtain ⟨i, hi, he⟩ := mem_tracked.1 (hsub (Finset.mem_insert_self _ _))
    exact hnew (he ▸ h.isOpen i hi)

/-- A round keeps the table, and tracks what is held exactly if it has room for
the client that accept returns. -/
theorem held_round (h : s.Entries) (hround : Round s inp s') (hheld : held ⊆ s.tracked) :
    s'.Entries ∧ (heldAfter held (handovers s'.calls) ⊆ s'.tracked ↔ inp.HasRoom s) := by
  obtain ⟨hrunning, hfresh, hround⟩ := hround
  obtain ⟨revents, hpoll, rfl⟩ := Option.map_eq_some_iff.1 hround
  have hcond : inp.HasRoom s ↔ (0 < s.nfds → (s.fds 0).fd = s.sockServer →
      (revents 0).has pollIn → inp.accept 0 ≠ none → s.nfds < maxConnection) :=
    forall_reported_iff hpoll
  have hpolled : (s.poll revents).Entries :=
    h.congr (poll_fd revents) rfl (Finset.Subset.refl _) rfl
  have hstart : heldAfter held (handovers (s.poll revents).calls) ⊆ (s.poll revents).tracked := by
    rw [poll_tracked]
    exact hheld
  rw [hcond, maxConnection, HttpServer.visitFrom]
  by_cases hpos : 0 < s.nfds
  · rw [if_pos ⟨hpos, hrunning⟩]
    by_cases haccepts : (s.fds 0).fd = s.sockServer ∧ (revents 0).has pollIn ∧ inp.accept 0 ≠ none
    · obtain ⟨hfd, hready, haccept⟩ := haccepts
      obtain ⟨fd, hsome⟩ := Option.ne_none_iff_exists'.1 haccept
      obtain ⟨hend, hroom⟩ :=
        h.held_accepting hpos hfd hready hsome (hfresh 0 fd hsome) hheld
      exact ⟨hend, hroom.trans ⟨fun hlt _ _ _ _ => hlt, fun hall => hall hpos hfd hready haccept⟩⟩
    · have hquiet : ((s.poll revents).fds 0).fd = (s.poll revents).sockServer →
          ((s.poll revents).fds 0).revents.has pollIn → inp.accept 0 = none := by
        intro hfd hready
        rw [poll_fd] at hfd
        rw [poll_revents revents hpos (by rw [hfd]; exact h.nonneg)] at hready
        by_contra haccept
        exact haccepts ⟨hfd, hready, haccept⟩
      obtain ⟨hentries, hstep⟩ := hpolled.held_visit inp held hpos hquiet
      obtain ⟨hend, hrest⟩ := hentries.held_visitFrom inp held 1 le_rfl
      refine ⟨hend, iff_of_true (hrest.2 (hstep.2 hstart)) fun _ hfd hready haccept => ?_⟩
      exact absurd ⟨hfd, hready, haccept⟩ haccepts
  · rw [if_neg fun hguard => hpos hguard.1]
    exact ⟨hpolled, iff_of_true hstart fun hpos' => absurd hpos' hpos⟩

end Entries

end Server

theorem Start.entries (h : Start s) : s.Entries := by
  obtain ⟨sockServer, junk, openFds, hopen, rfl⟩ := h
  have hzero : ∀ i < (startUp sockServer junk openFds).nfds, i = 0 := fun i hi => by
    have hlt : i < 1 := hi
    omega
  refine ⟨show 1 ≤ maxConnection by decide, ?_, ?_, fun i hi _ => hzero i hi, Int.natCast_nonneg _⟩
  · intro i hi
    rw [hzero i hi]
    simpa [startUp] using hopen
  · intro i hi j hj _
    rw [hzero i hi, hzero j hj]

/-- A round that ends at the top of the loop. -/
def LoopRound (s : Server) (inp : RoundInput) (s' : Server) : Prop :=
  Round s inp s' ∧ s'.running

/-- A round, and what it makes of the accepted descriptors that are not closed. -/
def HoldingRound := Holding LoopRound fun s => handovers s.calls

end LinuxNet.HttpServer
