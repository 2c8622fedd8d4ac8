-- SUMMARY: When the select server has every accepted descriptor in a slot or has closed it.
import LinuxNet.Base.Held
import LinuxNet.SelectServer.Tracking

/-! # Accepted descriptors of the select server

A scan comes to the listening socket after the clients with smaller descriptors.
What these leave is free for the new client, and its descriptor is none that the
scan comes to afterwards. -/

namespace LinuxNet.SelectServer

variable {s s' t t' : Server} {inp : RoundInput} {readSet held : Finset Nat} {i fd : Nat}

/-- The descriptors that accept has returned and those closed, in order. -/
def handovers (calls : List Call) : List (Handover Nat) :=
  calls.filterMap fun
    | .accept _ _ (some fd) => some (.given fd)
    | .close fd => some (.closed fd)
    | _ => none

/-- The descriptors in the slots. -/
def Server.tracked (s : Server) : Finset Nat := s.fdsClient.used.toFinset

/-- The descriptors below `i` that are closed in a scan. -/
def RoundInput.left (inp : RoundInput) (readSet : Finset Nat) (i : Nat) : Finset Nat :=
  readSet.filter fun g => g < i ∧ inp.leaves g

/-- If accept returns a client, its descriptor is not 0, and there is a free slot
for it, or one whose client leaves before in the same scan. -/
def RoundInput.HasRoom (inp : RoundInput) (s : Server) : Prop :=
  s.sockServer ∈ s.readSet inp →
    ∀ fd, inp.accept (s.openFds \ inp.left (s.readSet inp) s.sockServer) = some fd →
      0 < fd ∧ (0 < s.fdsClient.room ∨
        ∃ g ∈ s.fdsClient.used, g ∈ inp.left (s.readSet inp) s.sockServer)

theorem handovers_append (calls calls' : List Call) :
    handovers (calls ++ calls') = handovers calls ++ handovers calls' :=
  List.filterMap_append

/-- A slot that is freed is no longer tracked. -/
theorem Server.Watched.tracked_take (h : s.Watched)
    (hslots : s'.fdsClient = s.fdsClient.take i) : s'.tracked = s.tracked.erase i := by
  ext g
  simp only [Server.tracked, hslots, List.mem_toFinset, Slots.mem_used_take h.nodup,
    Finset.mem_erase]

theorem held_accept (held : Finset Nat) (calls : List Call) (i n fd : Nat) :
    heldAfter held (handovers (calls ++ [.accept i n (some fd)])) =
      insert fd (heldAfter held (handovers calls)) := by
  rw [handovers_append]
  exact heldAfter_given held (handovers calls) fd

/-! ## Serving a client -/

/-- What serving a client does to the descriptors and the slots. -/
theorem serveClient_handovers (inp : RoundInput) (i : Nat) (s : Server) :
    let s' := serveClient inp i s
    s'.sockServer = s.sockServer ∧
      if inp.leaves i then
        s'.openFds = s.openFds.erase i ∧ s'.fdsClient = s.fdsClient.take i ∧
          handovers s'.calls = handovers s.calls ++ [.closed i]
      else
        s'.openFds = s.openFds ∧ s'.fdsClient = s.fdsClient ∧
          handovers s'.calls = handovers s.calls := by
  obtain ⟨tail, htail, hserve⟩ := serveClient_eq inp i s
  have hnone : handovers (.recv i (s.socketOf i) :: tail) = [] := by
    apply List.filterMap_eq_nil_iff.2
    intro call hcall
    rcases List.mem_cons.1 hcall with rfl | hcall
    · rfl
    · obtain ⟨hread, hother⟩ := htail call hcall
      cases call with
      | accept g socket result => simp [Call.read] at hread
      | close g => exact absurd rfl (hother g).2
      | _ => rfl
  dsimp only
  rw [hserve]
  cases inp.leaves i with
  | false =>
    refine ⟨rfl, rfl, rfl, ?_⟩
    apply (handovers_append _ _).trans
    rw [hnone, List.append_nil]
  | true =>
    refine ⟨rfl, rfl, rfl, ?_⟩
    simp only [if_true, Server.dropClient, Server.record, handovers_append, hnone, List.append_nil]
    rfl

theorem left_succ (inp : RoundInput) (hmem : i ∈ readSet) : inp.left readSet (i + 1) =
    if inp.leaves i then insert i (inp.left readSet i) else inp.left readSet i := by
  ext g
  cases hleaves : inp.leaves i with
  | false =>
    simp only [RoundInput.left, Finset.mem_filter, Bool.false_eq_true, if_false]
    grind
  | true =>
    simp only [RoundInput.left, Finset.mem_filter, if_true, Finset.mem_insert]
    grind

theorem left_succ_of_notMem (inp : RoundInput) (hmem : i ∉ readSet) :
    inp.left readSet (i + 1) = inp.left readSet i := by
  ext g
  simp only [RoundInput.left, Finset.mem_filter]
  grind

/-! ## Before and after the listening socket -/

namespace Server

/-- What holds when a scan comes to `i`, before it has visited the listening
socket. -/
structure Before (inp : RoundInput) (readSet held : Finset Nat) (s : Server) (i : Nat)
    (t : Server) : Prop where
  watched : t.Watched
  listener : t.sockServer = s.sockServer
  openFds : t.openFds = s.openFds \ inp.left readSet i
  used : ∀ g, g ∈ t.fdsClient.used ↔ g ∈ s.fdsClient.used ∧ g ∉ inp.left readSet i
  room : 0 < t.fdsClient.room ↔
    0 < s.fdsClient.room ∨ ∃ g ∈ s.fdsClient.used, g ∈ inp.left readSet i
  subset : heldAfter held (handovers t.calls) ⊆ t.tracked

/-- A held descriptor that is not tracked, and that the scan does not come to
any more. -/
def Lost (readSet held : Finset Nat) (sockServer : Nat) (t : Server) : Prop :=
  ∃ fd ∈ heldAfter held (handovers t.calls), fd ∉ t.tracked ∧ (fd ∈ readSet → fd ≤ sockServer)

/-- What holds once a scan has visited the listening socket. -/
structure After (inp : RoundInput) (held : Finset Nat) (s t : Server) : Prop where
  watched : t.Watched
  listener : t.sockServer = s.sockServer
  kept : inp.HasRoom s → heldAfter held (handovers t.calls) ⊆ t.tracked
  lost : ¬ inp.HasRoom s → Lost (s.readSet inp) held s.sockServer t

namespace Before

theorem served (h : s.Before inp readSet held i t) (hmem : i ∈ readSet) (hi : i ≠ s.sockServer) :
    s.Before inp readSet held (i + 1) (SelectServer.serveClient inp i t) := by
  obtain ⟨hlistener, heffect⟩ := serveClient_handovers inp i t
  have hwatched := h.watched.serveClient inp (h.listener ▸ hi)
  generalize SelectServer.serveClient inp i t = t' at hlistener heffect hwatched
  have hleft := left_succ inp hmem
  cases hleaves : inp.leaves i with
  | false =>
    rw [hleaves] at heffect hleft
    obtain ⟨hopen, hslots, hcalls⟩ := heffect
    refine ⟨hwatched, hlistener.trans h.listener, ?_, ?_, ?_, ?_⟩
    · rw [hopen, h.openFds, hleft]
      rfl
    · rw [hslots, hleft]
      exact h.used
    · rw [hslots, hleft]
      exact h.room
    · rw [hcalls, Server.tracked, hslots]
      exact h.subset
  | true =>
    rw [hleaves, if_pos rfl] at heffect hleft
    obtain ⟨hopen, hslots, hcalls⟩ := heffect
    have hused : i ∈ t.fdsClient.used ↔ i ∈ s.fdsClient.used := by
      rw [h.used]
      simp [RoundInput.left]
    refine ⟨hwatched, hlistener.trans h.listener, ?_, ?_, ?_, ?_⟩
    · rw [hopen, h.openFds, hleft, Finset.sdiff_insert]
    · intro g
      rw [hslots, Slots.mem_used_take h.watched.nodup, h.used, hleft, Finset.mem_insert]
      tauto
    · rw [hslots, hleft]
      by_cases hi' : i ∈ t.fdsClient.used
      · rw [Slots.room_take hi']
        exact iff_of_true (Nat.succ_pos _) (.inr ⟨i, hused.1 hi', Finset.mem_insert_self _ _⟩)
      · rw [Slots.room_take_of_notMem hi', h.room]
        apply or_congr_right
        constructor
        · rintro ⟨g, hg, hgone⟩
          exact ⟨g, hg, Finset.mem_insert_of_mem hgone⟩
        · rintro ⟨g, hg, hgone⟩
          rcases Finset.mem_insert.1 hgone with rfl | hgone
          · exact absurd (hused.2 hg) hi'
          · exact ⟨g, hg, hgone⟩
    · rw [hcalls, heldAfter_closed, h.watched.tracked_take hslots]
      exact Finset.erase_subset_erase i h.subset

theorem skipped (h : s.Before inp readSet held i t) (hmem : i ∉ readSet) :
    s.Before inp readSet held (i + 1) t := by
  have hleft := left_succ_of_notMem inp hmem
  exact ⟨h.watched, h.listener, hleft ▸ h.openFds, hleft ▸ h.used, hleft ▸ h.room, h.subset⟩

/-- A scan that does not visit the listening socket accepts nobody. -/
theorem passed (h : s.Before inp (s.readSet inp) held s.sockServer t)
    (hmem : s.sockServer ∉ s.readSet inp) : s.After inp held t :=
  ⟨h.watched, h.listener, fun _ => h.subset, fun hroom => absurd (fun hin => absurd hin hmem) hroom⟩

/-- A new descriptor is in no slot, and the scan has passed it. -/
theorem accepted_new (hs : s.Watched) (h : s.Before inp (s.readSet inp) held s.sockServer t)
    (hfresh : inp.Fresh) (haccept : inp.accept t.openFds = some fd) :
    fd ∉ t.fdsClient.used ∧ (fd ∈ s.readSet inp → fd ≤ s.sockServer) := by
  have hclosed := hfresh _ fd haccept
  refine ⟨fun hused => hclosed (h.watched.isOpen fd (h.watched.slots fd hused).1), ?_⟩
  intro hread
  by_contra hlt
  rw [h.openFds, Finset.mem_sdiff] at hclosed
  refine hclosed ⟨hs.isOpen fd (readSet_subset inp s hread), fun hleft => hlt ?_⟩
  have hbelow := (Finset.mem_filter.1 hleft).2.1
  omega

/-- The visit of the listening socket. -/
theorem accepted (hs : s.Watched) (h : s.Before inp (s.readSet inp) held s.sockServer t)
    (hfresh : inp.Fresh) (hmem : s.sockServer ∈ s.readSet inp)
    (hvisit : Visited inp s.sockServer t t') : s.After inp held t' := by
  have hcond : inp.HasRoom s ↔
      ∀ fd, inp.accept t.openFds = some fd → 0 < fd ∧ 0 < t.fdsClient.room := by
    simp only [RoundInput.HasRoom, hmem, true_imp_iff, h.openFds, h.room]
  have hwatched := h.watched.visited (hfresh _) hvisit
  have hnew : ∀ fd, inp.accept t.openFds = some fd →
      fd ∉ t.fdsClient.used ∧ (fd ∈ s.readSet inp → fd ≤ s.sockServer) :=
    fun fd haccept => h.accepted_new hs hfresh haccept
  cases hvisit with
  | refused hi haccept =>
    have hroom : inp.HasRoom s := hcond.2 fun fd hfd => by
      rw [haccept] at hfd
      cases hfd
    refine ⟨hwatched, h.listener, fun _ => ?_, fun hnot => absurd hroom hnot⟩
    rw [Server.record, handovers_append]
    exact (List.append_nil (handovers t.calls)).symm ▸ h.subset
  | unplaced fd hi haccept hfull =>
    have hnot : ¬ inp.HasRoom s := fun hroom => by
      have hpos := (hcond.1 hroom fd haccept).2
      omega
    refine ⟨hwatched, h.listener, fun hroom => absurd hroom hnot, fun _ => ?_⟩
    obtain ⟨hunused, hpassed⟩ := hnew fd haccept
    refine ⟨fd, ?_, fun htracked => hunused (List.mem_toFinset.1 htracked), hpassed⟩
    rw [Server.opened, Server.record, held_accept]
    exact Finset.mem_insert_self _ _
  | added fd hi haccept hroom hfd =>
    obtain ⟨hunused, hpassed⟩ := hnew fd haccept
    have hheld : heldAfter held (handovers (((t.record (.accept s.sockServer
        (t.socketOf s.sockServer) (some fd))).opened fd).watch fd).calls) =
          insert fd (heldAfter held (handovers t.calls)) := by
      rw [Server.watch, Server.record, Server.opened, Server.record, handovers_append]
      exact (congrArg _ (List.append_nil _)).trans (held_accept held t.calls _ _ fd)
    rcases Nat.eq_zero_or_pos fd with rfl | hpos
    · -- in the slots 0 stands for no client
      have hnot : ¬ inp.HasRoom s := fun hroom => lt_irrefl 0 (hcond.1 hroom 0 haccept).1
      refine ⟨hwatched, h.listener, fun hroom => absurd hroom hnot, fun _ => ?_⟩
      refine ⟨0, ?_, fun htracked => ?_, hpassed⟩
      · rw [hheld]
        exact Finset.mem_insert_self _ _
      · exact Slots.ne_zero_of_mem_used (List.mem_toFinset.1 htracked) rfl
    · have hyes : inp.HasRoom s := hcond.2 fun g hg => by
        rw [haccept] at hg
        exact Option.some.inj hg ▸ ⟨hpos, hroom⟩
      refine ⟨hwatched, h.listener, fun _ => ?_, fun hnot => absurd hyes hnot⟩
      rw [hheld]
      intro g hg
      apply List.mem_toFinset.2
      apply (Slots.mem_used_put hroom hpos.ne').2
      exact (Finset.mem_insert.1 hg).imp_right fun hg => List.mem_toFinset.1 (h.subset hg)
  | served hi => exact absurd h.listener.symm hi

end Before

theorem After.served (h : s.After inp held t) (hmem : i ∈ s.readSet inp) (hi : s.sockServer < i) :
    s.After inp held (SelectServer.serveClient inp i t) := by
  obtain ⟨hlistener, heffect⟩ := serveClient_handovers inp i t
  have hwatched := h.watched.serveClient inp (i := i) (by rw [h.listener]; omega)
  generalize SelectServer.serveClient inp i t = t' at hlistener heffect hwatched
  cases hleaves : inp.leaves i with
  | false =>
    rw [hleaves] at heffect
    obtain ⟨-, hslots, hcalls⟩ := heffect
    refine ⟨hwatched, hlistener.trans h.listener, ?_, ?_⟩
    · rw [hcalls, Server.tracked, hslots]
      exact h.kept
    · rw [Lost, hcalls, Server.tracked, hslots]
      exact h.lost
  | true =>
    rw [hleaves, if_pos rfl] at heffect
    obtain ⟨-, hslots, hcalls⟩ := heffect
    have htracked := h.watched.tracked_take hslots
    refine ⟨hwatched, hlistener.trans h.listener, fun hroom => ?_, fun hroom => ?_⟩
    · rw [hcalls, heldAfter_closed, htracked]
      exact Finset.erase_subset_erase i (h.kept hroom)
    · obtain ⟨fd, hheld, huntracked, hpassed⟩ := h.lost hroom
      have hne : fd ≠ i := by
        rintro rfl
        exact absurd (hpassed hmem) (by omega)
      refine ⟨fd, ?_, fun hfd => huntracked (Finset.mem_of_mem_erase (htracked ▸ hfd)), hpassed⟩
      rw [hcalls, heldAfter_closed]
      exact Finset.mem_erase.2 ⟨hne, hheld⟩

/-- What holds when a scan comes to `i`. -/
def Scanning (inp : RoundInput) (held : Finset Nat) (s : Server) (i : Nat) (t : Server) : Prop :=
  (i ≤ s.sockServer ∧ s.Before inp (s.readSet inp) held i t) ∨
    (s.sockServer < i ∧ s.After inp held t)

theorem Scanning.visited (h : s.Watched) (ht : s.Scanning inp held i t) (hfresh : inp.Fresh)
    (hmem : i ∈ s.readSet inp) (hvisit : Visited inp i t t') :
    s.Scanning inp held (i + 1) t' := by
  rcases ht with ⟨hle, hbefore⟩ | ⟨hlt, hafter⟩
  · by_cases hi : i = s.sockServer
    · subst hi
      exact .inr ⟨Nat.lt_succ_self _, hbefore.accepted h hfresh hmem hvisit⟩
    · have hother : i ≠ t.sockServer := by rwa [hbefore.listener]
      cases hvisit with
      | served _ => exact .inl ⟨by omega, hbefore.served hmem hi⟩
      | _ => contradiction
  · have hother : i ≠ t.sockServer := by
      rw [hafter.listener]
      omega
    cases hvisit with
    | served _ => exact .inr ⟨by omega, hafter.served hmem hlt⟩
    | _ => contradiction

theorem Scanning.skipped (ht : s.Scanning inp held i t) (hmem : i ∉ s.readSet inp) :
    s.Scanning inp held (i + 1) t := by
  rcases ht with ⟨hle, hbefore⟩ | ⟨hlt, hafter⟩
  · by_cases hi : i = s.sockServer
    · subst hi
      exact .inr ⟨Nat.lt_succ_self _, hbefore.passed hmem⟩
    · exact .inl ⟨by omega, hbefore.skipped hmem⟩
  · exact .inr ⟨by omega, hafter⟩

/-- A round tracks what is held exactly if it has room for the client that
accept returns. -/
theorem Watched.held_round (h : s.Watched) (hround : Round s inp s') (hheld : held ⊆ s.tracked) :
    heldAfter held (handovers s'.calls) ⊆ s'.tracked ↔ inp.HasRoom s := by
  obtain ⟨hfresh, hscan⟩ := hround
  have hleft : inp.left (s.readSet inp) 0 = ∅ := by simp [RoundInput.left]
  have hstart : s.Before inp (s.readSet inp) held 0 { s with calls := [] } :=
    ⟨h.calls [], rfl, by rw [hleft, Finset.sdiff_empty], by simp [hleft], by simp [hleft], hheld⟩
  obtain ⟨j, hj, hend⟩ := scan_invariant (I := s.Scanning inp held)
    (fun i t t' ht hmem hvisit => ht.visited h hfresh hmem (visit_cases hvisit))
    (fun i t ht hmem => ht.skipped hmem) hscan (.inl ⟨Nat.zero_le _, hstart⟩)
  -- the scan has passed the listening socket, which is below the maximum
  have hafter : s.After inp held s' := by
    rcases hend with ⟨hle, hbefore⟩ | ⟨-, hafter⟩
    · have hbound := hbefore.watched.bound _ hbefore.watched.listener
      have hlistener := hbefore.listener
      omega
    · exact hafter
  refine ⟨fun hsub => ?_, hafter.kept⟩
  by_contra hroom
  obtain ⟨fd, hmem, huntracked, -⟩ := hafter.lost hroom
  exact huntracked (hsub hmem)

end Server

/-- A round, and what it makes of the accepted descriptors that are not closed. -/
def HoldingRound := Holding Round fun s => handovers s.calls

end LinuxNet.SelectServer
