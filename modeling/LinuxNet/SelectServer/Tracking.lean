-- SUMMARY: The descriptor set, the slots and the maximum of the select server agree at every loop top.
import LinuxNet.Base.Transition
import LinuxNet.SelectServer.Scan

/-! # The tracked clients of the select server -/

namespace LinuxNet.SelectServer

variable {s s' : Server} {inp : RoundInput} {readSet : Finset Nat} {i n fd : Nat}

/-! ## What every visit keeps -/

namespace Server

/-- What holds whatever accept returns. Everything in `master_set` is open and
found by a scan, and what has a slot is in `master_set`, once. -/
structure Watched (s : Server) : Prop where
  listener : s.sockServer ∈ s.master
  isOpen : ∀ fd ∈ s.master, fd ∈ s.openFds
  bound : ∀ fd ∈ s.master, fd ≤ s.globalMaxFd
  slots : ∀ fd ∈ s.fdsClient.used, fd ∈ s.master ∧ fd ≠ s.sockServer
  nodup : s.fdsClient.used.Nodup
  named : ∀ fd, s.socketOf fd ≤ s.accepted

/-- Every client in `master_set` has a slot. -/
def Placed (s : Server) : Prop :=
  ∀ fd ∈ s.master, fd = s.sockServer ∨ fd ∈ s.fdsClient.used

namespace Watched

theorem calls (h : s.Watched) (calls : List Call) : ({ s with calls := calls } : Server).Watched :=
  ⟨h.listener, h.isOpen, h.bound, h.slots, h.nodup, h.named⟩

theorem opened (h : s.Watched) (fd : Nat) : (s.opened fd).Watched := by
  refine ⟨h.listener, ?_, h.bound, h.slots, h.nodup, ?_⟩
  · intro g hg
    exact Finset.mem_insert_of_mem (h.isOpen g hg)
  · intro g
    have hnamed := h.named g
    by_cases hg : g = fd
    · simp [Server.opened, hg]
    · simp only [Server.opened, Function.update_of_ne hg]
      omega

theorem watch (h : s.Watched) (hroom : 0 < s.fdsClient.room) (hopen : fd ∈ s.openFds)
    (hnew : fd ∉ s.master) : (s.watch fd).Watched := by
  have hunused : fd ∉ s.fdsClient.used := fun hmem => hnew (h.slots fd hmem).1
  have hother : fd ≠ s.sockServer := fun he => hnew (he ▸ h.listener)
  refine ⟨Finset.mem_insert_of_mem h.listener, ?_, ?_, ?_, Slots.nodup_put hroom h.nodup hunused,
    h.named⟩
  · intro g hg
    rcases Finset.mem_insert.1 hg with rfl | hg
    · exact hopen
    · exact h.isOpen g hg
  · intro g hg
    rcases Finset.mem_insert.1 hg with rfl | hg
    · exact le_max_right _ _
    · exact le_max_of_le_left (h.bound g hg)
  · intro g hg
    by_cases h0 : fd = 0
    · have hsame : (s.watch fd).fdsClient = s.fdsClient := by
        rw [Server.watch, h0, Slots.put_zero]
      rw [hsame] at hg
      exact ⟨Finset.mem_insert_of_mem (h.slots g hg).1, (h.slots g hg).2⟩
    · rcases (Slots.mem_used_put hroom h0).1 hg with rfl | hg
      · exact ⟨Finset.mem_insert_self _ _, hother⟩
      · exact ⟨Finset.mem_insert_of_mem (h.slots g hg).1, (h.slots g hg).2⟩

theorem dropClient (h : s.Watched) (hi : i ≠ s.sockServer) : (s.dropClient i).Watched := by
  refine ⟨Finset.mem_erase.2 ⟨hi.symm, h.listener⟩, ?_, ?_, ?_, Slots.nodup_take h.nodup i,
    h.named⟩
  · intro g hg
    obtain ⟨hne, hmem⟩ := Finset.mem_erase.1 hg
    exact Finset.mem_erase.2 ⟨hne, h.isOpen g hmem⟩
  · intro g hg
    exact h.bound g (Finset.mem_of_mem_erase hg)
  · intro g hg
    obtain ⟨hne, hmem⟩ := (Slots.mem_used_take h.nodup).1 hg
    exact ⟨Finset.mem_erase.2 ⟨hne, (h.slots g hmem).1⟩, (h.slots g hmem).2⟩

theorem serveClient (h : s.Watched) (inp : RoundInput) (hi : i ≠ s.sockServer) :
    (serveClient inp i s).Watched := by
  obtain ⟨tail, -, hserve⟩ := serveClient_eq inp i s
  rw [hserve]
  cases inp.leaves i with
  | false => exact h.calls _
  | true => exact (h.calls _).dropClient hi

theorem visited (h : s.Watched)
    (hfresh : ∀ fd, inp.accept s.openFds = some fd → fd ∉ s.openFds)
    (hvisit : Visited inp i s s') : s'.Watched := by
  cases hvisit with
  | refused hi haccept => exact h.calls _
  | unplaced fd hi haccept hroom => exact (h.calls _).opened fd
  | added fd hi haccept hroom hfd =>
    have hnew : fd ∉ s.master := fun hmem => hfresh fd haccept (h.isOpen fd hmem)
    exact ((h.calls _).opened fd).watch hroom (Finset.mem_insert_self _ _) hnew
  | served hi => exact h.serveClient inp hi

end Watched

namespace Placed

theorem watch (h : s.Placed) (hroom : 0 < s.fdsClient.room) (hpos : 0 < fd) :
    (s.watch fd).Placed := by
  intro g hg
  have hused := Slots.mem_used_put (y := g) hroom hpos.ne'
  rcases Finset.mem_insert.1 hg with rfl | hg
  · exact .inr (hused.2 (.inl rfl))
  · exact (h g hg).imp_right fun hmem => hused.2 (.inr hmem)

theorem dropClient (h : s.Placed) (hnodup : s.fdsClient.used.Nodup) (i : Nat) :
    (s.dropClient i).Placed := by
  intro g hg
  obtain ⟨hne, hmem⟩ := Finset.mem_erase.1 hg
  exact (h g hmem).imp_right fun hused => (Slots.mem_used_take hnodup).2 ⟨hne, hused⟩

theorem serveClient (h : s.Placed) (hnodup : s.fdsClient.used.Nodup) (inp : RoundInput) (i : Nat) :
    (serveClient inp i s).Placed := by
  obtain ⟨tail, -, hserve⟩ := serveClient_eq inp i s
  rw [hserve]
  cases inp.leaves i with
  | false => exact h
  | true => exact dropClient (s := { s with calls := _ }) h hnodup i

theorem visited (h : s.Placed) (hnodup : s.fdsClient.used.Nodup)
    (hpos : ∀ fd, inp.accept s.openFds = some fd → 0 < fd) (hvisit : Visited inp i s s') :
    s'.Placed := by
  cases hvisit with
  | refused hi haccept => exact h
  | unplaced fd hi haccept hroom => exact h
  | added fd hi haccept hroom hfd =>
    exact watch (s := (s.record _).opened fd) h hroom (hpos fd haccept)
  | served hi => exact h.serveClient hnodup inp i

end Placed

end Server

/-- A visit leaves the listening socket alone. -/
theorem Visited.sockServer (h : Visited inp i s s') : s'.sockServer = s.sockServer := by
  cases h with
  | refused hi haccept => rfl
  | unplaced fd hi haccept hroom => rfl
  | added fd hi haccept hroom hfd => rfl
  | served hi =>
    obtain ⟨tail, -, hserve⟩ := serveClient_eq inp i s
    rw [hserve]
    cases inp.leaves i <;> rfl

/-! ## Rounds -/

/-- Accept returns descriptors that are not open. -/
def RoundInput.Fresh (inp : RoundInput) : Prop :=
  ∀ openFds fd, inp.accept openFds = some fd → fd ∉ openFds

/-- Accept does not return 0. -/
def RoundInput.Positive (inp : RoundInput) : Prop :=
  ∀ openFds fd, inp.accept openFds = some fd → 0 < fd

/-- `run_server` at the first top of its loop, with an open listening socket. -/
def Start (s : Server) : Prop :=
  ∃ sockServer openFds, sockServer ∈ openFds ∧ startUp sockServer openFds = .ok s

/-- A round in which accept returns a descriptor that is not open. -/
def Round (s : Server) (inp : RoundInput) (s' : Server) : Prop :=
  inp.Fresh ∧ round inp s = .ok s'

theorem startUp_eq (sockServer : Nat) (openFds : Finset Nat) :
    startUp sockServer openFds = if sockServer < fdSetSize then
      .ok ⟨sockServer, {sockServer}, Slots.empty Nat maxConnection, sockServer, openFds,
        fun _ => 0, 0, [.fdSet sockServer]⟩
    else .error ⟨sockServer⟩ := by
  by_cases h : sockServer < fdSetSize <;> simp [startUp, Server.fdSet, Server.record, h]

theorem Start.watched (h : Start s) : s.Watched ∧ s.Placed := by
  obtain ⟨sockServer, openFds, hopen, hstart⟩ := h
  rw [startUp_eq] at hstart
  by_cases hlt : sockServer < fdSetSize
  · rw [if_pos hlt] at hstart
    cases hstart
    refine ⟨⟨?_, ?_, ?_, ?_, ?_, ?_⟩, ?_⟩ <;> simp [hopen, Server.Placed]
  · rw [if_neg hlt] at hstart
    cases hstart

theorem Server.Watched.round (h : s.Watched) (hround : Round s inp s') : s'.Watched := by
  obtain ⟨hfresh, hscan⟩ := hround
  obtain ⟨j, -, hwatched⟩ := scan_invariant (I := fun _ t => t.Watched)
    (fun i t t' ht _ hvisit => ht.visited (hfresh _) (visit_cases hvisit))
    (fun _ _ ht _ => ht) hscan (h.calls [])
  exact hwatched

theorem Server.Placed.round (h : s.Watched) (hplaced : s.Placed) (hround : Round s inp s')
    (hpos : inp.Positive) : s'.Placed := by
  obtain ⟨hfresh, hscan⟩ := hround
  obtain ⟨j, -, -, hplaced'⟩ := scan_invariant (I := fun _ t => t.Watched ∧ t.Placed)
    (fun i t t' ht _ hvisit => ⟨ht.1.visited (hfresh _) (visit_cases hvisit),
      ht.2.visited ht.1.nodup (hpos _) (visit_cases hvisit)⟩)
    (fun _ _ ht _ => ht) hscan ⟨h.calls [], hplaced⟩
  exact hplaced'

theorem watched_of_reachable (h : Reachable Start Round s) : s.Watched :=
  h.invariant (fun _ hs => hs.watched.1) fun _ _ _ ht hround => ht.round hround

/-- An accept that returns `fd` unless it is open. -/
def acceptOnly (fd : Nat) (openFds : Finset Nat) : Option Nat :=
  if fd ∈ openFds then none else some fd

theorem acceptOnly_eq_some {openFds : Finset Nat} {g : Nat} :
    acceptOnly fd openFds = some g ↔ fd ∉ openFds ∧ fd = g := by
  by_cases h : fd ∈ openFds <;> simp [acceptOnly, h]

theorem fresh_of_acceptOnly (h : inp.accept = acceptOnly fd) : inp.Fresh := by
  intro openFds g haccept
  rw [h] at haccept
  obtain ⟨hnew, rfl⟩ := acceptOnly_eq_some.1 haccept
  exact hnew

/-! ## The tracking invariant -/

/-- `master_set` holds the listening socket and the clients in the slots, which
are open and pairwise distinct, and select is called with a bound above all of
them. -/
structure Server.Tracked (s : Server) : Prop where
  master : s.master = insert s.sockServer s.fdsClient.used.toFinset
  nodup : s.fdsClient.used.Nodup
  isOpen : ∀ fd ∈ s.fdsClient.used, fd ∈ s.openFds ∧ fd ≠ s.sockServer
  bound : ∀ fd ∈ s.master, fd ≤ s.globalMaxFd

theorem Server.Watched.tracked (h : s.Watched) (hplaced : s.Placed) : s.Tracked := by
  refine ⟨?_, h.nodup, ?_, h.bound⟩
  · ext fd
    rw [Finset.mem_insert, List.mem_toFinset]
    constructor
    · exact hplaced fd
    · rintro (rfl | hmem)
      · exact h.listener
      · exact (h.slots fd hmem).1
  · intro fd hmem
    obtain ⟨hmaster, hne⟩ := h.slots fd hmem
    exact ⟨h.isOpen fd hmaster, hne⟩

/-- The sets, the slots and the maximum agree in every reachable state. -/
theorem tracked_of_reachable
    (h : Reachable Start (fun s inp s' => Round s inp s' ∧ inp.Positive) s) : s.Tracked := by
  have hinv : s.Watched ∧ s.Placed := by
    apply h.invariant (I := fun t => t.Watched ∧ t.Placed)
    · exact fun _ hs => hs.watched
    · intro t inp t' ht hround
      exact ⟨ht.1.round hround.1, ht.2.round ht.1 hround.1 hround.2⟩
  exact hinv.1.tracked hinv.2

theorem nil_length_le : ([] : List UInt8).length ≤ messageSize := Nat.zero_le _

/-- A client connects and gets `fd`. -/
def connecting (fd : Nat) : RoundInput :=
  ⟨some {3}, acceptOnly fd, fun _ => .data [] nil_length_le, fun _ => .sent 1⟩

/-- The client on `fd` leaves. -/
def leaving (fd : Nat) : RoundInput :=
  ⟨some {fd}, fun _ => none, fun _ => .data [] nil_length_le, fun _ => .sent 1⟩

theorem connecting_round {fd : Nat} (hpos : 0 < fd) (h : round (connecting fd) s = .ok s') :
    Round s (connecting fd) s' ∧ (connecting fd).Positive := by
  refine ⟨⟨fresh_of_acceptOnly rfl, h⟩, fun openFds g haccept => ?_⟩
  obtain ⟨-, rfl⟩ := acceptOnly_eq_some.1 haccept
  exact hpos

theorem leaving_round {fd : Nat} (h : round (leaving fd) s = .ok s') :
    Round s (leaving fd) s' ∧ (leaving fd).Positive :=
  ⟨⟨fun _ _ haccept => (nomatch haccept), h⟩, fun _ _ haccept => nomatch haccept⟩

/-- Of two clients the first one leaves, and the third gets its descriptor and its slot. -/
theorem tracked_of_reachable_reused : ∃ s : Server, s.fdsClient.used = [4, 5] ∧
    s.globalMaxFd = 5 ∧ s.accepted = 3 ∧ s.socketOf 4 = 3 ∧ s.Tracked := by
  have hrun : (startUp 3 {0, 1, 2, 3} >>= fun s₀ => round (connecting 4) s₀ >>= fun s₁ =>
      round (connecting 5) s₁ >>= fun s₂ => round (leaving 4) s₂ >>= fun s₃ =>
        round (connecting 4) s₃ >>= fun s => .ok (decide (s.fdsClient.used = [4, 5] ∧
          s.globalMaxFd = 5 ∧ s.accepted = 3 ∧ s.socketOf 4 = 3))) = .ok true := by
    decide +kernel
  obtain ⟨s₀, hstart, hrest⟩ := Except.bind_eq_ok.1 hrun
  obtain ⟨s₁, hfirst, hrest⟩ := Except.bind_eq_ok.1 hrest
  obtain ⟨s₂, hsecond, hrest⟩ := Except.bind_eq_ok.1 hrest
  obtain ⟨s₃, hleave, hrest⟩ := Except.bind_eq_ok.1 hrest
  obtain ⟨s, hthird, hfacts⟩ := Except.bind_eq_ok.1 hrest
  obtain ⟨hused, hmax, haccepted, hsocket⟩ := of_decide_eq_true (Except.ok.inj hfacts)
  have hreach : Reachable Start (fun s inp s' => Round s inp s' ∧ inp.Positive) s :=
    ((((Reachable.start ⟨3, {0, 1, 2, 3}, by decide, hstart⟩).next
      (connecting_round (by decide) hfirst)).next (connecting_round (by decide) hsecond)).next
        (leaving_round hleave)).next (connecting_round (by decide) hthird)
  exact ⟨s, hused, hmax, haccepted, hsocket, tracked_of_reachable hreach⟩

end LinuxNet.SelectServer
