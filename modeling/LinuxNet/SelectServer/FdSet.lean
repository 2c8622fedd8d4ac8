-- SUMMARY: The select server passes no descriptor to FD_SET that an `fd_set` has no bit for, however many clients connect.
import LinuxNet.Base.Unused
import LinuxNet.SelectServer.Tracking

/-! # The bits of a descriptor set

Nothing in the server compares a descriptor with `FD_SETSIZE`. What keeps the
descriptors in `master_set` low is that accept returns the lowest unused one:
there are at least as many unused descriptors below a limit as free slots, so
that a client for which there is a slot has a descriptor below the limit. -/

namespace LinuxNet.SelectServer

variable {s s' : Server} {inp : RoundInput} {i fd : Nat}

/-- Accept returns the lowest unused descriptor, if any. -/
def RoundInput.Lowest (inp : RoundInput) : Prop :=
  ∀ openFds fd, inp.accept openFds = some fd → fd = lowestUnused openFds

theorem RoundInput.Lowest.fresh (h : inp.Lowest) : inp.Fresh := by
  intro openFds fd haccept
  rw [h openFds fd haccept]
  exact lowestUnused_notMem openFds

/-- A round in which accept returns the lowest unused descriptor. -/
def LowestRound (s : Server) (inp : RoundInput) (s' : Server) : Prop :=
  inp.Lowest ∧ round inp s = .ok s'

namespace Server

/-- There are at least as many unused descriptors below `limit` as free slots,
and the clients with slots are below it. -/
structure Reserved (limit : Nat) (s : Server) : Prop where
  watched : s.Watched
  placed : s.Placed
  zero : 0 ∈ s.openFds
  low : ∀ fd ∈ s.fdsClient.used, fd < limit
  room : s.fdsClient.room ≤ (unused limit s.openFds).card
  bound : s.globalMaxFd < limit
  calls : ∀ fd, .fdSet fd ∈ s.calls → fd < fdSetSize

namespace Reserved

variable {limit : Nat}

theorem lowest (h : s.Reserved limit) (hroom : 0 < s.fdsClient.room) :
    lowestUnused s.openFds ∈ unused limit s.openFds :=
  lowestUnused_mem_unused (hroom.trans_le h.room)

theorem record (h : s.Reserved limit) {call : Call} (hcall : ∀ fd, call ≠ .fdSet fd) :
    (s.record call).Reserved limit := by
  refine ⟨h.watched.calls _, h.placed, h.zero, h.low, h.room, h.bound, ?_⟩
  intro fd hmem
  rcases List.mem_append.1 hmem with hmem | hmem
  · exact h.calls fd hmem
  · exact absurd (List.mem_singleton.1 hmem).symm (hcall fd)

/-- Opening a descriptor for which there is no slot. -/
theorem opened (h : s.Reserved limit) (hroom : s.fdsClient.room = 0) (fd : Nat) :
    (s.opened fd).Reserved limit :=
  ⟨h.watched.opened fd, h.placed, Finset.mem_insert_of_mem h.zero, h.low,
    hroom.trans_le (Nat.zero_le _), h.bound, h.calls⟩

/-- A free slot is filled, and an unused descriptor is taken. -/
theorem watch (h : s.Reserved limit) (hlimit : limit ≤ fdSetSize) (hroom : 0 < s.fdsClient.room)
    (hfd : fd = lowestUnused s.openFds) : ((s.opened fd).watch fd).Reserved limit := by
  have hunused : fd ∈ unused limit s.openFds := hfd ▸ h.lowest hroom
  have hpos : 0 < fd := hfd ▸ lowestUnused_pos h.zero
  obtain ⟨hlt, hnew⟩ := mem_unused.1 hunused
  refine ⟨?_, ?_, Finset.mem_insert_of_mem h.zero, ?_, ?_, max_lt h.bound hlt, ?_⟩
  · exact (h.watched.opened fd).watch hroom (Finset.mem_insert_self _ _)
      fun hmem => hnew (h.watched.isOpen fd hmem)
  · exact Placed.watch (s := s.opened fd) h.placed hroom hpos
  · intro g hg
    rcases (Slots.mem_used_put hroom hpos.ne').1 hg with rfl | hg
    · exact hlt
    · exact h.low g hg
  · have hslots := Slots.room_put hroom hpos.ne'
    have hcard := card_unused_insert hunused
    have hbefore := h.room
    simp only [Server.watch, Server.opened, Server.record]
    omega
  · intro g hmem
    rcases List.mem_append.1 hmem with hmem | hmem
    · exact h.calls g hmem
    · cases List.mem_singleton.1 hmem
      exact hlt.trans_le hlimit

/-- A slot is freed, and its descriptor is unused again. -/
theorem dropClient (h : s.Reserved limit) (hi : i ≠ s.sockServer) (h0 : i ≠ 0) :
    (s.dropClient i).Reserved limit := by
  refine ⟨h.watched.dropClient hi, h.placed.dropClient h.watched.nodup i,
    Finset.mem_erase.2 ⟨h0.symm, h.zero⟩, ?_, ?_, h.bound, ?_⟩
  · intro g hg
    exact h.low g ((Slots.mem_used_take h.watched.nodup).1 hg).2
  · have hbefore := h.room
    by_cases hused : i ∈ s.fdsClient.used
    · have hslots := Slots.room_take hused
      have hopen := h.watched.isOpen i (h.watched.slots i hused).1
      have hcard := card_unused_erase (h.low i hused) hopen
      simp only [Server.dropClient, Server.record]
      omega
    · have hslots := Slots.room_take_of_notMem hused
      have hcard := card_unused_erase_le s.openFds i limit
      simp only [Server.dropClient, Server.record]
      omega
  · intro g hmem
    rcases List.mem_append.1 hmem with hmem | hmem
    · exact h.calls g hmem
    · cases List.mem_singleton.1 hmem

theorem serveClient (h : s.Reserved limit) (inp : RoundInput) (hi : i ≠ s.sockServer)
    (h0 : i ≠ 0) : (serveClient inp i s).Reserved limit := by
  obtain ⟨tail, htail, hserve⟩ := serveClient_eq inp i s
  have hcalls : ({ s with calls := s.calls ++ .recv i (s.socketOf i) :: tail } :
      Server).Reserved limit := by
    refine ⟨h.watched.calls _, h.placed, h.zero, h.low, h.room, h.bound, ?_⟩
    intro fd hmem
    rcases List.mem_append.1 hmem with hmem | hmem
    · exact h.calls fd hmem
    · rcases List.mem_cons.1 hmem with hmem | hmem
      · cases hmem
      · exact absurd rfl ((htail _ hmem).2 fd).1
  rw [hserve]
  cases inp.leaves i with
  | false => exact hcalls
  | true => exact hcalls.dropClient hi h0

/-- A visit does not fail, and keeps the unused descriptors in step with the free
slots. -/
theorem visit (h : s.Reserved limit) (hlimit : limit ≤ fdSetSize) (hlowest : inp.Lowest)
    (hi : i = s.sockServer ∨ i ≠ 0) : ∃ s', visit inp i s = .ok s' ∧ s'.Reserved limit := by
  have hfd : ∀ fd, inp.accept s.openFds = some fd → 0 < s.fdsClient.room → fd < fdSetSize := by
    intro fd haccept hroom
    rw [hlowest _ fd haccept]
    exact (mem_unused.1 (h.lowest hroom)).1.trans_le hlimit
  obtain ⟨s', hvisit⟩ := visit_total (i := i) hfd
  refine ⟨s', hvisit, ?_⟩
  cases visit_cases hvisit with
  | refused hi haccept => exact h.record fun fd => by simp
  | unplaced fd hi haccept hroom => exact (h.record fun fd => by simp).opened hroom fd
  | added fd hi haccept hroom _ =>
    exact (h.record fun fd => by simp).watch hlimit hroom (hlowest _ fd haccept)
  | served hne => exact h.serveClient inp hne (hi.resolve_left hne)

/-- A round does not fail. -/
theorem round (h : s.Reserved limit) (hlimit : limit ≤ fdSetSize) (hlowest : inp.Lowest) :
    ∃ s', round inp s = .ok s' ∧ s'.Reserved limit := by
  have hread : ∀ i ∈ s.readSet inp, i = s.sockServer ∨ i ≠ 0 := fun i hi =>
    (h.placed i (readSet_subset inp s hi)).imp_right fun hmem => Slots.ne_zero_of_mem_used hmem
  have hstart : ({ s with calls := [] } : Server).Reserved limit :=
    ⟨h.watched.calls [], h.placed, h.zero, h.low, h.room, h.bound, by simp⟩
  have hend := scan_total (I := fun _ t => t.Reserved limit ∧ t.sockServer = s.sockServer)
    (fun i t ht hi => by
      obtain ⟨t', hok, ht'⟩ := ht.1.visit hlimit hlowest (ht.2 ▸ hread i hi)
      exact ⟨t', hok, ht', (visit_cases hok).sockServer.trans ht.2⟩)
    (fun _ _ ht _ => ht) (fun _ t ht => ht.1.bound.trans_le hlimit) (Nat.zero_add fdSetSize)
    ⟨hstart, rfl⟩
  obtain ⟨s', j, hscan, hres, -⟩ := hend
  exact ⟨s', hscan, hres⟩

end Reserved

end Server

/-! ## Runs -/

/-- `MAX_CONNECTION` descriptors behind those that are open at the start. -/
theorem Start.reserved {sockServer limit : Nat} {openFds : Finset Nat} (h0 : 0 ∈ openFds)
    (hlisten : sockServer ∈ openFds) (hlow : ∀ fd ∈ openFds, fd < limit)
    (hlimit : limit + maxConnection ≤ fdSetSize) :
    ∃ s, startUp sockServer openFds = .ok s ∧ s.Reserved (limit + maxConnection) := by
  have hlt : sockServer < limit := hlow sockServer hlisten
  have hbit : sockServer < fdSetSize := by omega
  have hstart := (startUp_eq sockServer openFds).trans (if_pos hbit)
  obtain ⟨hwatched, hplaced⟩ := Start.watched ⟨sockServer, openFds, hlisten, hstart⟩
  refine ⟨_, hstart, hwatched, hplaced, h0, by simp, ?_, ?_, ?_⟩
  · exact (Slots.room_empty.le).trans (le_card_unused hlow maxConnection)
  · exact hlt.trans_le (Nat.le_add_right _ _)
  · intro fd hmem
    cases List.mem_singleton.1 hmem
    exact hbit

/-- When no descriptor from 512 on is open at the start, and accept returns the
lowest unused one, neither `run_server` before its loop nor any round of any run
fails by an access outside of an `fd_set`, and what FD_SET is called with is below
`FD_SETSIZE`. -/
theorem fdSet_below {sockServer : Nat} {openFds : Finset Nat} (hstd : {0, 1, 2} ⊆ openFds)
    (hlisten : sockServer ∈ openFds) (hlow : ∀ fd ∈ openFds, fd < 512) :
    ∃ s₀, startUp sockServer openFds = .ok s₀ ∧ (∀ fd, .fdSet fd ∈ s₀.calls → fd < fdSetSize) ∧
      ∀ rounds s, Run LowestRound s₀ rounds s → ∀ inp : RoundInput, inp.Lowest →
        ∃ s', round inp s = .ok s' ∧ ∀ fd, .fdSet fd ∈ s'.calls → fd < fdSetSize := by
  have h0 : 0 ∈ openFds := hstd (by simp)
  have hlimit : 512 + maxConnection ≤ fdSetSize := by decide
  obtain ⟨s₀, hstart, hres⟩ := Start.reserved h0 hlisten hlow hlimit
  refine ⟨s₀, hstart, hres.calls, fun rounds s hrun inp hlowest => ?_⟩
  have hres' : s.Reserved (512 + maxConnection) := by
    apply hrun.invariant (I := fun t => t.Reserved (512 + maxConnection)) _ hres
    intro t inp t' ht hround
    obtain ⟨t'', hok, ht''⟩ := ht.round hlimit hround.1
    rwa [Except.ok.inj (hround.2.symm.trans hok)]
  obtain ⟨s', hok, hs'⟩ := hres'.round hlimit hlowest
  exact ⟨s', hok, hs'.calls⟩

/-- A round in which one more client connects to the listening socket on 3. -/
def connectLowest : RoundInput :=
  ⟨some {3}, fun openFds => some (lowestUnused openFds), fun _ => .data [] (by decide),
    fun _ => .sent 1⟩

theorem connectLowest_lowest : connectLowest.Lowest := by
  intro openFds fd haccept
  exact (Option.some.inj haccept).symm

theorem connectLowest_openFds (h : s.Watched) (hlisten : s.sockServer = 3)
    (hround : round connectLowest s = .ok s') :
    s'.sockServer = 3 ∧ s'.openFds = insert (lowestUnused s.openFds) s.openFds := by
  have hset : s.readSet connectLowest = {s.sockServer} := by
    ext fd
    have hmem := h.listener
    have hbound := h.bound _ h.listener
    rw [hlisten] at hmem hbound ⊢
    simp only [Server.readSet, connectLowest, Finset.mem_filter, Finset.mem_singleton]
    constructor
    · exact fun hfd => hfd.2.2
    · rintro rfl
      exact ⟨hmem, hbound, rfl⟩
  rw [round, hset] at hround
  have hvisited := scan_listener (s := { s with calls := [] }) (h.bound _ h.listener) hround
  refine ⟨hvisited.sockServer.trans hlisten, ?_⟩
  cases hvisited with
  | refused hi haccept => cases haccept
  | unplaced fd hi haccept hroom =>
    cases haccept
    rfl
  | added fd hi haccept hroom hfd =>
    cases haccept
    rfl
  | served hi => exact absurd rfl hi

/-- Any number of clients connect. Accept returns ever larger descriptors, and
no round fails. -/
theorem fdSet_below_connecting : ∃ s₀, startUp 3 {0, 1, 2, 3} = .ok s₀ ∧
    ∀ n, ∃ s, Run LowestRound s₀ (List.replicate n connectLowest) s ∧
      connectLowest.accept s.openFds = some (4 + n) := by
  obtain ⟨s₀, hstart, -, hruns⟩ := @fdSet_below 3 {0, 1, 2, 3} (by decide) (by decide) (by decide)
  refine ⟨s₀, hstart, fun n => ?_⟩
  have hconnected : ∃ s, Run LowestRound s₀ (List.replicate n connectLowest) s ∧
      s.sockServer = 3 ∧ s.openFds = Finset.range (4 + n) := by
    induction n with
    | zero =>
      rw [startUp_eq, if_pos (by decide)] at hstart
      cases hstart
      exact ⟨_, .nil, rfl, by decide⟩
    | succ n ih =>
      obtain ⟨s, hrun, hlisten, hopen⟩ := ih
      obtain ⟨s', hok, -⟩ := hruns _ s hrun connectLowest connectLowest_lowest
      have hwatched : s.Watched := by
        apply hrun.invariant (I := Server.Watched) _ (Start.watched ⟨3, _, by decide, hstart⟩).1
        exact fun t inp t' ht hround => ht.round ⟨hround.1.fresh, hround.2⟩
      obtain ⟨hlisten', hopen'⟩ := connectLowest_openFds hwatched hlisten hok
      rw [List.replicate_succ']
      refine ⟨s', .snoc hrun ⟨connectLowest_lowest, hok⟩, hlisten', ?_⟩
      rw [hopen', hopen, lowestUnused_range, ← Nat.add_assoc, Finset.range_add_one]
  obtain ⟨s, hrun, -, hopen⟩ := hconnected
  exact ⟨s, hrun, by rw [hopen]; exact congrArg some (lowestUnused_range _)⟩

end LinuxNet.SelectServer
