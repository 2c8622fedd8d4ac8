-- SUMMARY: Each descriptor that select reports is read once in the round, on the socket it had then.
import LinuxNet.SelectServer.Tracking
import Mathlib.Data.Finset.Sort

/-! # Readiness in the select server

`read_set` is indexed by descriptor number, while descriptors are closed and
given to new sockets during the scan. A descriptor that the scan has yet to
come to is open, so that accept does not return it. -/

namespace LinuxNet.SelectServer

variable {s s' s₀ : Server} {inp : RoundInput} {readSet : Finset Nat} {i n fd : Nat}

/-- The descriptors and the sockets that are read from, in order. -/
def reads (calls : List Call) : List (Nat × Nat) := calls.filterMap Call.read

/-! ## The calls of a visit -/

/-- A visit reads once from its descriptor: with accept from the listening
socket, with recv from a client. -/
theorem Visited.calls (h : Visited inp i s s') :
    ∃ call tail, s'.calls = s.calls ++ call :: tail ∧ (∀ c ∈ tail, c.read = none) ∧
      ((i = s.sockServer ∧ ∃ result, call = .accept i (s.socketOf i) result) ∨
        (i ≠ s.sockServer ∧ call = .recv i (s.socketOf i))) := by
  cases h with
  | refused hi haccept => exact ⟨_, [], rfl, by simp, .inl ⟨hi, _, rfl⟩⟩
  | unplaced fd hi haccept hroom => exact ⟨_, [], rfl, by simp, .inl ⟨hi, _, rfl⟩⟩
  | added fd hi haccept hroom hfd =>
    refine ⟨.accept i (s.socketOf i) (some fd), [.fdSet fd], ?_, by simp [Call.read],
      .inl ⟨hi, _, rfl⟩⟩
    simp [Server.watch, Server.opened, Server.record]
  | served hi =>
    obtain ⟨tail, htail, hserve⟩ := serveClient_eq inp i s
    rw [hserve]
    cases inp.leaves i with
    | false => exact ⟨_, tail, rfl, fun c hc => (htail c hc).1, .inr ⟨hi, rfl⟩⟩
    | true =>
      refine ⟨.recv i (s.socketOf i), tail ++ [.close i], ?_, ?_, .inr ⟨hi, rfl⟩⟩
      · simp [Server.dropClient, Server.record]
      · intro c hc
        rcases List.mem_append.1 hc with hc | hc
        · exact (htail c hc).1
        · rw [List.mem_singleton.1 hc]
          rfl

/-- A visit leaves every other open descriptor open, with the socket it has. -/
theorem Visited.other (h : Visited inp i s s')
    (hfresh : ∀ fd, inp.accept s.openFds = some fd → fd ∉ s.openFds) (hopen : fd ∈ s.openFds)
    (hne : fd ≠ i) : fd ∈ s'.openFds ∧ s'.socketOf fd = s.socketOf fd := by
  have hnew : ∀ g, inp.accept s.openFds = some g → fd ≠ g := fun g haccept he =>
    hfresh g haccept (he ▸ hopen)
  cases h with
  | refused hi haccept => exact ⟨hopen, rfl⟩
  | unplaced g hi haccept hroom =>
    exact ⟨Finset.mem_insert_of_mem hopen, Function.update_of_ne (hnew g haccept) _ _⟩
  | added g hi haccept hroom hg =>
    exact ⟨Finset.mem_insert_of_mem hopen, Function.update_of_ne (hnew g haccept) _ _⟩
  | served hi =>
    obtain ⟨tail, -, hserve⟩ := serveClient_eq inp i s
    rw [hserve]
    cases inp.leaves i with
    | false => exact ⟨hopen, rfl⟩
    | true => exact ⟨Finset.mem_erase.2 ⟨hne, hopen⟩, rfl⟩

theorem Visited.globalMaxFd (h : Visited inp i s s') : s.globalMaxFd ≤ s'.globalMaxFd := by
  cases h with
  | refused hi haccept => exact le_rfl
  | unplaced fd hi haccept hroom => exact le_rfl
  | added fd hi haccept hroom hfd => exact le_max_left _ _
  | served hi =>
    obtain ⟨tail, -, hserve⟩ := serveClient_eq inp i s
    rw [hserve]
    cases inp.leaves i <;> exact le_rfl

/-! ## The scan -/

/-- What holds in a scan from `s₀` that has come to the descriptor `i`. The
descriptors before `i` have been read, and those from `i` on are open, with the
sockets they had at first. -/
structure Scanned (readSet : Finset Nat) (s₀ : Server) (i : Nat) (s : Server) : Prop where
  watched : s.Watched
  sockServer : s.sockServer = s₀.sockServer
  globalMaxFd : s₀.globalMaxFd ≤ s.globalMaxFd
  reads : reads s.calls =
    ((List.range i).filter (· ∈ readSet)).map fun fd => (fd, s₀.socketOf fd)
  ahead : ∀ fd ∈ readSet, i ≤ fd → fd ∈ s.openFds ∧ s.socketOf fd = s₀.socketOf fd
  accepts : ∀ fd socket result, .accept fd socket result ∈ s.calls → fd = s₀.sockServer
  recvs : ∀ fd socket, .recv fd socket ∈ s.calls → fd ≠ s₀.sockServer

theorem Scanned.skip (h : Scanned readSet s₀ i s) (hi : i ∉ readSet) :
    Scanned readSet s₀ (i + 1) s := by
  refine ⟨h.watched, h.sockServer, h.globalMaxFd, ?_, ?_, h.accepts, h.recvs⟩
  · rw [h.reads, List.range_succ, List.filter_append]
    simp [hi]
  · exact fun fd hfd hle => h.ahead fd hfd (by omega)

theorem Scanned.visit (h : Scanned readSet s₀ i s) (hfresh : inp.Fresh) (hi : i ∈ readSet)
    (hvisit : Visited inp i s s') : Scanned readSet s₀ (i + 1) s' := by
  obtain ⟨call, tail, hcalls, htail, hcall⟩ := hvisit.calls
  have hread : call.read = some (i, s₀.socketOf i) := by
    rw [← (h.ahead i hi le_rfl).2]
    rcases hcall with ⟨-, result, rfl⟩ | ⟨-, rfl⟩ <;> rfl
  refine ⟨h.watched.visited (hfresh _) hvisit, hvisit.sockServer.trans h.sockServer,
    h.globalMaxFd.trans hvisit.globalMaxFd, ?_, ?_, ?_, ?_⟩
  · have hnone : tail.filterMap Call.read = [] := List.filterMap_eq_nil_iff.2 htail
    rw [hcalls, SelectServer.reads, List.filterMap_append, List.filterMap_cons_some hread, hnone,
      List.range_succ, List.filter_append, List.map_append, ← h.reads]
    simp [hi, SelectServer.reads]
  · intro fd hfd hle
    obtain ⟨hopen, hsocket⟩ := h.ahead fd hfd (by omega)
    obtain ⟨hopen', hsocket'⟩ := hvisit.other (hfresh _) hopen (by omega)
    exact ⟨hopen', hsocket'.trans hsocket⟩
  · intro fd socket result hmem
    rw [hcalls] at hmem
    rcases List.mem_append.1 hmem with hmem | hmem
    · exact h.accepts fd socket result hmem
    · rcases List.mem_cons.1 hmem with rfl | hmem
      · rcases hcall with ⟨he, result', hc⟩ | ⟨-, hc⟩
        · cases hc
          exact he.trans h.sockServer
        · cases hc
      · cases htail _ hmem
  · intro fd socket hmem
    rw [hcalls] at hmem
    rcases List.mem_append.1 hmem with hmem | hmem
    · exact h.recvs fd socket hmem
    · rcases List.mem_cons.1 hmem with rfl | hmem
      · rcases hcall with ⟨-, result', hc⟩ | ⟨hne, hc⟩
        · cases hc
        · cases hc
          rwa [← h.sockServer]
      · cases htail _ hmem

theorem filter_range_eq_sort {S : Finset Nat} {n : Nat} (h : ∀ x ∈ S, x < n) :
    (List.range n).filter (· ∈ S) = S.sort := by
  have hnodup : ((List.range n).filter (· ∈ S)).Nodup := List.nodup_range.filter _
  have hset : ((List.range n).filter (· ∈ S)).toFinset = S := by
    ext x
    simp only [List.mem_toFinset, List.mem_filter, List.mem_range, decide_eq_true_eq]
    exact ⟨fun hx => hx.2, fun hx => ⟨h x hx, hx⟩⟩
  have hsorted : ((List.range n).filter (· ∈ S)).Pairwise (· ≤ ·) :=
    List.pairwise_le_range.filter _
  have hsort := (List.toFinset_sort (· ≤ ·) hnodup).2 hsorted
  rw [hset] at hsort
  exact hsort.symm

/-- The end of a scan of a set of watched descriptors. -/
theorem scan_spec (h : s₀.Watched) (hfresh : inp.Fresh) (hsub : readSet ⊆ s₀.master)
    (hcalls : s₀.calls = []) (hscan : scan inp readSet n 0 s₀ = .ok s) :
    ∃ j, Scanned readSet s₀ j s ∧ reads s.calls = readSet.sort.map fun fd =>
      (fd, s₀.socketOf fd) := by
  have hstart : Scanned readSet s₀ 0 s₀ :=
    ⟨h, rfl, le_rfl, by simp [hcalls, reads], fun fd hfd _ => ⟨h.isOpen fd (hsub hfd), rfl⟩,
      by simp [hcalls], by simp [hcalls]⟩
  obtain ⟨j, hj, hscanned⟩ := scan_invariant
    (fun i t t' ht hi hvisit => ht.visit hfresh hi (visit_cases hvisit))
    (fun i t ht hi => ht.skip hi) hscan hstart
  refine ⟨j, hscanned, ?_⟩
  have hlt : ∀ fd ∈ readSet, fd < j := fun fd hfd => by
    have hmax := h.bound fd (hsub hfd)
    have hgrow := hscanned.globalMaxFd
    omega
  rw [hscanned.reads, filter_range_eq_sort hlt]

/-! ## Rounds -/

/-- In a round in which select succeeds the server reads once from each
descriptor that is reported, in order, and from no other: with accept from the
listening socket, and with recv from a client. What it reads from is the socket
that the descriptor had when select reported it, and never one that accept
has returned in this round. -/
theorem reads_reported (h : Reachable Start Round s) (hround : Round s inp s')
    {reported : Finset Nat} (hselect : inp.select = some reported) :
    (reads s'.calls = (s.master.filter (· ∈ reported)).sort.map fun fd => (fd, s.socketOf fd)) ∧
      (∀ fd socket result, .accept fd socket result ∈ s'.calls → fd = s.sockServer) ∧
      ∀ fd socket, .recv fd socket ∈ s'.calls → fd ≠ s.sockServer ∧ socket ≤ s.accepted := by
  have hwatched := watched_of_reachable h
  have hset : s.readSet inp = s.master.filter (· ∈ reported) := by
    rw [Server.readSet, hselect]
    exact Finset.filter_congr fun fd hfd => and_iff_right (hwatched.bound fd hfd)
  obtain ⟨j, hscanned, hreads⟩ := scan_spec (hwatched.calls []) hround.1 (readSet_subset inp s)
    rfl hround.2
  refine ⟨hset ▸ hreads, hscanned.accepts, fun fd socket hmem => ?_⟩
  refine ⟨hscanned.recvs fd socket hmem, ?_⟩
  have hread : (fd, socket) ∈ reads s'.calls := List.mem_filterMap.2 ⟨_, hmem, rfl⟩
  rw [hreads] at hread
  obtain ⟨g, -, hg⟩ := List.mem_map.1 hread
  cases hg
  exact hwatched.named fd

/-- A client on 3 leaves before the scan comes to the listening socket on 5, and
accept returns 3 for the next client, which is not read from. -/
theorem reads_reported_reused : ∃ (s : Server) (inp : RoundInput) (s' : Server),
    inp.select = some {3, 5} ∧ s.socketOf 3 = 1 ∧ s'.socketOf 3 = 2 ∧ 3 ∈ s'.openFds ∧
      reads s'.calls = [(3, 1), (5, 0)] ∧
      ∀ fd socket, .recv fd socket ∈ s'.calls → fd ≠ s.sockServer ∧ socket ≤ s.accepted := by
  let connect : RoundInput :=
    ⟨some {5}, acceptOnly 3, fun _ => .data [] (by decide), fun _ => .sent 1⟩
  let replace : RoundInput :=
    ⟨some {3, 5}, acceptOnly 3, fun _ => .data [] (by decide), fun _ => .sent 1⟩
  have hrun : (startUp 5 {0, 1, 2, 5} >>= fun s₀ => round connect s₀ >>= fun s =>
      round replace s >>= fun s' => .ok (decide (s.socketOf 3 = 1 ∧ s'.socketOf 3 = 2 ∧
        3 ∈ s'.openFds ∧ reads s'.calls = [(3, 1), (5, 0)]))) = .ok true := by
    decide +kernel
  obtain ⟨s₀, hstart, hrest⟩ := Except.bind_eq_ok.1 hrun
  obtain ⟨s, hfirst, hrest⟩ := Except.bind_eq_ok.1 hrest
  obtain ⟨s', hsecond, hfacts⟩ := Except.bind_eq_ok.1 hrest
  obtain ⟨hold, hnew, hopen, hreads⟩ := of_decide_eq_true (Except.ok.inj hfacts)
  have hreach : Reachable Start Round s :=
    (Reachable.start ⟨5, {0, 1, 2, 5}, by decide, hstart⟩).next ⟨fresh_of_acceptOnly rfl, hfirst⟩
  have hround : Round s replace s' := ⟨fresh_of_acceptOnly rfl, hsecond⟩
  exact ⟨s, replace, s', rfl, hold, hnew, hopen, hreads, (reads_reported hreach hround rfl).2.2⟩

end LinuxNet.SelectServer
