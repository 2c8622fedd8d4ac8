-- SUMMARY: A round of the select server after a failed select reads from every client, and is without effect only if there is none.
import LinuxNet.SelectServer.Readiness

/-! # A failed select

When select fails, the server reports it and goes on with `read_set` as it was
passed to select, which is all of `master_set`. -/

namespace LinuxNet.SelectServer

variable {s s' s₀ : Server} {inp : RoundInput} {n fd : Nat}

/-- If select fails, the round receives from no client and leaves the tracked
clients as they are. -/
def Undisturbed (inp : RoundInput) (s s' : Server) : Prop :=
  inp.select = none → (∀ fd socket, .recv fd socket ∉ s'.calls) ∧ s'.master = s.master ∧
    s'.fdsClient = s.fdsClient ∧ s'.globalMaxFd = s.globalMaxFd

/-- If select fails, there is no client, and accept fails too. -/
def RoundInput.Deserted (inp : RoundInput) (s : Server) : Prop :=
  inp.select = none → s.master = {s.sockServer} ∧ inp.accept s.openFds = none

/-- After a failed select, a round without a recv is one with no clients. -/
theorem Server.Watched.deserted (h : s.Watched) (hround : Round s inp s')
    (hselect : inp.select = none) (hrecv : ∀ fd socket, .recv fd socket ∉ s'.calls) :
    s.master = {s.sockServer} := by
  have hall : s.readSet inp = s.master := by rw [Server.readSet, hselect]
  obtain ⟨j, hscanned, hreads⟩ :=
    scan_spec (h.calls []) hround.1 (readSet_subset inp s) rfl hround.2
  rw [hall] at hreads
  apply Finset.eq_singleton_iff_unique_mem.2
  refine ⟨h.listener, fun fd hfd => ?_⟩
  have hread : (fd, s.socketOf fd) ∈ reads s'.calls := by
    rw [hreads]
    exact List.mem_map.2 ⟨fd, (Finset.mem_sort _).2 hfd, rfl⟩
  obtain ⟨call, hmem, hcall⟩ := List.mem_filterMap.1 hread
  cases call with
  | accept g socket result =>
    cases hcall
    exact hscanned.accepts _ _ _ hmem
  | recv g socket => exact absurd hmem (hrecv g socket)
  | fdSet g => cases hcall
  | terminate index => cases hcall
  | send g socket => cases hcall
  | close g => cases hcall

/-- A round after a failed select has no effect exactly if there is no client
and accept fails. -/
theorem Server.Watched.noneDropped_iff (h : s.Watched) (hround : Round s inp s') :
    Undisturbed inp s s' ↔ inp.Deserted s := by
  have hvisited : inp.select = none → s.master = {s.sockServer} →
      Visited inp s.sockServer { s with calls := [] } s' := fun hselect hmaster => by
    have hset : s.readSet inp = {s.sockServer} := by rw [Server.readSet, hselect, hmaster]
    have hscan := hround.2
    rw [SelectServer.round, hset] at hscan
    exact scan_listener (s := { s with calls := [] }) (h.bound _ h.listener) hscan
  constructor
  · intro hlaw hselect
    obtain ⟨hrecv, hmaster, hslots, hmax⟩ := hlaw hselect
    have honly := h.deserted hround hselect hrecv
    refine ⟨honly, ?_⟩
    cases hvisited hselect honly with
    | refused hi haccept => exact haccept
    | unplaced fd hi haccept hroom =>
      -- all slots are free
      have hused : s.fdsClient.used = [] := List.eq_nil_iff_forall_not_mem.2 fun g hg => by
        obtain ⟨hmem, hne⟩ := h.slots g hg
        rw [honly] at hmem
        exact hne (Finset.mem_singleton.1 hmem)
      have hcount := s.fdsClient.room_add_length_used
      rw [hused, show s.fdsClient.room = 0 from hroom] at hcount
      simp [maxConnection] at hcount
    | added fd hi haccept hroom hfd =>
      have hmem : fd ∈ s.master := hmaster ▸ Finset.mem_insert_self fd s.master
      exact absurd (h.isOpen fd hmem) (hround.1 _ fd haccept)
    | served hi => exact absurd rfl hi
  · intro hcond hselect
    obtain ⟨honly, hnone⟩ := hcond hselect
    cases hvisited hselect honly with
    | refused hi haccept => exact ⟨by simp [Server.record], rfl, rfl, rfl⟩
    | unplaced fd hi haccept hroom => cases hnone.symm.trans haccept
    | added fd hi haccept hroom hfd => cases hnone.symm.trans haccept
    | served hi => exact absurd rfl hi

/-- In a run from a reachable state the failed selects are without effect, all
of them, exactly if each finds no client, with an accept that fails. -/
theorem undisturbed_iff {rounds : List RoundInput} (h : Reachable Start Round s₀) :
    Run (fun s inp s' => Round s inp s' ∧ Undisturbed inp s s') s₀ rounds s ↔
      Run (fun s inp s' => Round s inp s' ∧ inp.Deserted s) s₀ rounds s :=
  Run.iff_of_invariant (fun _ _ _ ht hround => ht.noneDropped_iff hround)
    (fun _ _ _ ht hround _ => ht.round hround) (watched_of_reachable h)

/-- Select fails before any client has connected. -/
theorem undisturbed_iff_one : ∃ (s₀ s : Server) (inp : RoundInput), inp.select = none ∧
    Run (fun s inp s' => Round s inp s' ∧ Undisturbed inp s s') s₀ [inp] s := by
  let interrupted : RoundInput :=
    ⟨none, fun _ => none, fun _ => .data [] (by decide), fun _ => .sent 1⟩
  have hrun : (startUp 3 {3} >>= fun s₀ => round interrupted s₀ >>= fun s =>
      .ok (decide (s₀.master = {s₀.sockServer}))) = .ok true := by
    decide +kernel
  obtain ⟨s₀, hstart, hrest⟩ := Except.bind_eq_ok.1 hrun
  obtain ⟨s, hround, hfacts⟩ := Except.bind_eq_ok.1 hrest
  have hmaster : s₀.master = {s₀.sockServer} := of_decide_eq_true (Except.ok.inj hfacts)
  have hreach : Reachable Start Round s₀ := .start ⟨3, {3}, by decide, hstart⟩
  have hfresh : interrupted.Fresh := fun _ _ haccept => by cases haccept
  exact ⟨s₀, s, interrupted, rfl, (undisturbed_iff hreach).2
    (.single ⟨⟨hfresh, hround⟩, fun _ => ⟨hmaster, rfl⟩⟩)⟩

/-- The law fails: a client that has sent nothing is received from, and dropped
when that recv is interrupted too. -/
theorem not_undisturbed : ¬ ∀ s inp s', Reachable Start Round s → Round s inp s' →
    Undisturbed inp s s' := by
  let connect : RoundInput :=
    ⟨some {3}, acceptOnly 4, fun _ => .data [] (by decide), fun _ => .sent 1⟩
  let interrupted : RoundInput :=
    ⟨none, fun _ => none, fun _ => .fail ⟨4, by decide⟩, fun _ => .sent 1⟩
  have hrun : (startUp 3 {3} >>= fun s₀ => round connect s₀ >>= fun s =>
      round interrupted s >>= fun s' => .ok (decide (.recv 4 1 ∈ s'.calls ∧
        s'.master ≠ s.master))) = .ok true := by
    decide +kernel
  obtain ⟨s₀, hstart, hrest⟩ := Except.bind_eq_ok.1 hrun
  obtain ⟨s, hfirst, hrest⟩ := Except.bind_eq_ok.1 hrest
  obtain ⟨s', hsecond, hfacts⟩ := Except.bind_eq_ok.1 hrest
  obtain ⟨hrecv, -⟩ := of_decide_eq_true (Except.ok.inj hfacts)
  have hreach : Reachable Start Round s :=
    (Reachable.start ⟨3, {3}, by decide, hstart⟩).next ⟨fresh_of_acceptOnly rfl, hfirst⟩
  have hfresh : interrupted.Fresh := fun _ _ haccept => by cases haccept
  exact fun hall => (hall s interrupted s' hreach ⟨hfresh, hsecond⟩ rfl).1 4 1 hrecv

end LinuxNet.SelectServer
