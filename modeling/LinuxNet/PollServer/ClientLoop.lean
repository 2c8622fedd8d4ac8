-- SUMMARY: The loop over the clients is a scan of the table that moves the last client to the slot of a dropped one.
import LinuxNet.Base.Held
import LinuxNet.Base.SwapScan
import LinuxNet.PollServer.Server

/-! # The client loop as a scan -/

namespace LinuxNet.PollServer

variable {s s' : Server} {inp : RoundInput}

/-- The descriptors received on, in order. -/
def recvs (calls : List Call) : List Int :=
  calls.filterMap fun
    | .recv fd => some fd
    | _ => none

/-- The descriptors that accept has returned and those closed, in order. -/
def handovers (calls : List Call) : List (Handover Int) :=
  calls.filterMap fun
    | .accept fd => some (.given fd)
    | .close fd => some (.closed fd)
    | _ => none

/-- Whether the exchange with the client `fd` ends its connection: recv or send
fails or returns 0, or the client asks to quit. -/
def RoundInput.leaves (inp : RoundInput) (fd : Int) : Bool :=
  match inp.recv fd with
  | .fail _ => true
  | .data bytes _ =>
    bytes = [] || SendResult.failed (inp.send fd) || isQuit (filled messageSize bytes)

namespace Server

/-- The descriptors in the slots `i`, ..., `i + n - 1`, and whether the slots
have POLLIN. -/
def slots (s : Server) (i n : Nat) : List (Int × Bool) :=
  (List.range' i n).map fun j => ((s.fds j).fd, (s.fds j).revents.has pollIn)

/-- The clients in the table. -/
def clients (s : Server) : List Int :=
  (List.range' 1 (s.nfds - 1)).map fun j => (s.fds j).fd

end Server

/-! ## The client loop is a scan -/

/-- Serving a client calls recv once on a slot with POLLIN, and drops the
client if the exchange ends its connection. -/
theorem serveClient_ready (inp : RoundInput) {i : Nat}
    (hready : (s.fds i).revents.has pollIn = true) :
    ∃ calls, recvs calls = recvs s.calls ++ [(s.fds i).fd] ∧
      handovers calls = handovers s.calls ∧ serveClient inp i s =
        if inp.leaves (s.fds i).fd then (({ s with calls := calls } : Server).dropClient i, true)
        else ({ s with calls := calls }, false) := by
  unfold serveClient RoundInput.leaves
  simp only [hready, if_true]
  cases inp.recv (s.fds i).fd with
  | fail e => exact ⟨_, by simp [recvs], by simp [handovers], rfl⟩
  | data bytes hb =>
    dsimp only
    by_cases hnil : bytes = []
    · exact ⟨s.calls ++ [.recv (s.fds i).fd], by simp [recvs], by simp [handovers],
        by simp [hnil, Server.record]⟩
    · refine ⟨s.calls ++ [.recv (s.fds i).fd] ++ [.terminate bytes.length] ++
        [.send (s.fds i).fd], by simp [recvs], by simp [handovers], ?_⟩
      simp [hnil, Server.record]

theorem serveClient_idle {i : Nat} (hidle : (s.fds i).revents.has pollIn = false) :
    serveClient inp i s = (s, false) := by
  simp [serveClient, hidle]

namespace Server

theorem slots_zero (s : Server) (i : Nat) : s.slots i 0 = [] := rfl

theorem slots_succ (s : Server) (i n : Nat) :
    s.slots i (n + 1) = ((s.fds i).fd, (s.fds i).revents.has pollIn) :: s.slots (i + 1) n := rfl

theorem slots_concat (s : Server) (i n : Nat) : s.slots i (n + 1) =
    s.slots i n ++ [((s.fds (i + n)).fd, (s.fds (i + n)).revents.has pollIn)] := by
  rw [slots, List.range'_1_concat, List.map_append]
  rfl

theorem slots_congr {i n : Nat} (h : ∀ j, i ≤ j → j < i + n → s.fds j = s'.fds j) :
    s.slots i n = s'.slots i n := by
  apply List.map_congr_left
  intro j hj
  rw [List.mem_range'_1] at hj
  rw [h j hj.1 hj.2]

/-- Dropping the client in slot `i` puts the last one there, and its slot keeps
its flag. -/
theorem dropClient_slots {i n : Nat} (hn : i + (n + 1) + 1 = s.nfds) :
    (s.dropClient i).slots i (n + 1) =
      ((s.fds (i + (n + 1))).fd, (s.fds i).revents.has pollIn) :: s.slots (i + 1) n := by
  have hlast : s.nfds - 1 = i + (n + 1) := by omega
  have hrest : (s.dropClient i).slots (i + 1) n = s.slots (i + 1) n :=
    slots_congr fun j hj _ => Function.update_of_ne (by omega) _ _
  rw [slots_succ, hrest]
  simp [dropClient, record, hlast]

end Server

/-- What the loop from slot `i` on does to the table and to the descriptors. -/
structure Scanned (inp : RoundInput) (i n : Nat) (s s' : Server) : Prop where
  recvs : recvs s'.calls = recvs s.calls ++ (swapScan inp.leaves (s.slots i n)).1
  nfds : s'.nfds = i + (swapScan inp.leaves (s.slots i n)).2.length
  kept : (s'.slots i (s'.nfds - i)).map Prod.fst = (swapScan inp.leaves (s.slots i n)).2
  before : ∀ j < i, s'.fds j = s.fds j
  isOpen : ((s.slots i n).map Prod.fst).Nodup → ∀ fd ∈ s.openFds,
    (fd ∈ (s.slots i n).map Prod.fst → fd ∈ (swapScan inp.leaves (s.slots i n)).2) →
    fd ∈ s'.openFds

namespace Scanned

/-- The client in slot `i` stays, and the loop goes on behind it. -/
theorem stay {i n : Nat} {t : Server} {served : List Int} (h : Scanned inp (i + 1) n t s')
    (hfds : t.fds = s.fds) (hopen : t.openFds = s.openFds)
    (hrecvs : PollServer.recvs t.calls = PollServer.recvs s.calls ++ served)
    (hscan : swapScan inp.leaves (s.slots i (n + 1)) =
      (served ++ (swapScan inp.leaves (s.slots (i + 1) n)).1,
        (s.fds i).fd :: (swapScan inp.leaves (s.slots (i + 1) n)).2)) :
    Scanned inp i (n + 1) s s' := by
  have hslots : t.slots (i + 1) n = s.slots (i + 1) n := by simp only [Server.slots, hfds]
  obtain ⟨hrec, hnfds, hkept, hbefore, hisOpen⟩ := h
  rw [hslots] at hrec hnfds hkept hisOpen
  refine ⟨?_, ?_, ?_, ?_, ?_⟩
  · rw [hrec, hrecvs, hscan, List.append_assoc]
  · rw [hnfds, hscan, List.length_cons]
    omega
  · have hlen : s'.nfds - i = (s'.nfds - (i + 1)) + 1 := by omega
    rw [hlen, Server.slots_succ, List.map_cons, hkept, hbefore i (Nat.lt_succ_self i), hfds, hscan]
  · intro j hj
    rw [hbefore j (Nat.lt_succ_of_lt hj), hfds]
  · intro hnodup fd hfd himp
    rw [Server.slots_succ, List.map_cons, List.nodup_cons] at hnodup
    rw [Server.slots_succ, List.map_cons, ← Server.slots_succ, hscan] at himp
    apply hisOpen hnodup.2 fd (by rwa [hopen])
    intro hmem
    rcases List.mem_cons.1 (himp (List.mem_cons_of_mem _ hmem)) with rfl | hrest
    · exact absurd hmem hnodup.1
    · exact hrest

/-- The client in slot `i` is dropped, and the loop goes on with the one moved there. -/
theorem drop {i n : Nat} {t : Server} {calls : List Call} (h : Scanned inp i n t s')
    (ht : t = ({ s with calls := calls } : Server).dropClient i)
    (hrecvs : PollServer.recvs calls = PollServer.recvs s.calls ++ [(s.fds i).fd])
    (hslots : ∀ x, x ∈ (t.slots i n).map Prod.fst ↔ x ∈ (s.slots (i + 1) n).map Prod.fst)
    (hnodup : ((s.slots (i + 1) n).map Prod.fst).Nodup → ((t.slots i n).map Prod.fst).Nodup)
    (hscan : swapScan inp.leaves (s.slots i (n + 1)) =
      ((s.fds i).fd :: (swapScan inp.leaves (t.slots i n)).1,
        (swapScan inp.leaves (t.slots i n)).2)) :
    Scanned inp i (n + 1) s s' := by
  obtain ⟨hrec, hnfds, hkept, hbefore, hisOpen⟩ := h
  refine ⟨?_, ?_, ?_, ?_, ?_⟩
  · have hclose : PollServer.recvs t.calls = PollServer.recvs calls := by
      rw [ht]
      simp [Server.dropClient, Server.record, PollServer.recvs]
    rw [hrec, hclose, hrecvs, hscan, List.append_assoc]
    rfl
  · rw [hnfds, hscan]
  · rw [hkept, hscan]
  · intro j hj
    rw [hbefore j hj, ht]
    exact Function.update_of_ne (by omega) _ _
  · intro hnd fd hfd himp
    rw [Server.slots_succ, List.map_cons, List.nodup_cons] at hnd
    rw [hscan, Server.slots_succ, List.map_cons] at himp
    have hkeep : ∀ x, x ∈ (swapScan inp.leaves (t.slots i n)).2 →
        x ∈ (s.slots (i + 1) n).map Prod.fst := fun x hx =>
      (hslots x).1 ((swapScan_kept_subperm _ _).subset hx)
    -- what is closed is not kept
    have hne : fd ≠ (s.fds i).fd := fun he =>
      hnd.1 (he ▸ hkeep fd (himp (by rw [he]; exact List.mem_cons_self)))
    refine hisOpen (hnodup hnd.2) fd ?_ fun hmem =>
      himp (List.mem_cons_of_mem _ ((hslots fd).1 hmem))
    rw [ht]
    exact Finset.mem_erase.2 ⟨hne, hfd⟩

end Scanned

/-- The client loop is the scan of the slots from `i` to the end of the table. -/
theorem clientLoop_spec (inp : RoundInput) {i n : Nat} (hi : 1 ≤ i) (hn : i + n = s.nfds) :
    Scanned inp i n s (clientLoop inp n i s) := by
  induction n generalizing i s with
  | zero =>
    refine ⟨by simp [clientLoop, Server.slots_zero], ?_, ?_, fun _ _ => rfl, fun _ _ h _ => h⟩
    · simp [clientLoop, Server.slots_zero, ← hn]
    · simp [clientLoop, Server.slots_zero, ← hn]
  | succ n ih =>
    have hguard : 1 ≤ i ∧ i < s.nfds := ⟨hi, by omega⟩
    cases hready : (s.fds i).revents.has pollIn with
    | false =>
      have hstep : clientLoop inp (n + 1) i s = clientLoop inp n (i + 1) s := by
        simp [clientLoop, hguard, serveClient_idle hready]
      rw [hstep]
      apply (ih (by omega) (by omega)).stay rfl rfl (List.append_nil _).symm
      rw [Server.slots_succ, hready, swapScan_skip]
      rfl
    | true =>
      obtain ⟨calls, hcalls, -, hserve⟩ := serveClient_ready inp hready
      cases hleave : inp.leaves (s.fds i).fd with
      | false =>
        rw [hleave, if_neg Bool.false_ne_true] at hserve
        have hstep : clientLoop inp (n + 1) i s =
            clientLoop inp n (i + 1) { s with calls := calls } := by
          simp [clientLoop, hguard, hserve]
        rw [hstep]
        refine (ih (by omega) (by simp only; omega)).stay rfl rfl hcalls ?_
        rw [Server.slots_succ, hready, swapScan_keep hleave]
        rfl
      | true =>
        rw [hleave, if_pos rfl] at hserve
        have hback : i - 1 + 1 = i := by omega
        have hstep : clientLoop inp (n + 1) i s =
            clientLoop inp n i (({ s with calls := calls } : Server).dropClient i) := by
          simp [clientLoop, hguard, hserve, hback]
        rw [hstep]
        have hscanned := ih (s := ({ s with calls := calls } : Server).dropClient i) hi
          (by simp only [Server.dropClient, Server.record]; omega)
        cases n with
        | zero =>
          refine hscanned.drop rfl hcalls (by simp [Server.slots_zero]) (fun h => h) ?_
          rw [Server.slots_succ, Server.slots_zero, hready, swapScan_last hleave]
          simp [Server.slots_zero]
        | succ n =>
          have hslots : (({ s with calls := calls } : Server).dropClient i).slots i (n + 1) =
              ((s.fds (i + (n + 1))).fd, true) :: s.slots (i + 1) n := by
            rw [← hready]
            exact Server.dropClient_slots (s := { s with calls := calls }) (by simp only; omega)
          have hindex : i + 1 + n = i + (n + 1) := by omega
          have hold := Server.slots_concat s (i + 1) n
          rw [hindex] at hold
          refine hscanned.drop rfl hcalls (fun x => ?_) (fun hnd => ?_) ?_
          · rw [hslots, hold]
            simp [or_comm]
          · rw [hold, List.map_append] at hnd
            rw [hslots]
            exact (List.perm_append_singleton _ _).nodup_iff.1 hnd
          · rw [Server.slots_succ, hold, hready, swapScan_move hleave, hslots]

end LinuxNet.PollServer
