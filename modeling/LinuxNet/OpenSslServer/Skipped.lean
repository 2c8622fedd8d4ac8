-- SUMMARY: Which of the clients that poll has reported the TLS server's scan comes to, when some of them leave during it.
import LinuxNet.Base.SkipScan
import LinuxNet.OpenSslServer.Held
import LinuxNet.OpenSslServer.Records

/-! # Clients that the TLS server passes over

A client that leaves is replaced by the last one, and the loop goes on with the
next slot. -/

namespace LinuxNet.OpenSslServer

variable {s s' t : Server} {inp : RoundInput} {i n : Nat} {x : Session}
  {L : List (Session × Bool)}

/-- The sessions that have been read from, in order. -/
def reads (calls : List Call) : List Session :=
  calls.filterMap fun
    | .sslRead x => some x
    | _ => none

/-- Whether poll reports slot `i` in a round. -/
def RoundInput.reports (inp : RoundInput) (s : Server) (i : Nat) : Bool :=
  inp.poll.any fun revents => ((s.poll revents).fds i).revents.has pollIn

/-- Whether the client in slot `i` leaves when it is read from. -/
def RoundInput.leavesAt (inp : RoundInput) (s : Server) (i : Nat) : Bool :=
  (s.arrSsl i).any fun x => disconnects (inp.sslRead x)

/-- The number of slots in use once the listening socket has been visited: a client
whose handshake succeeds is put behind the others. -/
def RoundInput.size (inp : RoundInput) (s : Server) : Nat :=
  if inp.reports s 0 && inp.accept.any (0 < ·) && s.nfds < maxConnection && inp.sslAccept then
    s.nfds + 1
  else s.nfds

theorem RoundInput.size_spec (inp : RoundInput) (s : Server) :
    s.nfds ≤ inp.size s ∧ inp.size s ≤ s.nfds + 1 := by
  unfold RoundInput.size
  split <;> omega

/-- The sessions in the slots that the loop comes to from slot `i` on. -/
def scanned (inp : RoundInput) : Nat → Nat → Server → List Session
  | 0, _, _ => []
  | n + 1, i, s =>
    if i < s.nfds then
      (s.arrSsl i).toList ++ (visit inp i s).toOption.elim [] (scanned inp n (i + 1))
    else []

/-! ## What a visit leaves as it is -/

namespace Server

/-- The slots that `keep` holds for have the same session and the same events. -/
def Same (keep : Nat → Prop) (s t : Server) : Prop :=
  ∀ j, keep j → t.arrSsl j = s.arrSsl j ∧ (t.fds j).revents = (s.fds j).revents

theorem setSlot_same (i : Nat) (fd : Int) (y : Option Session) (s : Server) :
    Same (· ≠ i) s (s.setSlot i fd y) := by
  intro j hj
  simp [setSlot, Function.update_of_ne hj]

theorem sslFree_same (hfree : s.sslFree i = .ok t) :
    t.fds = s.fds ∧ t.arrSsl = s.arrSsl ∧ t.nfds = s.nfds ∧ reads t.calls = reads s.calls := by
  unfold sslFree at hfree
  split at hfree
  · obtain rfl := Except.ok.inj hfree
    exact ⟨rfl, rfl, rfl, rfl⟩
  · split at hfree
    · obtain rfl := Except.ok.inj hfree
      exact ⟨rfl, rfl, rfl, by simp [record, reads]⟩
    · cases hfree

/-- Dropping a client changes its slot and the last one. -/
theorem dropClient_same (hdrop : s.dropClient i = .ok t) : t.nfds = s.nfds - 1 ∧
    Same (fun j => i < j ∧ j < t.nfds) s t ∧ reads t.calls = reads s.calls := by
  obtain ⟨u, hfree, ht⟩ := Except.bind_eq_ok.1 hdrop
  obtain ⟨hfds, harr, hnfds, hreads⟩ := sslFree_same hfree
  obtain rfl := Except.ok.inj ht
  have hclose : reads (s.close i).calls = reads s.calls := by simp [close, record, reads]
  refine ⟨congrArg (· - 1) hnfds, ?_, hreads.trans hclose⟩
  rintro j ⟨hij, hj⟩
  replace hj : j < u.nfds - 1 := hj
  have hne : j ≠ u.nfds - 1 := by omega
  have hslots := (setSlot_same i (u.fds (u.nfds - 1)).fd (u.arrSsl (u.nfds - 1)) u j
    (by omega : j ≠ i))
  have hlast := setSlot_same (u.nfds - 1) (-1) none
    (u.setSlot i (u.fds (u.nfds - 1)).fd (u.arrSsl (u.nfds - 1))) j hne
  refine ⟨hlast.1.trans (hslots.1.trans (congrFun harr j)), hlast.2.trans (hslots.2.trans ?_)⟩
  rw [hfds]
  rfl

/-- The handshake changes the slot behind the last one. -/
theorem handshake_same (hshake : handshake inp s = .ok t) :
    t.nfds = (if inp.sslAccept then s.nfds + 1 else s.nfds) ∧
      Same (· < s.nfds) s t ∧ reads t.calls = reads s.calls := by
  obtain ⟨x, -, hshake⟩ := Except.bind_eq_ok.1 hshake
  have haccept : reads (s.record (.sslAccept x)).calls = reads s.calls := by
    simp [record, reads]
  dsimp only at hshake
  split at hshake
  · rename_i hok
    obtain rfl := Except.ok.inj hshake
    rw [if_pos hok]
    exact ⟨rfl, fun _ _ => ⟨rfl, rfl⟩, haccept⟩
  · rename_i hfailed
    obtain ⟨u, hfree, ht⟩ := Except.bind_eq_ok.1 hshake
    obtain ⟨hfds, harr, hnfds, hreads⟩ := sslFree_same hfree
    obtain rfl := Except.ok.inj ht
    rw [if_neg hfailed]
    have hclose : reads ((s.record (.sslAccept x)).close s.nfds).calls = reads s.calls := by
      simp [close, record, reads]
    refine ⟨hnfds, fun j hj => ?_, hreads.trans hclose⟩
    have hne : j ≠ s.nfds := Nat.ne_of_lt hj
    have hcleared := setSlot_same s.nfds (-1) (s.arrSsl s.nfds)
      ((s.record (.sslAccept x)).close s.nfds) j hne
    have hlast := setSlot_same u.nfds (-1) none u j fun he => hne (he.trans hnfds)
    have hsame : (u.fds j).revents = (s.fds j).revents := by
      rw [hfds]
      exact hcleared.2
    exact ⟨hlast.1.trans ((congrFun harr j).trans hcleared.1), hlast.2.trans hsame⟩

theorem addClient_same {fd : Nat} (hadd : addClient inp fd s = .ok t) :
    t.nfds = (if 0 < fd ∧ s.nfds < maxConnection ∧ inp.sslAccept then s.nfds + 1 else s.nfds) ∧
      Same (· < s.nfds) s t ∧ reads t.calls = reads s.calls := by
  have haccept : reads (s.record (.accept fd)).calls = reads s.calls := by simp [record, reads]
  unfold addClient at hadd
  dsimp only at hadd
  split at hadd
  · rename_i hpos
    split at hadd
    · rename_i hroom
      obtain ⟨hnfds, hsame, hreads⟩ := handshake_same hadd
      refine ⟨hnfds.trans ?_, fun j hj => ?_, hreads.trans ?_⟩
      · have hroom' : s.nfds < maxConnection := hroom
        simp only [hpos, hroom', true_and]
        rfl
      · have hne : j ≠ s.nfds := Nat.ne_of_lt hj
        obtain ⟨harr, hrevents⟩ := hsame j hj
        exact ⟨harr.trans (Function.update_of_ne hne _ _),
          hrevents.trans (congrArg PollFd.revents (Function.update_of_ne hne _ _))⟩
      · simp [sslNew, record, reads]
    · rename_i hfull
      obtain rfl := Except.ok.inj hadd
      have hfull' : ¬ s.nfds < maxConnection := hfull
      rw [if_neg fun h => hfull' h.2.1]
      exact ⟨rfl, fun _ _ => ⟨rfl, rfl⟩, haccept⟩
  · rename_i hzero
    obtain rfl := Except.ok.inj hadd
    rw [if_neg fun h => hzero h.1]
    exact ⟨rfl, fun _ _ => ⟨rfl, rfl⟩, haccept⟩

namespace Paired

/-- The visit of the listening socket. -/
theorem visit_listener (h : s.Paired) (hvisit : OpenSslServer.visit inp 0 s = .ok t) :
    t.nfds = (if (s.fds 0).revents.has pollIn && inp.accept.any (0 < ·) &&
      s.nfds < maxConnection && inp.sslAccept then s.nfds + 1 else s.nfds) ∧
      Same (· < s.nfds) s t ∧ reads t.calls = reads s.calls := by
  unfold OpenSslServer.visit at hvisit
  by_cases hready : (s.fds 0).revents.has pollIn = true
  · rw [if_pos hready, if_pos h.listener] at hvisit
    cases haccept : inp.accept with
    | none =>
      rw [haccept] at hvisit
      obtain rfl := Except.ok.inj hvisit
      simp [Same]
    | some fd =>
      rw [haccept] at hvisit
      obtain ⟨hnfds, hsame, hreads⟩ := addClient_same hvisit
      refine ⟨hnfds.trans ?_, hsame, hreads⟩
      simp [hready, and_assoc]
  · rw [if_neg hready] at hvisit
    obtain rfl := Except.ok.inj hvisit
    simp [hready, Same]

/-- The visit of a client. -/
theorem visit_client (h : s.Paired) (h1 : 1 ≤ i) (hi : i < s.nfds) (hx : s.arrSsl i = some x)
    (hvisit : OpenSslServer.visit inp i s = .ok t) :
    t.nfds = (if (s.fds i).revents.has pollIn && disconnects (inp.sslRead x) then s.nfds - 1
      else s.nfds) ∧ Same (fun j => i < j ∧ j < t.nfds) s t ∧
      reads t.calls = reads s.calls ++ if (s.fds i).revents.has pollIn then [x] else [] := by
  have hlive : x ∈ s.sessions.live := (h.live x).2 ⟨i, hx⟩
  have hserver : (s.fds i).fd ≠ s.sockServer := fun he => by
    have h0 := h.fd_inj hi h.pos (he.trans h.listener.symm)
    omega
  unfold OpenSslServer.visit at hvisit
  by_cases hready : (s.fds i).revents.has pollIn = true
  · have hread : reads (s.record (.sslRead x)).calls = reads s.calls ++ [x] := by
      simp [Server.record, reads]
    unfold OpenSslServer.serveClient at hvisit
    rw [if_pos hready, if_neg hserver, session_eq hx hlive, Except.bind_ok] at hvisit
    dsimp only at hvisit
    simp only [hready, Bool.true_and, if_true]
    cases hresult : inp.sslRead x with
    | fail e =>
      rw [hresult] at hvisit
      obtain ⟨hnfds, hsame, hreads⟩ := dropClient_same hvisit
      exact ⟨hnfds, hsame, hreads.trans hread⟩
    | data bytes hb =>
      rw [hresult] at hvisit
      dsimp only at hvisit
      unfold disconnects
      split at hvisit
      · rw [if_pos ‹_›]
        obtain ⟨hnfds, hsame, hreads⟩ := dropClient_same hvisit
        exact ⟨hnfds, hsame, hreads.trans hread⟩
      · rw [if_neg ‹_›]
        have hwrite : ((s.record (.sslRead x)).record (.terminate bytes.length)).session i =
            .ok x := session_eq hx hlive
        rw [hwrite, Except.bind_ok] at hvisit
        obtain rfl := Except.ok.inj hvisit
        exact ⟨rfl, fun _ _ => ⟨rfl, rfl⟩, by simp [Server.record, reads]⟩
  · rw [if_neg hready] at hvisit
    obtain rfl := Except.ok.inj hvisit
    simp [hready, Same]

end Paired

/-! ## The scan as a scan of a list -/

/-- The sessions in `n` slots from `i` on, and whether poll has reported these. -/
def Lists (s : Server) (i n : Nat) (L : List (Session × Bool)) : Prop :=
  ∀ k < n, ∃ p, L[k]? = some p ∧ s.arrSsl (i + k) = some p.1 ∧
    (s.fds (i + k)).revents.has pollIn = p.2

namespace Paired

theorem exists_lists (h : s.Paired) (hn : i + n ≤ s.nfds) :
    ∃ L, L.length = n ∧ s.Lists i n L := by
  induction n generalizing i with
  | zero => exact ⟨[], rfl, fun k hk => absurd hk (Nat.not_lt_zero k)⟩
  | succ n ih =>
    obtain ⟨x, -, hx, -⟩ := h.exists_session (i := i) (by omega)
    obtain ⟨L, hlength, hL⟩ := ih (i := i + 1) (by omega)
    refine ⟨(x, (s.fds i).revents.has pollIn) :: L, by rw [List.length_cons, hlength], ?_⟩
    intro k hk
    cases k with
    | zero => exact ⟨_, rfl, hx, rfl⟩
    | succ k =>
      have hindex : i + (k + 1) = i + 1 + k := by omega
      rw [hindex]
      exact hL k (by omega)

/-- A visit leaves the other clients in the list, but one fewer than there are slots if
the client it visits leaves. -/
theorem visit_lists {flag : Bool} (h : s.Paired) (h1 : 1 ≤ i) (hi : i < s.nfds)
    (hL : s.Lists i (s.nfds - i) ((x, flag) :: L))
    (hvisit : OpenSslServer.visit inp i s = .ok t) :
    t.nfds - (i + 1) = (if flag && disconnects (inp.sslRead x) then s.nfds - i - 1 - 1
      else s.nfds - i - 1) ∧ t.Lists (i + 1) (t.nfds - (i + 1)) L ∧ s.arrSsl i = some x ∧
      reads t.calls = reads s.calls ++ if flag then [x] else [] := by
  obtain ⟨_, ⟨rfl⟩, hx, hflag⟩ := hL 0 (by omega)
  rw [Nat.add_zero] at hx hflag
  obtain ⟨hnfds, hsame, hreads⟩ := h.visit_client h1 hi hx hvisit
  dsimp only at hflag
  rw [hflag] at hnfds hreads
  have hle : t.nfds ≤ s.nfds := by
    rw [hnfds]
    split <;> omega
  refine ⟨?_, fun j hj => ?_, hx, hreads⟩
  · rw [hnfds]
    split <;> omega
  · obtain ⟨p, hp, hpx, hpflag⟩ := hL (j + 1) (by omega)
    have hindex : i + (j + 1) = i + 1 + j := by omega
    rw [hindex] at hpx hpflag
    obtain ⟨harr, hrevents⟩ := hsame (i + 1 + j) ⟨by omega, by omega⟩
    exact ⟨p, hp, harr.trans hpx, hrevents ▸ hpflag⟩

/-- The loop from slot `i` on comes to the slots that a scan of the list comes to, and
reads from those that poll has reported. -/
theorem visitFrom_scan {m : Nat} (h : s.Paired) (h1 : 1 ≤ i) (hm : i + m = maxConnection)
    (hL : s.Lists i (s.nfds - i) L) (hrun : OpenSslServer.visitFrom inp m i s = .ok s') :
    reads s'.calls = reads s.calls ++
      ((skipScan (fun x => disconnects (inp.sslRead x)) (s.nfds - i) L).filter (·.2)).map
        Prod.fst ∧
    scanned inp m i s =
      (skipScan (fun x => disconnects (inp.sslRead x)) (s.nfds - i) L).map Prod.fst := by
  induction m generalizing i s L with
  | zero =>
    have hbound := h.bound
    have hnone : s.nfds - i = 0 := by omega
    rw [OpenSslServer.visitFrom, if_neg (by omega)] at hrun
    obtain rfl := Except.ok.inj hrun
    simp [hnone, skipScan, scanned]
  | succ m ih =>
    rw [OpenSslServer.visitFrom] at hrun
    by_cases hi : i < s.nfds
    · rw [if_pos hi] at hrun
      obtain ⟨t, hvisit, hrest⟩ := Except.bind_eq_ok.1 hrun
      obtain ⟨t', ht', ht, -⟩ := h.visit inp hi fun h0 => absurd h0 (by omega)
      obtain rfl := Except.ok.inj (hvisit.symm.trans ht')
      obtain ⟨k, hk⟩ : ∃ k, s.nfds - i = k + 1 := ⟨s.nfds - i - 1, by omega⟩
      cases L with
      | nil =>
        obtain ⟨p, hp, -⟩ := hL 0 (by omega)
        cases hp
      | cons p L =>
        obtain ⟨x, flag⟩ := p
        obtain ⟨hleft, hlists, hx, hreads⟩ := h.visit_lists h1 hi hL hvisit
        obtain ⟨hserved, hscanned⟩ := ih ht (by omega) (by omega) hlists hrest
        rw [hk, Nat.add_sub_cancel] at hleft
        rw [hleft] at hserved hscanned
        rw [hk, skipScan]
        constructor
        · rw [hserved, hreads]
          cases flag <;> simp
        · rw [scanned, if_pos hi, hx, hvisit]
          exact congrArg (x :: ·) hscanned
    · rw [if_neg hi] at hrun
      obtain rfl := Except.ok.inj hrun
      have hnone : s.nfds - i = 0 := by omega
      simp [hnone, skipScan, scanned, hi]

end Paired

end Server

/-! ## Rounds -/

/-- Each client that poll has reported is read from once. -/
def EachOnce (s : Server) (inp : RoundInput) (s' : Server) : Prop :=
  ∀ i x, 1 ≤ i → i < s.nfds → inp.reports s i → s.arrSsl i = some x →
    s'.calls.count (.sslRead x) = 1

/-- The loop comes to every client that is in the table once the listening socket has
been visited, wherever the client is moved. -/
def NoneSkipped (s : Server) (inp : RoundInput) : Prop :=
  ∀ revents ∈ inp.poll, ∀ t, visit inp 0 (s.poll revents) = .ok t →
    ∀ i x, 1 ≤ i → i < t.nfds → t.arrSsl i = some x →
      x ∈ scanned inp maxConnection 0 (s.poll revents)

/-- Of the reported clients in front of a reported one, fewer leave than there are
slots in use from it on. -/
def RoundInput.Reaches (inp : RoundInput) (s : Server) : Prop :=
  ∀ i, 1 ≤ i → i < s.nfds → inp.reports s i →
    i + (List.range' 1 (i - 1)).countP (fun j => inp.reports s j && inp.leavesAt s j) <
      inp.size s

/-- No reported client in front of the last one leaves. -/
def RoundInput.OnlyLastLeaves (inp : RoundInput) (s : Server) : Prop :=
  ∀ i, 1 ≤ i → i + 1 < inp.size s → inp.reports s i → inp.leavesAt s i = false

instance (inp : RoundInput) (s : Server) : Decidable (inp.OnlyLastLeaves s) :=
  decidable_of_iff (∀ i < inp.size s, 1 ≤ i → i + 1 < inp.size s → inp.reports s i →
    inp.leavesAt s i = false) ⟨fun h i h1 hi => h i (by omega) h1 hi, fun h i _ => h i⟩

theorem count_reads (calls : List Call) (x : Session) :
    calls.count (.sslRead x) = (reads calls).count x := by
  induction calls with
  | nil => rfl
  | cons call calls ih =>
    cases call with
    | sslRead y =>
      have hcons : reads (.sslRead y :: calls) = y :: reads calls := rfl
      rw [hcons, List.count_cons, List.count_cons, ih]
      simp
    | _ => simpa [reads] using ih

/-- A round as a scan of the clients in the table, those of `s` in front. -/
structure Scan (inp : RoundInput) (s s' : Server) (revents : Nat → Events) (t : Server)
    (L : List (Session × Bool)) : Prop where
  poll : inp.poll = some revents
  listener : visit inp 0 (s.poll revents) = .ok t
  paired : t.Paired
  size : t.nfds = inp.size s
  length : L.length = inp.size s - 1
  lists : t.Lists 1 (inp.size s - 1) L
  front : ∀ k, k + 1 < s.nfds → ∃ x, s.arrSsl (k + 1) = some x ∧
    L[k]? = some (x, inp.reports s (k + 1))
  reads : reads s'.calls = ((skipScan (fun x => disconnects (inp.sslRead x))
    (inp.size s - 1) L).filter (·.2)).map Prod.fst
  scanned : ∃ x, t.arrSsl 0 = some x ∧ scanned inp maxConnection 0 (s.poll revents) =
    x :: (skipScan (fun x => disconnects (inp.sslRead x)) (inp.size s - 1) L).map Prod.fst

theorem Server.Paired.round_scan (h : s.Paired) (hround : Round s inp s') :
    ∃ revents t L, Scan inp s s' revents t L := by
  obtain ⟨hfresh, hround⟩ := hround
  cases hpoll : inp.poll with
  | none =>
    rw [OpenSslServer.round, hpoll] at hround
    cases hround
  | some revents =>
    rw [OpenSslServer.round, hpoll] at hround
    obtain ⟨u, hrun, hu⟩ := Except.bind_eq_ok.1 hround
    obtain rfl := Option.some.inj (Except.ok.inj hu)
    have hpolled := h.poll revents
    have hpos : 0 < (s.poll revents).nfds := h.pos
    obtain ⟨t, hvisit, ht, -⟩ := hpolled.visit inp hpos fun _ => hfresh
    have hrest : OpenSslServer.visitFrom inp 99 1 t = .ok u := by
      rw [maxConnection, OpenSslServer.visitFrom, if_pos hpos, hvisit] at hrun
      exact hrun
    obtain ⟨hnfds, hsame, hreads⟩ := hpolled.visit_listener hvisit
    have hreports : ∀ i, inp.reports s i = ((s.poll revents).fds i).revents.has pollIn :=
      fun i => by rw [RoundInput.reports, hpoll]; rfl
    have hsize : t.nfds = inp.size s := by
      rw [hnfds, RoundInput.size, hreports]
      rfl
    have hpos' := ht.pos
    obtain ⟨L, hlength, hL⟩ := ht.exists_lists (i := 1) (n := inp.size s - 1) (by omega)
    obtain ⟨hserved, hscanned⟩ := ht.visitFrom_scan le_rfl (by decide) (hsize ▸ hL) hrest
    have hnone : reads (s.poll revents).calls = [] := rfl
    rw [hreads, hnone, List.nil_append, hsize] at hserved
    rw [hsize] at hscanned
    refine ⟨revents, t, L, hpoll, hvisit, ht, hsize, hlength, hL, ?_, hserved, ?_⟩
    · intro k hk
      have hle := (inp.size_spec s).1
      obtain ⟨⟨x, flag⟩, hp, hx, hflag⟩ := hL k (by omega)
      obtain ⟨harr, hrevents⟩ := hsame (1 + k) (show 1 + k < s.nfds by omega)
      rw [Nat.add_comm] at hx hflag harr hrevents
      rw [hrevents, ← hreports] at hflag
      exact ⟨x, harr.symm.trans hx, hflag ▸ hp⟩
    · obtain ⟨harr, -⟩ := hsame 0 hpos
      obtain ⟨x, -, hx, -⟩ := ht.exists_session ht.pos
      refine ⟨x, hx, ?_⟩
      have hx' : (s.poll revents).arrSsl 0 = some x := harr.symm.trans hx
      rw [maxConnection, OpenSslServer.scanned, if_pos hpos, hvisit, hx']
      exact congrArg (x :: ·) hscanned

namespace Scan

variable {revents : Nat → Events} {k : Nat}

/-- The clients in the table are different. -/
theorem nodup (h : Scan inp s s' revents t L) : (L.map Prod.fst).Nodup := by
  rw [List.nodup_iff_getElem?_ne_getElem?]
  intro j k hjk hk he
  rw [List.length_map, h.length] at hk
  obtain ⟨p, hp, hpx, -⟩ := h.lists j (by omega)
  obtain ⟨q, hq, hqx, -⟩ := h.lists k hk
  rw [List.getElem?_map, List.getElem?_map, hp, hq] at he
  have hsame := h.paired.dense.inj _ _ p.1 hpx (Option.some.inj he ▸ hqx)
  omega

/-- The list has the reports and the departures of the slots. -/
theorem getElem_spec (h : Scan inp s s' revents t L) (hk : k + 1 < s.nfds) :
    ∃ p, L[k]? = some p ∧ p.2 = inp.reports s (k + 1) ∧
      disconnects (inp.sslRead p.1) = inp.leavesAt s (k + 1) := by
  obtain ⟨x, hx, hL⟩ := h.front k hk
  refine ⟨_, hL, rfl, ?_⟩
  rw [RoundInput.leavesAt, hx]
  rfl

theorem countP_take (h : Scan inp s s' revents t L) (hk : k < s.nfds) :
    (L.take k).countP (fun p => p.2 && disconnects (inp.sslRead p.1)) =
      (List.range' 1 k).countP fun j => inp.reports s j && inp.leavesAt s j := by
  induction k with
  | zero => rfl
  | succ k ih =>
    obtain ⟨p, hp, hflag, hleaves⟩ := h.getElem_spec hk
    rw [List.take_add_one, hp, List.range'_1_concat, List.countP_append, List.countP_append,
      ih (by omega), Nat.add_comm 1 k]
    simp [List.countP_cons, hflag, hleaves]

/-- A round reads once from each reported client exactly if its scan reaches them. -/
theorem eachOnce_iff (h : Scan inp s s' revents t L) (hpaired : s.Paired) :
    EachOnce s inp s' ↔ inp.Reaches s := by
  have hslot : ∀ i x, 1 ≤ i → i < s.nfds → inp.reports s i → s.arrSsl i = some x →
      (s'.calls.count (.sslRead x) = 1 ↔
        i + (List.range' 1 (i - 1)).countP (fun j => inp.reports s j && inp.leavesAt s j) <
          inp.size s) := by
    intro i x h1 hi hreports hx
    obtain ⟨k, rfl⟩ : ∃ k, i = k + 1 := ⟨i - 1, by omega⟩
    obtain ⟨y, hy, hL⟩ := h.front k hi
    obtain rfl := Option.some.inj (hx.symm.trans hy)
    rw [hreports] at hL
    rw [count_reads, h.reads, count_skipScan h.nodup hL, Nat.add_sub_cancel,
      ← h.countP_take (by omega)]
    simp only [ite_eq_left_iff, Nat.zero_ne_one, imp_false, not_not]
    rw [lt_length_skipScan_iff h.length.ge]
    omega
  constructor
  · intro honce i h1 hi hreports
    obtain ⟨x, -, hx, -⟩ := hpaired.exists_session hi
    exact (hslot i x h1 hi hreports hx).1 (honce i x h1 hi hreports hx)
  · exact fun hreach i x h1 hi hreports hx =>
      (hslot i x h1 hi hreports hx).2 (hreach i h1 hi hreports)

/-- A round comes to every client exactly if its scan comes to every place. -/
theorem noneSkipped_iff_length (h : Scan inp s s' revents t L) :
    NoneSkipped s inp ↔ ∀ k < inp.size s - 1,
      k < (skipScan (fun x => disconnects (inp.sslRead x)) (inp.size s - 1) L).length := by
  obtain ⟨x₀, hx₀, hscanned⟩ := h.scanned
  constructor
  · intro hnone k hk
    obtain ⟨p, hp, hpx, -⟩ := h.lists k hk
    have hmem := hnone revents h.poll t h.listener (1 + k) p.1 (by omega)
      (by rw [h.size]; omega) hpx
    rw [hscanned] at hmem
    refine (mem_skipScan_iff h.nodup hp).1 ((List.mem_cons.1 hmem).resolve_left fun he => ?_)
    have hsame := h.paired.dense.inj _ _ x₀ hx₀ (he ▸ hpx)
    omega
  · intro hreach revents' hpoll' t' hvisit' i x h1 hi hx
    obtain rfl := Option.some.inj (h.poll.symm.trans hpoll')
    obtain rfl := Except.ok.inj (h.listener.symm.trans hvisit')
    rw [h.size] at hi
    obtain ⟨p, hp, hpx, -⟩ := h.lists (i - 1) (by omega)
    have hindex : 1 + (i - 1) = i := by omega
    rw [hindex, hx] at hpx
    obtain rfl := Option.some.inj hpx
    rw [hscanned]
    exact List.mem_cons_of_mem _ ((mem_skipScan_iff h.nodup hp).2 (hreach _ (by omega)))

/-- A round comes to every client exactly if none leaves that is not the last one. -/
theorem noneSkipped_iff (h : Scan inp s s' revents t L) :
    NoneSkipped s inp ↔ inp.OnlyLastLeaves s := by
  have hle := (inp.size_spec s).2
  rw [h.noneSkipped_iff_length, length_skipScan_iff h.length.ge]
  constructor
  · intro hstay i h1 hi hreports
    obtain ⟨k, rfl⟩ : ∃ k, i = k + 1 := ⟨i - 1, by omega⟩
    obtain ⟨p, hp, hflag, hleaves⟩ := h.getElem_spec (k := k) (by omega)
    have hin : (L.take (inp.size s - 1 - 1))[k]? = some p := by
      rw [List.getElem?_take, if_pos (by omega), hp]
    have hstays := hstay p (List.mem_of_getElem? hin)
    rwa [hflag, hreports, Bool.true_and, hleaves] at hstays
  · intro honly p hp
    obtain ⟨k, hk⟩ := List.mem_iff_getElem?.1 hp
    rw [List.getElem?_take] at hk
    obtain ⟨hlt, hk⟩ := Option.ite_none_right_eq_some.1 hk
    obtain ⟨q, hq, hflag, hleaves⟩ := h.getElem_spec (k := k) (by omega)
    obtain rfl := Option.some.inj (hk.symm.trans hq)
    rw [hflag, hleaves]
    cases hreports : inp.reports s (k + 1) with
    | false => rfl
    | true => exact honly (k + 1) (by omega) (by omega) hreports

end Scan

theorem RoundInput.OnlyLastLeaves.reaches (h : inp.OnlyLastLeaves s) : inp.Reaches s := by
  intro i h1 hi hreports
  have hle := (inp.size_spec s).1
  have hnone : (List.range' 1 (i - 1)).countP
      (fun j => inp.reports s j && inp.leavesAt s j) = 0 := by
    rw [List.countP_eq_zero]
    intro j hj
    obtain ⟨hj1, hji⟩ := List.mem_range'_1.1 hj
    cases hreport : inp.reports s j with
    | false => simp
    | true => simp [h j hj1 (by omega) hreport]
  omega

/-- In a run, every round reads once from each reported client and comes to every
client in the table exactly if in every round no reported client leaves that is in front
of the last one. Each reported client is read from once exactly if in every round fewer
reported clients leave in front of it than there are slots in use from it on. -/
theorem readOnce_iff {sockServer : Nat} {openFds : Finset Int} {rounds : List RoundInput}
    (hlisten : (sockServer : Int) ∈ openFds) :
    (Run (fun s inp s' => Round s inp s' ∧ EachOnce s inp s' ∧ NoneSkipped s inp)
        (startUp sockServer openFds) rounds s ↔
      Run (fun s inp s' => Round s inp s' ∧ inp.OnlyLastLeaves s)
        (startUp sockServer openFds) rounds s) ∧
    (Run (fun s inp s' => Round s inp s' ∧ EachOnce s inp s')
        (startUp sockServer openFds) rounds s ↔
      Run (fun s inp s' => Round s inp s' ∧ inp.Reaches s)
        (startUp sockServer openFds) rounds s) := by
  have hstart := startUp_paired hlisten
  constructor
  · refine Run.iff_of_invariant (I := Server.Paired) (fun s inp s' h hround => ?_)
      (fun s inp s' h hround _ => h.next hround) hstart
    obtain ⟨revents, t, L, hscan⟩ := h.round_scan hround
    rw [hscan.eachOnce_iff h, hscan.noneSkipped_iff]
    exact ⟨fun hboth => hboth.2, fun honly => ⟨honly.reaches, honly⟩⟩
  · refine Run.iff_of_invariant (I := Server.Paired) (fun s inp s' h hround => ?_)
      (fun s inp s' h hround _ => h.next hround) hstart
    obtain ⟨revents, t, L, hscan⟩ := h.round_scan hround
    exact hscan.eachOnce_iff h

/-- A client connects. -/
def connect (fd : Nat) : RoundInput :=
  ⟨some fun i => if i = 0 then pollIn else 0, some fd, true, fun _ => .data [] (by decide)⟩

theorem connect_round {fd : Nat} (hnew : (fd : Int) ∉ s.openFds)
    (hnext : next (connect fd) s = some t) : Round s (connect fd) t := by
  refine ⟨?_, next_eq_some.1 hnext⟩
  rintro _ ⟨rfl⟩
  exact hnew

/-- poll reports the clients in the slots 1 and 2, and the one with the descriptor
leaves. -/
def leave (fd : Int) : RoundInput where
  poll := some fun i => if i = 1 ∨ i = 2 then pollIn else 0
  accept := none
  sslAccept := true
  sslRead := fun x => if x.fd = fd then .data [] (by decide) else .data [0x61] (by decide)

/-- The client that leaves is the last one. -/
theorem readOnce_iff_last : ∃ s, Run
    (fun s inp s' => Round s inp s' ∧ EachOnce s inp s' ∧ NoneSkipped s inp)
      (startUp 3 {3}) [connect 4, connect 5, leave 5] s ∧ s.nfds = 2 := by
  have hrun : (next (connect 4) (startUp 3 {3}) >>= fun s₁ => next (connect 5) s₁ >>= fun s₂ =>
      (next (leave 5) s₂).map fun s₃ => decide ((connect 4).OnlyLastLeaves (startUp 3 {3}) ∧
        (connect 5).OnlyLastLeaves s₁ ∧ (leave 5).OnlyLastLeaves s₂ ∧ (5 : Int) ∉ s₁.openFds ∧
          s₃.nfds = 2)) = some true := by
    decide +kernel
  obtain ⟨s₁, hfirst, hrest⟩ := Option.bind_eq_some_iff.1 hrun
  obtain ⟨s₂, hsecond, hrest⟩ := Option.bind_eq_some_iff.1 hrest
  obtain ⟨s₃, hthird, hfacts⟩ := Option.map_eq_some_iff.1 hrest
  obtain ⟨honly₁, honly₂, honly₃, hfresh, hnfds⟩ := of_decide_eq_true hfacts
  have hround₁ := connect_round (by decide) hfirst
  have hround₂ := connect_round hfresh hsecond
  have hround₃ : Round s₂ (leave 5) s₃ := ⟨by simp [leave], next_eq_some.1 hthird⟩
  refine ⟨s₃, (readOnce_iff (by decide)).1.2 ?_, hnfds⟩
  exact .cons ⟨hround₁, honly₁⟩ (.cons ⟨hround₂, honly₂⟩ (.single ⟨hround₃, honly₃⟩))

/-- Two clients are reported, and the first one leaves: the second one is moved, and is
not read from. -/
theorem not_readOnce : ¬ ∀ rounds s inp s', Run Round (startUp 3 {3}) rounds s →
    Round s inp s' → EachOnce s inp s' ∧ NoneSkipped s inp := by
  intro hall
  have hrun : (next (connect 4) (startUp 3 {3}) >>= fun s₁ => next (connect 5) s₁ >>= fun s₂ =>
      (next (leave 4) s₂).map fun s₃ => decide ((5 : Int) ∉ s₁.openFds ∧ 2 < s₂.nfds ∧
        (leave 4).reports s₂ 2 = true ∧ s₂.arrSsl 2 = some ⟨2, 5⟩ ∧
          s₃.calls.count (.sslRead ⟨2, 5⟩) = 0)) = some true := by
    decide +kernel
  obtain ⟨s₁, hfirst, hrest⟩ := Option.bind_eq_some_iff.1 hrun
  obtain ⟨s₂, hsecond, hrest⟩ := Option.bind_eq_some_iff.1 hrest
  obtain ⟨s₃, hthird, hfacts⟩ := Option.map_eq_some_iff.1 hrest
  obtain ⟨hfresh, hnfds, hreports, hslot, hcount⟩ := of_decide_eq_true hfacts
  have hround₁ := connect_round (by decide) hfirst
  have hround₂ := connect_round hfresh hsecond
  have hround₃ : Round s₂ (leave 4) s₃ := ⟨by simp [leave], next_eq_some.1 hthird⟩
  have honce := (hall _ _ _ _ (.cons hround₁ (.single hround₂)) hround₃).1
  have hone := honce 2 _ (by decide) hnfds hreports hslot
  omega

end LinuxNet.OpenSslServer
