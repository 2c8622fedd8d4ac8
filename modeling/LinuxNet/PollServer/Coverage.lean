-- SUMMARY: The poll server's table at every loop top, and which clients its client loop comes to.
import LinuxNet.PollServer.Readiness

/-! # The clients the poll server comes to

The client loop steps back when it drops a client, and its bound shrinks. It
comes to every client all the same, once, as long as it runs. -/

namespace LinuxNet.PollServer

variable {s s' t : Server} {inp : RoundInput} {i n : Nat}

/-- `for (int i = 1; i >= 1 && i < nfds; i++)` from `i` on: the clients in the
slots it examines, in order, and the state in which it ends. -/
inductive Loop (inp : RoundInput) : Nat → Server → List Int → Server → Prop
  | exit {i : Nat} {s : Server} (hguard : ¬ (1 ≤ i ∧ i < s.nfds)) : Loop inp i s [] s
  | body {i : Nat} {s t s' : Server} {dropped : Bool} {examined : List Int}
      (hguard : 1 ≤ i ∧ i < s.nfds)
      (hserve : serveClient inp i s = (t, dropped))
      (hrest : Loop inp ((if dropped then i - 1 else i) + 1) t examined s') :
      Loop inp i s ((s.fds i).fd :: examined) s'

/-- A client is served and stays, or is served and dropped. -/
theorem serveClient_cases (inp : RoundInput) (i : Nat) (s : Server) :
    ∃ calls, handovers calls = handovers s.calls ∧
      (serveClient inp i s = ({ s with calls := calls }, false) ∨
        serveClient inp i s = (({ s with calls := calls } : Server).dropClient i, true)) := by
  cases hready : (s.fds i).revents.has pollIn with
  | false => exact ⟨s.calls, rfl, .inl (serveClient_idle hready)⟩
  | true =>
    obtain ⟨calls, -, hcalls, hserve⟩ := serveClient_ready inp hready
    refine ⟨calls, hcalls, ?_⟩
    rw [hserve]
    cases inp.leaves (s.fds i).fd with
    | false => exact .inl rfl
    | true => exact .inr rfl

/-- The clients from slot `i` on after the one in it has been dropped. -/
theorem Server.dropClient_perm (hn : i + (n + 1) = s.nfds) :
    (((s.dropClient i).slots i n).map Prod.fst).Perm ((s.slots (i + 1) n).map Prod.fst) := by
  cases n with
  | zero => rfl
  | succ n =>
    have hindex : i + 1 + n = i + (n + 1) := by omega
    rw [dropClient_slots (by omega), slots_concat s (i + 1) n, hindex, List.map_cons,
      List.map_append]
    exact (List.perm_append_singleton _ _).symm

/-! ## One pass of the client loop -/

/-- What the loop from slot `i` on comes to, closes and leaves in the table. -/
structure Covered (inp : RoundInput) (i n : Nat) (s : Server) (examined : List Int) (s' : Server) :
    Prop where
  loop : Loop inp i s examined s'
  examined : examined.Perm ((s.slots i n).map Prod.fst)
  nfds : i ≤ s'.nfds
  before : ∀ j < i, s'.fds j = s.fds j
  events : ∀ j, (s'.fds j).events = (s.fds j).events
  kept : ∃ closed, handovers s'.calls = handovers s.calls ++ closed.map .closed ∧
    (closed ++ (s'.slots i (s'.nfds - i)).map Prod.fst).Perm ((s.slots i n).map Prod.fst)

namespace Covered

variable {examined : List Int} {calls : List Call}

/-- The client in slot `i` stays, and the loop goes on behind it. -/
theorem stay (h : Covered inp (i + 1) n { s with calls := calls } examined s')
    (hguard : 1 ≤ i ∧ i < s.nfds) (hcalls : handovers calls = handovers s.calls)
    (hserve : serveClient inp i s = ({ s with calls := calls }, false)) :
    Covered inp i (n + 1) s ((s.fds i).fd :: examined) s' := by
  obtain ⟨closed, hcl, hperm⟩ := h.kept
  have hnfds := h.nfds
  refine ⟨.body hguard hserve h.loop, ?_, by omega, ?_, h.events, closed, ?_, ?_⟩
  · exact h.examined.cons _
  · exact fun j hj => h.before j (Nat.lt_succ_of_lt hj)
  · exact hcl.trans (congrArg (· ++ closed.map .closed) hcalls)
  · have hlen : s'.nfds - i = (s'.nfds - (i + 1)) + 1 := by omega
    rw [hlen, Server.slots_succ, h.before i (Nat.lt_succ_self i)]
    exact List.perm_middle.trans (hperm.cons _)

/-- The client in slot `i` is dropped, and the loop goes on with the one moved there. -/
theorem drop (h : Covered inp i n (({ s with calls := calls } : Server).dropClient i) examined s')
    (hguard : 1 ≤ i ∧ i < s.nfds) (hn : i + (n + 1) = s.nfds)
    (hcalls : handovers calls = handovers s.calls)
    (hserve : serveClient inp i s = (({ s with calls := calls } : Server).dropClient i, true)) :
    Covered inp i (n + 1) s ((s.fds i).fd :: examined) s' := by
  obtain ⟨closed, hcl, hperm⟩ := h.kept
  have hmoved := Server.dropClient_perm (s := { s with calls := calls }) hn
  have hback : (if true then i - 1 else i) + 1 = i := by simp; omega
  refine ⟨.body hguard hserve (hback.symm ▸ h.loop), ?_, h.nfds, ?_, ?_, (s.fds i).fd :: closed,
    ?_, ?_⟩
  · exact (h.examined.trans hmoved).cons _
  · intro j hj
    rw [h.before j hj]
    exact Function.update_of_ne (Nat.ne_of_lt hj) _ _
  · intro j
    rw [h.events j]
    by_cases hj : j = i
    · simp [Server.dropClient, hj]
    · simp [Server.dropClient, Function.update_of_ne hj]
  · have hclose : handovers (({ s with calls := calls } : Server).dropClient i).calls =
        handovers s.calls ++ [.closed (s.fds i).fd] := by
      rw [← hcalls]
      simp [Server.dropClient, Server.record, handovers]
    rw [hcl, hclose, List.append_assoc]
    rfl
  · exact (hperm.trans hmoved).cons _

end Covered

/-- The client loop ends, and comes once to every client from slot `i` on. -/
theorem clientLoop_covered (inp : RoundInput) (hi : 1 ≤ i) (hn : i + n = s.nfds) :
    ∃ examined, Covered inp i n s examined (clientLoop inp n i s) := by
  induction n generalizing i s with
  | zero =>
    have hguard : ¬ (1 ≤ i ∧ i < s.nfds) := by omega
    have hslots : s.slots i (s.nfds - i) = s.slots i 0 := by rw [← hn]; simp
    exact ⟨[], .exit hguard, .refl _, by simp only [clientLoop]; omega, fun _ _ => rfl,
      fun _ => rfl, [], (List.append_nil _).symm, by simp [clientLoop, hslots]⟩
  | succ n ih =>
    have hguard : 1 ≤ i ∧ i < s.nfds := ⟨hi, by omega⟩
    obtain ⟨calls, hcalls, hserve | hserve⟩ := serveClient_cases inp i s
    · obtain ⟨examined, hrest⟩ := ih (i := i + 1) (s := { s with calls := calls }) (by omega)
        (by simp only; omega)
      refine ⟨(s.fds i).fd :: examined, ?_⟩
      have hstep : clientLoop inp (n + 1) i s =
          clientLoop inp n (i + 1) { s with calls := calls } := by
        simp [clientLoop, hguard, hserve]
      rw [hstep]
      exact hrest.stay hguard hcalls hserve
    · obtain ⟨examined, hrest⟩ := ih (i := i)
        (s := ({ s with calls := calls } : Server).dropClient i) hi
        (by simp only [Server.dropClient, Server.record]; omega)
      refine ⟨(s.fds i).fd :: examined, ?_⟩
      have hback : i - 1 + 1 = i := by omega
      have hstep : clientLoop inp (n + 1) i s =
          clientLoop inp n i (({ s with calls := calls } : Server).dropClient i) := by
        simp [clientLoop, hguard, hserve, hback]
      rw [hstep]
      exact hrest.drop hguard hn hcalls hserve

/-! ## Rounds -/

/-- The state in which the client loop of a round starts, if the round comes to it. -/
def loopStart (inp : RoundInput) (s : Server) : Option Server :=
  inp.poll.bind fun revents =>
    let s := s.poll revents
    if (s.fds 0).revents.has pollIn then inp.accept.map fun fd => s.addClient fd else some s

theorem round_eq (inp : RoundInput) (s : Server) (revents : Nat → Events)
    (hpoll : inp.poll = some revents) :
    round inp s = some (match loopStart inp s with
      | none => s.poll revents
      | some t => clientLoop inp (t.nfds - 1) 1 t) := by
  simp only [round, loopStart, hpoll, Option.map_some, Option.bind_some]
  cases hready : ((s.poll revents).fds 0).revents.has pollIn with
  | false => rfl
  | true =>
    cases haccept : inp.accept with
    | none => rfl
    | some fd => rfl

namespace Server

/-- The table at a loop top, with the listening socket in slot 0. -/
structure Listening (sockServer : Nat) (s : Server) : Prop where
  table : s.Table
  listener : (s.fds 0).fd = sockServer
  isOpen : (sockServer : Int) ∈ s.openFds
  other : (sockServer : Int) ∉ s.clients
  events : ∀ j, 1 ≤ j → j < s.nfds → (s.fds j).events = pollIn

namespace Listening

variable {sockServer : Nat}

theorem poll (h : s.Listening sockServer) (revents : Nat → Events) :
    (s.poll revents).Listening sockServer := by
  refine ⟨h.table.poll revents, (poll_fd s revents 0).trans h.listener, h.isOpen,
    (poll_clients s revents).symm ▸ h.other, ?_⟩
  intro j h1 hj
  have hevents : ((s.poll revents).fds j).events = (s.fds j).events := by
    simp only [Server.poll]
    split <;> rfl
  exact hevents.trans (h.events j h1 hj)

theorem addClient (h : s.Listening sockServer) {fd : Nat} (hfd : (fd : Int) ∉ s.openFds) :
    (s.addClient fd).Listening sockServer := by
  have hpos := h.table.pos
  by_cases hroom : s.nfds < maxConnection
  · obtain ⟨htable, -⟩ := h.table.addClient hfd hroom
    have hclients := h.table.addClient_clients hfd hroom
    have hne : (sockServer : Int) ≠ fd := fun he => hfd (he ▸ h.isOpen)
    refine ⟨htable, ?_, ?_, ?_, ?_⟩
    · simpa [Server.addClient, record, hroom, Function.update_of_ne (Nat.ne_of_lt hpos)]
        using h.listener
    · simpa [Server.addClient, record, hroom] using Or.inr h.isOpen
    · rw [hclients]
      simpa [hne] using h.other
    · intro j h1 hj
      by_cases hlast : j = s.nfds
      · simp [Server.addClient, record, hroom, hlast]
      · have hlt : j < s.nfds := by
          have hj' : j < s.nfds + 1 := by simpa [Server.addClient, record, hroom] using hj
          omega
        simpa [Server.addClient, record, hroom, Function.update_of_ne hlast]
          using h.events j h1 hlt
  · obtain ⟨htable, hnfds, hfds⟩ := h.table.addClient_full fd hroom
    have hclients : (s.addClient fd).clients = s.clients := by rw [clients, clients, hfds, hnfds]
    refine ⟨htable, hfds ▸ h.listener, ?_, hclients ▸ h.other, ?_⟩
    · simpa [Server.addClient, record, hroom] using Or.inr h.isOpen
    · rw [hfds, hnfds]
      exact h.events

theorem clientLoop (h : t.Listening sockServer) (inp : RoundInput) :
    (clientLoop inp (t.nfds - 1) 1 t).Listening sockServer := by
  have hpos := h.table.pos
  have hscanned := clientLoop_spec inp (s := t) (i := 1) (n := t.nfds - 1) le_rfl (by omega)
  obtain ⟨examined, hcovered⟩ := clientLoop_covered inp (s := t) (i := 1) (n := t.nfds - 1) le_rfl
    (by omega)
  obtain ⟨htable, -⟩ := h.table.clientLoop inp
  generalize PollServer.clientLoop inp (t.nfds - 1) 1 t = t' at hscanned hcovered htable ⊢
  have hsub := swapScan_kept_subperm inp.leaves (t.slots 1 (t.nfds - 1))
  rw [← clients_eq] at hsub
  have hclients : t'.clients = (swapScan inp.leaves (t.slots 1 (t.nfds - 1))).2 := by
    rw [clients_eq, hscanned.kept]
  have hlen := hsub.length_le
  have hcount : t.clients.length = t.nfds - 1 := by simp [clients]
  have hnfds := hscanned.nfds
  refine ⟨htable, ?_, ?_, ?_, ?_⟩
  · rw [hcovered.before 0 Nat.one_pos, h.listener]
  · apply hscanned.isOpen _ _ h.isOpen
    · rw [← clients_eq]
      exact fun hmem => absurd hmem h.other
    · rw [← clients_eq]
      exact h.table.nodup
  · rw [hclients]
    exact fun hmem => h.other (hsub.subset hmem)
  · intro j h1 hj
    rw [hcovered.events j]
    exact h.events j h1 (by omega)

theorem loopStart (h : s.Listening sockServer)
    (hfresh : ∀ fd, inp.accept = some fd → (fd : Int) ∉ s.openFds)
    (ht : loopStart inp s = some t) : t.Listening sockServer := by
  obtain ⟨revents, -, hstart⟩ := Option.bind_eq_some_iff.1 ht
  dsimp only at hstart
  split at hstart
  · obtain ⟨fd, haccept, rfl⟩ := Option.map_eq_some_iff.1 hstart
    exact (h.poll revents).addClient (hfresh fd haccept)
  · cases hstart
    exact h.poll revents

theorem round (h : s.Listening sockServer) (hround : Round s inp s') :
    s'.Listening sockServer := by
  obtain ⟨hfresh, hround⟩ := hround
  cases hpoll : inp.poll with
  | none => simp [PollServer.round, hpoll] at hround
  | some revents =>
    rw [round_eq inp s revents hpoll] at hround
    obtain rfl := Option.some.inj hround
    cases ht : PollServer.loopStart inp s with
    | none => exact h.poll revents
    | some t => exact (h.loopStart hfresh ht).clientLoop inp

end Listening

end Server

theorem startUp_listening {sockServer : Nat} {openFds : Finset Int}
    (h : (sockServer : Int) ∈ openFds) : (startUp sockServer openFds).Listening sockServer := by
  refine ⟨Start.table ⟨sockServer, openFds, h, rfl⟩, by simp [startUp], h, ?_, ?_⟩
  · simp [startUp, Server.clients]
  · intro j h1 hj
    simp only [startUp] at hj
    omega

theorem closed_mem_handovers {calls : List Call} {fd : Int} :
    .closed fd ∈ handovers calls ↔ .close fd ∈ calls := by
  rw [handovers, List.mem_filterMap]
  constructor
  · rintro ⟨call, hmem, hfd⟩
    cases call <;> cases hfd
    exact hmem
  · exact fun hmem => ⟨_, hmem, rfl⟩

theorem addClient_handovers (s : Server) (fd : Nat) :
    handovers (s.addClient fd).calls = handovers s.calls ++ [.given (fd : Int)] := by
  rw [Server.addClient_calls]
  simp [handovers]

/-- Before the client loop of a round nothing is closed. -/
theorem closed_notMem_loopStart (h : loopStart inp s = some t) (fd : Int) :
    .closed fd ∉ handovers t.calls := by
  obtain ⟨revents, -, hstart⟩ := Option.bind_eq_some_iff.1 h
  dsimp only at hstart
  split at hstart
  · obtain ⟨g, -, rfl⟩ := Option.map_eq_some_iff.1 hstart
    rw [addClient_handovers]
    simp [Server.poll, handovers]
  · cases hstart
    simp [Server.poll, handovers]

/-- What is left of a list without the entries of one part of it. -/
theorem perm_filter_of_append_perm {l a b : List Int} (h : (a ++ b).Perm l) (hl : l.Nodup) :
    b.Perm (l.filter (· ∉ a)) := by
  have hnodup := h.nodup_iff.2 hl
  rw [List.nodup_append] at hnodup
  obtain ⟨-, hb, hdisj⟩ := hnodup
  apply (List.perm_ext_iff_of_nodup hb (hl.filter _)).2
  intro x
  rw [List.mem_filter, ← h.mem_iff, List.mem_append]
  constructor
  · exact fun hx => ⟨.inr hx, by simpa using fun ha => hdisj x ha x hx rfl⟩
  · rintro ⟨hx | hx, hnot⟩
    · simp [hx] at hnot
    · exact hx

/-- In every reachable state slot 0 holds the listening socket, and the slots
behind it hold distinct clients that are open and polled for input. When a round
comes to its client loop, the loop ends, it examines every client once, and it
leaves the clients in the table that it has not closed. -/
theorem clients_covered {sockServer : Nat} {openFds : Finset Int} {rounds : List RoundInput}
    (hlisten : (sockServer : Int) ∈ openFds)
    (hrun : Run Round (startUp sockServer openFds) rounds s) :
    ((s.fds 0).fd = sockServer ∧ 1 ≤ s.nfds ∧ s.nfds ≤ maxConnection ∧ s.clients.Nodup ∧
      (∀ fd ∈ s.clients, fd ∈ s.openFds ∧ fd ≠ sockServer) ∧
      ∀ j, 1 ≤ j → j < s.nfds → (s.fds j).events = pollIn) ∧
    ∀ inp s' t, Round s inp s' → loopStart inp s = some t →
      ∃ examined, Loop inp 1 t examined s' ∧ examined.Nodup ∧ examined.Perm t.clients ∧
        s'.clients.Perm (t.clients.filter fun fd => .close fd ∉ s'.calls) := by
  have h : s.Listening sockServer := hrun.invariant (I := Server.Listening sockServer)
    (fun _ _ _ ht hround => ht.round hround) (startUp_listening hlisten)
  refine ⟨⟨h.listener, h.table.pos, h.table.bound, h.table.nodup, ?_, h.events⟩, ?_⟩
  · intro fd hfd
    exact ⟨h.table.isOpen fd hfd, fun he => h.other (he ▸ hfd)⟩
  · intro inp s' t hround ht
    obtain ⟨revents, hpoll, -⟩ := Option.bind_eq_some_iff.1 ht
    have htable := (h.loopStart hround.1 ht).table
    have hpos := htable.pos
    obtain ⟨examined, hcovered⟩ := clientLoop_covered inp (s := t) (i := 1) (n := t.nfds - 1) le_rfl
      (by omega)
    have hend := hround.2
    rw [round_eq inp s revents hpoll, ht] at hend
    have hend' : clientLoop inp (t.nfds - 1) 1 t = s' := Option.some.inj hend
    rw [hend'] at hcovered
    have hexamined := hcovered.examined
    rw [← Server.clients_eq] at hexamined
    refine ⟨examined, hcovered.loop, hexamined.nodup_iff.2 htable.nodup, hexamined, ?_⟩
    obtain ⟨closed, hcalls, hperm⟩ := hcovered.kept
    rw [← Server.clients_eq, ← Server.clients_eq] at hperm
    have hmem : ∀ fd, .close fd ∈ s'.calls ↔ fd ∈ closed := fun fd => by
      rw [← closed_mem_handovers, hcalls, List.mem_append,
        or_iff_right (closed_notMem_loopStart ht fd)]
      simp
    simpa only [hmem] using perm_filter_of_append_perm hperm htable.nodup

/-- Two clients connect, and leave in one round: the second one is moved to the
slot of the first, and the loop comes to it there. -/
theorem clients_covered_two : ∃ (s t s' : Server) (rounds : List RoundInput) (inp : RoundInput),
    Run Round (startUp 3 {3}) rounds s ∧ loopStart inp s = some t ∧ t.clients = [4, 5] ∧
      ∃ examined, Loop inp 1 t examined s' ∧ examined.Perm t.clients ∧ s'.clients = [] := by
  let connect (fd : Nat) : RoundInput :=
    ⟨some fun i => if i = 0 then pollIn else 0, some fd, fun _ => .data [] (by decide),
      fun _ => .sent 1⟩
  let leave : RoundInput :=
    ⟨some fun i => if i = 0 then 0 else pollIn, none, fun _ => .data [] (by decide),
      fun _ => .sent 1⟩
  have hrun : (round (connect 4) (startUp 3 {3}) >>= fun s₁ => round (connect 5) s₁ >>= fun s₂ =>
      round leave s₂ >>= fun s₃ => (loopStart leave s₂).map fun t => decide (
        (5 : Int) ∉ s₁.openFds ∧ t.clients = [4, 5] ∧ s₃.clients = [])) = some true := by
    decide +kernel
  obtain ⟨s₁, hfirst, hrest⟩ := Option.bind_eq_some_iff.1 hrun
  obtain ⟨s₂, hsecond, hrest⟩ := Option.bind_eq_some_iff.1 hrest
  obtain ⟨s₃, hthird, hrest⟩ := Option.bind_eq_some_iff.1 hrest
  obtain ⟨t, ht, hfacts⟩ := Option.map_eq_some_iff.1 hrest
  obtain ⟨hfresh, hclients, hnone⟩ := of_decide_eq_true hfacts
  have hround₁ : Round (startUp 3 {3}) (connect 4) s₁ := by
    refine ⟨?_, hfirst⟩
    rintro _ ⟨rfl⟩
    decide
  have hround₂ : Round s₁ (connect 5) s₂ := by
    refine ⟨?_, hsecond⟩
    rintro _ ⟨rfl⟩
    exact hfresh
  have hround₃ : Round s₂ leave s₃ := ⟨by simp [leave], hthird⟩
  have hconnected : Run Round (startUp 3 {3}) [connect 4, connect 5] s₂ :=
    .cons hround₁ (.single hround₂)
  obtain ⟨examined, hloop, -, hexamined, -⟩ :=
    (clients_covered (by decide) hconnected).2 leave s₃ t
      hround₃ ht
  exact ⟨s₂, t, s₃, _, leave, hconnected, ht, hclients, examined, hloop, hexamined, hnone⟩

end LinuxNet.PollServer
