-- SUMMARY: When the poll server calls recv only on clients that poll reported, in every round of a run.
import LinuxNet.Base.Transition
import LinuxNet.PollServer.ClientLoop

/-! # Readiness in the poll server

`revents` belongs to a slot, and a client that is moved to the slot of a
dropped one, or accepted into a slot that was used before, is taken for ready
by what poll said about another client. The scan of the table says exactly when
that happens. -/

namespace LinuxNet.PollServer

variable {s s' : Server} {inp : RoundInput}

/-- Whether `revents` reports POLLIN for the client `fd`. -/
def Server.reported (s : Server) (revents : Nat → Events) (fd : Int) : Bool :=
  (List.range' 1 (s.nfds - 1)).any fun j => decide ((s.fds j).fd = fd) && (revents j).has pollIn

/-! ## Rounds -/

/-- The table of a reachable state. The slots below `nfds` are inside the
array, and the clients in them are open and pairwise distinct. -/
structure Server.Table (s : Server) : Prop where
  pos : 1 ≤ s.nfds
  bound : s.nfds ≤ maxConnection
  listener : 0 ≤ (s.fds 0).fd
  nodup : s.clients.Nodup
  isOpen : ∀ fd ∈ s.clients, fd ∈ s.openFds
  nonneg : ∀ fd ∈ s.clients, 0 ≤ fd

/-- Every recv of the round is on a client that its poll reported. -/
def RecvsReported (inp : RoundInput) (s s' : Server) : Prop :=
  ∀ revents ∈ inp.poll, ∀ fd ∈ recvs s'.calls, s.reported revents fd

instance : Decidable (RecvsReported inp s s') :=
  inferInstanceAs (Decidable (∀ revents ∈ inp.poll, _))

/-- The rounds in which the server receives from reported clients only. When
accept fails there is no recv. When a client is added, its slot must not have
POLLIN from an earlier client, and no reported client may leave. Otherwise the
reported clients that leave must be backed by the last ones in the table. -/
def RoundInput.Safe (inp : RoundInput) (s : Server) : Prop :=
  ∀ revents ∈ inp.poll,
    if (revents 0).has pollIn ∧ inp.accept = none then True
    else if (revents 0).has pollIn ∧ s.nfds < maxConnection then
      (s.fds s.nfds).revents.has pollIn = false ∧
        ∀ fd ∈ s.clients, s.reported revents fd → inp.leaves fd = false
    else Backed (s.reported revents) inp.leaves s.clients

instance : Decidable (inp.Safe s) :=
  inferInstanceAs (Decidable (∀ revents ∈ inp.poll, _))

namespace Server

theorem clients_eq (s : Server) : s.clients = (s.slots 1 (s.nfds - 1)).map Prod.fst := by
  rw [clients, slots, List.map_map]
  rfl

theorem mem_clients {j : Nat} (h1 : 1 ≤ j) (hj : j < s.nfds) : (s.fds j).fd ∈ s.clients :=
  List.mem_map.2 ⟨j, List.mem_range'_1.2 ⟨h1, by omega⟩, rfl⟩

/-- After poll every slot has its own client's flag. -/
theorem Table.poll_slots (h : s.Table) (revents : Nat → Events) :
    (s.poll revents).slots 1 (s.nfds - 1) =
      s.clients.map fun fd => (fd, s.reported revents fd) := by
  rw [slots, clients, List.map_map]
  apply List.map_congr_left
  intro j hj
  have hj' := List.mem_range'_1.1 hj
  have hlt : j < s.nfds := by omega
  have hfd : ¬ (s.fds j).fd < 0 := not_lt.2 (h.nonneg _ (mem_clients hj'.1 hlt))
  have hreported : s.reported revents (s.fds j).fd = (revents j).has pollIn := by
    rw [Bool.eq_iff_iff, reported, List.any_eq_true]
    constructor
    · rintro ⟨i, hi, hany⟩
      obtain ⟨hfd', hready⟩ := Bool.and_eq_true_iff.1 hany
      rwa [List.inj_on_of_nodup_map h.nodup hi hj (of_decide_eq_true hfd')] at hready
    · exact fun hready => ⟨j, hj, by simp [hready]⟩
  simp [poll, hlt, PollFd.report, hfd, hreported]

theorem reported_eq_false {revents : Nat → Events} {fd : Int} (h : fd ∉ s.clients) :
    s.reported revents fd = false := by
  rw [reported, List.any_eq_false]
  intro j hj hany
  exact h (List.mem_map.2 ⟨j, hj, of_decide_eq_true (Bool.and_eq_true_iff.1 hany).1⟩)

/-- The loop over the clients from a state `t` whose table is right. -/
theorem Table.clientLoop {t : Server} (h : t.Table) (inp : RoundInput) :
    (clientLoop inp (t.nfds - 1) 1 t).Table ∧
      recvs (PollServer.clientLoop inp (t.nfds - 1) 1 t).calls =
        recvs t.calls ++ (swapScan inp.leaves (t.slots 1 (t.nfds - 1))).1 := by
  have hpos := h.pos
  have hscanned := clientLoop_spec inp (s := t) (i := 1) (n := t.nfds - 1) le_rfl (by omega)
  generalize PollServer.clientLoop inp (t.nfds - 1) 1 t = t' at hscanned ⊢
  have hsub := swapScan_kept_subperm inp.leaves (t.slots 1 (t.nfds - 1))
  rw [← clients_eq] at hsub
  have hclients : t'.clients = (swapScan inp.leaves (t.slots 1 (t.nfds - 1))).2 := by
    rw [clients_eq, hscanned.kept]
  have hnfds := hscanned.nfds
  have hlen := hsub.length_le
  refine ⟨⟨by omega, ?_, ?_, ?_, ?_, ?_⟩, hscanned.recvs⟩
  · have hbound := h.bound
    have hcount : t.clients.length = t.nfds - 1 := by simp [clients]
    omega
  · rw [hscanned.before 0 Nat.one_pos]
    exact h.listener
  · obtain ⟨l, hperm, hsublist⟩ := hsub
    rw [hclients]
    exact hperm.nodup_iff.1 (h.nodup.sublist hsublist)
  · intro fd hfd
    rw [hclients] at hfd
    refine hscanned.isOpen ?_ fd (h.isOpen fd (hsub.subset hfd)) fun _ => hfd
    rw [← clients_eq]
    exact h.nodup
  · intro fd hfd
    rw [hclients] at hfd
    exact h.nonneg fd (hsub.subset hfd)

theorem poll_fd (s : Server) (revents : Nat → Events) (j : Nat) :
    ((s.poll revents).fds j).fd = (s.fds j).fd := by
  simp only [Server.poll]
  split <;> rfl

theorem poll_clients (s : Server) (revents : Nat → Events) :
    (s.poll revents).clients = s.clients := by
  simp only [clients, poll_fd]
  rfl

theorem Table.poll (h : s.Table) (revents : Nat → Events) : (s.poll revents).Table := by
  refine ⟨h.pos, h.bound, by rw [poll_fd]; exact h.listener, ?_, ?_, ?_⟩ <;> rw [poll_clients]
  · exact h.nodup
  · exact h.isOpen
  · exact h.nonneg

theorem Table.poll_listener (h : s.Table) (revents : Nat → Events) :
    ((s.poll revents).fds 0).revents = revents 0 := by
  have hpos : 0 < s.nfds := h.pos
  simp [Server.poll, hpos, PollFd.report, not_lt.2 h.listener]

/-- A new client with room in the table. -/
theorem Table.addClient (h : s.Table) {fd : Nat} (hfd : (fd : Int) ∉ s.openFds)
    (hroom : s.nfds < maxConnection) :
    (s.addClient fd).Table ∧ (s.addClient fd).slots 1 ((s.addClient fd).nfds - 1) =
      s.slots 1 (s.nfds - 1) ++ [((fd : Int), (s.fds s.nfds).revents.has pollIn)] := by
  have hpos := h.pos
  have hnfds : (s.addClient fd).nfds = s.nfds + 1 := by simp [Server.addClient, record, hroom]
  have hold : ∀ j < s.nfds, (s.addClient fd).fds j = s.fds j := fun j hj => by
    simp [Server.addClient, record, hroom, Function.update_of_ne (Nat.ne_of_lt hj)]
  have hnew : (s.addClient fd).fds s.nfds = { s.fds s.nfds with fd := fd, events := pollIn } := by
    simp [Server.addClient, record, hroom]
  have hopen : (s.addClient fd).openFds = insert (fd : Int) s.openFds := by
    simp [Server.addClient, record, hroom]
  have hslots : (s.addClient fd).slots 1 ((s.addClient fd).nfds - 1) =
      s.slots 1 (s.nfds - 1) ++ [((fd : Int), (s.fds s.nfds).revents.has pollIn)] := by
    have hcount : (s.addClient fd).nfds - 1 = (s.nfds - 1) + 1 := by omega
    have hlast : 1 + (s.nfds - 1) = s.nfds := by omega
    have hslots : (s.addClient fd).slots 1 (s.nfds - 1) = s.slots 1 (s.nfds - 1) :=
      slots_congr fun j _ hj => hold j (by omega)
    rw [hcount, slots_concat, hlast, hnew, hslots]
  have hclients : (s.addClient fd).clients = s.clients ++ [(fd : Int)] := by
    rw [clients_eq, hslots, List.map_append, ← clients_eq]
    rfl
  refine ⟨⟨by omega, by omega, ?_, ?_, ?_, ?_⟩, hslots⟩
  · rw [hold 0 hpos]
    exact h.listener
  · rw [hclients, List.nodup_append]
    refine ⟨h.nodup, List.nodup_singleton _, fun a ha b hb hab => hfd ?_⟩
    rw [← List.mem_singleton.1 hb, ← hab]
    exact h.isOpen a ha
  · rw [hclients, hopen]
    intro g hg
    rcases List.mem_append.1 hg with hg | hg
    · exact Finset.mem_insert_of_mem (h.isOpen g hg)
    · rw [List.mem_singleton.1 hg]
      exact Finset.mem_insert_self _ _
  · rw [hclients]
    intro g hg
    rcases List.mem_append.1 hg with hg | hg
    · exact h.nonneg g hg
    · rw [List.mem_singleton.1 hg]
      exact Int.natCast_nonneg fd

theorem Table.addClient_clients (h : s.Table) {fd : Nat} (hfd : (fd : Int) ∉ s.openFds)
    (hroom : s.nfds < maxConnection) : (s.addClient fd).clients = s.clients ++ [(fd : Int)] := by
  rw [clients_eq, (h.addClient hfd hroom).2, List.map_append, ← clients_eq]
  rfl

/-- A new client with no room in the table is left out of it. -/
theorem Table.addClient_full (h : s.Table) (fd : Nat) (hfull : ¬ s.nfds < maxConnection) :
    (s.addClient fd).Table ∧ (s.addClient fd).nfds = s.nfds ∧ (s.addClient fd).fds = s.fds := by
  have heq : s.addClient fd =
      { s.record (.accept fd) with openFds := insert (fd : Int) s.openFds } := by
    simp [Server.addClient, record, hfull]
  rw [heq]
  exact ⟨⟨h.pos, h.bound, h.listener, h.nodup,
    fun g hg => Finset.mem_insert_of_mem (h.isOpen g hg), h.nonneg⟩, rfl, rfl⟩

end Server

theorem Server.addClient_calls (s : Server) (fd : Nat) :
    (s.addClient fd).calls = s.calls ++ [.accept fd] := by
  unfold Server.addClient
  dsimp only
  split <;> rfl

theorem Server.addClient_recvs (s : Server) (fd : Nat) :
    recvs (s.addClient fd).calls = recvs s.calls := by
  rw [Server.addClient_calls]
  simp [recvs]

/-- The loop over the clients of `s`, each with its own flag. -/
theorem Server.Table.clientLoop_reported {t : Server} (ht : t.Table) (inp : RoundInput)
    {revents : Nat → Events} (hcalls : recvs t.calls = [])
    (hslots : t.slots 1 (t.nfds - 1) = s.clients.map fun fd => (fd, s.reported revents fd)) :
    (PollServer.clientLoop inp (t.nfds - 1) 1 t).Table ∧
      ((∀ fd ∈ recvs (PollServer.clientLoop inp (t.nfds - 1) 1 t).calls, s.reported revents fd) ↔
        Backed (s.reported revents) inp.leaves s.clients) := by
  obtain ⟨htable, hrecvs⟩ := ht.clientLoop inp
  refine ⟨htable, ?_⟩
  rw [hrecvs, hcalls, List.nil_append, hslots]
  exact swapScan_flagged_iff s.clients

/-- The loop over the clients of `s` and a new one, whose slot has the flag of an
earlier client. -/
theorem Server.Table.clientLoop_added (h : s.Table) (inp : RoundInput) {revents : Nat → Events}
    {fd : Nat} (hfd : (fd : Int) ∉ s.openFds) (hroom : s.nfds < maxConnection) :
    let t := (s.poll revents).addClient fd
    (PollServer.clientLoop inp (t.nfds - 1) 1 t).Table ∧
      ((∀ g ∈ recvs (PollServer.clientLoop inp (t.nfds - 1) 1 t).calls, s.reported revents g) ↔
        (s.fds s.nfds).revents.has pollIn = false ∧
          ∀ g ∈ s.clients, s.reported revents g → inp.leaves g = false) := by
  obtain ⟨htable, hadded⟩ := (h.poll revents).addClient hfd hroom
  obtain ⟨htable', hrecvs⟩ := htable.clientLoop inp
  have hnone : recvs ((s.poll revents).addClient fd).calls = [] := by
    rw [Server.addClient_recvs]
    rfl
  have hnew : s.reported revents fd = false :=
    Server.reported_eq_false fun hmem => hfd (h.isOpen _ hmem)
  have hstale : ((s.poll revents).fds (s.poll revents).nfds).revents = (s.fds s.nfds).revents := by
    simp [Server.poll]
  refine ⟨htable', ?_⟩
  rw [hrecvs, hnone, List.nil_append, hadded, hstale, show (s.poll revents).nfds = s.nfds from rfl,
    h.poll_slots revents]
  cases hflag : (s.fds s.nfds).revents.has pollIn with
  | true =>
    refine iff_of_false (fun hall => ?_) (by simp)
    have hfalse := hall fd (swapScan_flagged_mem (by simp))
    rw [hnew] at hfalse
    cases hfalse
  | false =>
    have hlist : s.clients.map (fun g => (g, s.reported revents g)) ++ [((fd : Int), false)] =
        (s.clients ++ [(fd : Int)]).map fun g => (g, s.reported revents g) := by
      simp [hnew]
    rw [hlist, swapScan_flagged_iff, backed_concat hnew]
    simp

/-- A round keeps the table right, and its recvs are on reported clients
exactly if the round is safe. -/
theorem round_spec (h : s.Table) (hfresh : ∀ fd, inp.accept = some fd → (fd : Int) ∉ s.openFds)
    (hround : round inp s = some s') :
    s'.Table ∧ (RecvsReported inp s s' ↔ inp.Safe s) := by
  obtain ⟨revents, hpoll, rfl⟩ := Option.map_eq_some_iff.1 hround
  have ht := h.poll revents
  have hslots := h.poll_slots revents
  have hlistener := h.poll_listener revents
  have hlaw : ∀ t, RecvsReported inp s t ↔
      ∀ fd ∈ recvs t.calls, s.reported revents fd := fun t => forall_reported_iff hpoll
  have hsafe : inp.Safe s ↔ if (revents 0).has pollIn ∧ inp.accept = none then True
      else if (revents 0).has pollIn ∧ s.nfds < maxConnection then
        (s.fds s.nfds).revents.has pollIn = false ∧
          ∀ fd ∈ s.clients, s.reported revents fd → inp.leaves fd = false
      else Backed (s.reported revents) inp.leaves s.clients :=
    forall_reported_iff hpoll
  rw [hlaw, hsafe]
  simp only [hlistener]
  cases hready : (revents 0).has pollIn with
  | false =>
    simp only [Bool.false_eq_true, if_false, false_and]
    exact ht.clientLoop_reported inp rfl hslots
  | true =>
    cases haccept : inp.accept with
    | none => exact ⟨ht, by simp [Server.poll, recvs]⟩
    | some fd =>
      simp only [if_true, true_and, reduceCtorEq, if_false]
      by_cases hroom : s.nfds < maxConnection
      · rw [if_pos hroom]
        exact h.clientLoop_added inp (hfresh fd haccept) hroom
      · obtain ⟨htable, hnfds, hfds⟩ := ht.addClient_full fd hroom
        have hnone : recvs ((s.poll revents).addClient fd).calls = [] := by
          rw [Server.addClient_recvs]
          rfl
        rw [if_neg hroom]
        refine htable.clientLoop_reported inp hnone ?_
        rw [hnfds, ← hslots]
        simp only [Server.slots, hfds]
        rfl

/-! ## Runs -/

/-- `run_server` at the first top of its loop, with an open listening socket. -/
def Start (s : Server) : Prop :=
  ∃ (sockServer : Nat) (openFds : Finset Int), (sockServer : Int) ∈ openFds ∧
    s = startUp sockServer openFds

/-- A round in which poll does not fail, and accept returns a descriptor that
is not open. -/
def Round (s : Server) (inp : RoundInput) (s' : Server) : Prop :=
  (∀ fd, inp.accept = some fd → (fd : Int) ∉ s.openFds) ∧ round inp s = some s'

theorem Start.table (h : Start s) : s.Table := by
  obtain ⟨fd, openFds, -, rfl⟩ := h
  refine ⟨le_rfl, ?_, ?_, ?_, ?_, ?_⟩ <;> simp [startUp, Server.clients, maxConnection]

/-- A run receives from reported clients only, in all of its rounds, exactly if
all of its rounds are safe. -/
theorem recvs_reported_iff {s₀ : Server} {rounds : List RoundInput} (h0 : Start s₀) :
    Run (fun s inp s' => Round s inp s' ∧ RecvsReported inp s s') s₀ rounds s ↔
      Run (fun s inp s' => Round s inp s' ∧ inp.Safe s) s₀ rounds s :=
  Run.iff_of_invariant (fun _ _ _ htable hround => (round_spec htable hround.1 hround.2).2)
    (fun _ _ _ htable hround _ => (round_spec htable hround.1 hround.2).1) h0.table

/-- A client connects, and its request is received in the next round. -/
theorem recvs_reported_iff_one : ∃ s rounds, rounds.length = 2 ∧
    Run (fun s inp s' => Round s inp s' ∧ RecvsReported inp s s') (startUp 3 {3}) rounds s ∧
      recvs s.calls = [4] := by
  let connect : RoundInput :=
    ⟨some fun _ => pollIn, some 4, fun _ => .data [] (by decide), fun _ => .sent 1⟩
  let request : RoundInput :=
    ⟨some fun i => if i = 1 then pollIn else 0, none, fun _ => .data [104, 105] (by decide),
      fun _ => .sent 1⟩
  have hrun : (round connect (startUp 3 {3}) >>= fun s => (round request s).map fun s' =>
      decide (connect.Safe (startUp 3 {3}) ∧ request.Safe s ∧ recvs s'.calls = [4])) =
      some true := by
    decide +kernel
  obtain ⟨s, hfirst, hrest⟩ := Option.bind_eq_some_iff.1 hrun
  obtain ⟨s', hsecond, hfacts⟩ := Option.map_eq_some_iff.1 hrest
  obtain ⟨hsafe, hsafe', hrecvs⟩ := of_decide_eq_true hfacts
  have hstart : Start (startUp 3 {3}) := ⟨3, {3}, by decide, rfl⟩
  have hround : Round (startUp 3 {3}) connect s := by
    refine ⟨?_, hfirst⟩
    rintro _ ⟨rfl⟩
    decide
  have hround' : Round s request s' := ⟨by simp [request], hsecond⟩
  exact ⟨s', [connect, request], rfl, (recvs_reported_iff hstart).2
    (.cons ⟨hround, hsafe⟩ (.single ⟨hround', hsafe'⟩)), hrecvs⟩

/-- The law fails when a client that leaves is not the last in the table: the
one moved to its slot is received from, although poll has not reported it. -/
theorem recvs_not_reported : ¬ ∀ s inp s', Reachable Start Round s → Round s inp s' →
    RecvsReported inp s s' := by
  let connect (fd : Nat) : RoundInput :=
    ⟨some fun i => if i = 0 then pollIn else 0, some fd, fun _ => .data [] (by decide),
      fun _ => .sent 1⟩
  let leave : RoundInput :=
    ⟨some fun i => if i = 1 then pollIn else 0, none, fun _ => .data [] (by decide),
      fun _ => .sent 1⟩
  have hrun : (round (connect 4) (startUp 3 {3}) >>= fun s₁ => round (connect 5) s₁ >>= fun s₂ =>
      (round leave s₂).map fun s₃ => decide ((5 : Int) ∉ s₁.openFds ∧
        ¬ RecvsReported leave s₂ s₃)) = some true := by
    decide +kernel
  obtain ⟨s₁, hfirst, hrest⟩ := Option.bind_eq_some_iff.1 hrun
  obtain ⟨s₂, hsecond, hrest⟩ := Option.bind_eq_some_iff.1 hrest
  obtain ⟨s₃, hthird, hfacts⟩ := Option.map_eq_some_iff.1 hrest
  obtain ⟨hfresh, hnot⟩ := of_decide_eq_true hfacts
  have hround₁ : Round (startUp 3 {3}) (connect 4) s₁ := by
    refine ⟨?_, hfirst⟩
    rintro _ ⟨rfl⟩
    decide
  have hround₂ : Round s₁ (connect 5) s₂ := by
    refine ⟨?_, hsecond⟩
    rintro _ ⟨rfl⟩
    exact hfresh
  have hround₃ : Round s₂ leave s₃ := ⟨by simp [leave], hthird⟩
  have hstart : Start (startUp 3 {3}) := ⟨3, {3}, by decide, rfl⟩
  exact fun hall => hnot (hall s₂ leave s₃ (((Reachable.start hstart).next hround₁).next hround₂)
    hround₃)

end LinuxNet.PollServer
