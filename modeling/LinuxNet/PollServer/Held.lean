-- SUMMARY: When the poll server has every accepted descriptor in its table or has closed it.
import LinuxNet.PollServer.Coverage

/-! # Accepted descriptors of the poll server -/

namespace LinuxNet.PollServer

variable {s s' t : Server} {inp : RoundInput} {held : Finset Int}

/-- The clients in the table, as a set. -/
def Server.tracked (s : Server) : Finset Int := s.clients.toFinset

/-- If accept returns a client, there is room for it in the table. -/
def RoundInput.HasRoom (inp : RoundInput) (s : Server) : Prop :=
  ∀ revents ∈ inp.poll, (revents 0).has pollIn → inp.accept ≠ none → s.nfds < maxConnection

namespace Server

/-- The client loop takes what it closes out of the table, so that it loses
track of nothing. -/
theorem Table.held_clientLoop (h : t.Table) (inp : RoundInput) :
    (heldAfter held (handovers (PollServer.clientLoop inp (t.nfds - 1) 1 t).calls) ⊆
      (PollServer.clientLoop inp (t.nfds - 1) 1 t).tracked ↔
        heldAfter held (handovers t.calls) ⊆ t.tracked) := by
  have hpos := h.pos
  obtain ⟨examined, hcovered⟩ := clientLoop_covered inp (s := t) (i := 1) (n := t.nfds - 1) le_rfl
    (by omega)
  obtain ⟨closed, hcalls, hperm⟩ := hcovered.kept
  generalize PollServer.clientLoop inp (t.nfds - 1) 1 t = t' at hcalls hperm ⊢
  rw [← clients_eq, ← clients_eq] at hperm
  have hclients : ∀ fd, fd ∈ t.clients ↔ fd ∈ closed ∨ fd ∈ t'.clients := fun fd => by
    rw [← hperm.mem_iff, List.mem_append]
  have hdisj : ∀ fd ∈ t'.clients, fd ∉ closed := fun fd hfd hmem =>
    (List.nodup_append.1 (hperm.nodup_iff.2 h.nodup)).2.2 fd hmem fd hfd rfl
  rw [hcalls, heldAfter_append]
  simp only [Finset.subset_iff, mem_heldAfter_map_closed, tracked, List.mem_toFinset, hclients]
  constructor
  · intro hall fd hfd
    by_cases hmem : fd ∈ closed
    · exact .inl hmem
    · exact .inr (hall ⟨hfd, hmem⟩)
  · rintro hall fd ⟨hfd, hmem⟩
    exact (hall hfd).resolve_left hmem

/-- A round tracks what is held exactly if it has room for the client that
accept returns. -/
theorem Table.held_round (h : s.Table) (hround : Round s inp s') (hheld : held ⊆ s.tracked) :
    heldAfter held (handovers s'.calls) ⊆ s'.tracked ↔ inp.HasRoom s := by
  obtain ⟨hfresh, hround⟩ := hround
  obtain ⟨revents, hpoll, rfl⟩ := Option.map_eq_some_iff.1 hround
  have htable := h.poll revents
  have hclients := poll_clients s revents
  have hstart : heldAfter held (handovers (s.poll revents).calls) ⊆ (s.poll revents).tracked := by
    rw [tracked, hclients]
    exact hheld
  have hcond : inp.HasRoom s ↔
      ((revents 0).has pollIn → inp.accept ≠ none → s.nfds < maxConnection) :=
    forall_reported_iff hpoll
  rw [hcond]
  simp only [h.poll_listener]
  cases hready : (revents 0).has pollIn with
  | false =>
    simp only [Bool.false_eq_true, if_false]
    exact iff_of_true ((htable.held_clientLoop inp).2 hstart) (by simp)
  | true =>
    cases haccept : inp.accept with
    | none => exact iff_of_true hstart (by simp)
    | some fd =>
      simp only [if_true]
      have hnew : (fd : Int) ∉ (s.poll revents).openFds := hfresh fd haccept
      by_cases hroom : s.nfds < maxConnection
      · refine iff_of_true ?_ (by simp [hroom])
        obtain ⟨hadded, -⟩ := htable.addClient hnew hroom
        rw [hadded.held_clientLoop, addClient_handovers, heldAfter_given, tracked,
          htable.addClient_clients hnew hroom, hclients]
        intro g hg
        rcases Finset.mem_insert.1 hg with rfl | hg
        · simp
        · exact List.mem_toFinset.2 (List.mem_append_left _ (List.mem_toFinset.1 (hheld hg)))
      · refine iff_of_false ?_ (by simp [hroom])
        obtain ⟨hadded, hnfds, hfds⟩ := htable.addClient_full fd hroom
        rw [hadded.held_clientLoop, addClient_handovers, heldAfter_given]
        -- the new client is held, and not in the table
        intro hsub
        have hmem := hsub (Finset.mem_insert_self (fd : Int) _)
        rw [tracked, clients, hnfds, hfds, ← clients, hclients, List.mem_toFinset] at hmem
        exact hnew (h.isOpen _ hmem)

end Server

/-- A round, and what it makes of the accepted descriptors that are not closed. -/
def HoldingRound := Holding Round fun s => handovers s.calls

end LinuxNet.PollServer
