-- SUMMARY: What every round keeps of the descriptors, whether its calls succeed or fail.
import LinuxNet.TimerServer.Frame
import LinuxNet.TimerServer.Mirror

/-! # Descriptors after failed calls

After a failed accept or timer a connection has a negative descriptor, which it
may share with others. The descriptors that are not negative are open, and each
is one connection's; and poll reports nothing for the negative ones. -/

namespace LinuxNet.TimerServer

variable {s s' : Server} {v : View} {P R S : Stailq Connection} {a : Nat} {c : Connection}
  {inp : RoundInput} {fd : Int}

/-! ## A rule for the pass -/

/-- What the loop body keeps holds after the pass, and the connections behind
those it has come to are still there. -/
theorem View.Mirror.passOver_invariant {I : View → Prop} (input : Nat → ConnInput)
    (hstep : ∀ v P R a c, View.Mirror v → I v → v.conns = P ++ ⟨a, c⟩ :: R →
      I (v.process (input a) a c))
    (hm : v.Mirror) (hv : I v) (hconns : v.conns = P ++ R ++ S) :
    (v.passOver input R).Mirror ∧ I (v.passOver input R) ∧
      ∃ P', (v.passOver input R).conns = P' ++ S := by
  induction R generalizing v P with
  | nil => exact ⟨hm, hv, P, by simpa [View.passOver] using hconns⟩
  | cons n R ih =>
    obtain ⟨a, c⟩ := n
    have hsplit : v.conns = P ++ ⟨a, c⟩ :: (R ++ S) := by simpa using hconns
    obtain ⟨P', hP'⟩ := hm.process_conns hsplit (input a)
    exact ih (hm.process hsplit (input a)).1 (hstep v P (R ++ S) a c hm hv hsplit)
      (hP'.trans (List.append_assoc P' R S).symm)

/-! ## Descriptors poll reports nothing for -/

/-- No entry with descriptor `fd` has an event. -/
def View.Quiet (fd : Int) (v : View) : Prop := ∀ p ∈ v.entries, p.fd = fd → p.revents = 0

theorem mem_clearFirst {g : Int} {L : List PollFd} {p : PollFd} (h : p ∈ clearFirst g L) :
    p ∈ L ∨ ∃ q ∈ L, p = q.clear := by
  unfold clearFirst at h
  split at h
  · exact .inl h
  · rename_i i hi
    obtain ⟨j, hj, rfl⟩ := List.getElem_of_mem h
    rw [List.getElem_modify]
    split
    · exact .inr ⟨_, List.getElem_mem _, rfl⟩
    · exact .inl (List.getElem_mem _)

namespace View.Quiet

theorem eventsOf (h : v.Quiet fd) : v.eventsOf fd = 0 := by
  unfold View.eventsOf
  cases hfind : v.entries.find? (·.fd = fd) with
  | none => rfl
  | some p =>
    have hfd : p.fd = fd := by simpa using List.find?_some hfind
    exact h p (List.mem_of_find?_eq_some hfind) hfd

theorem not_ready (h : v.Quiet c.connFd) : v.socketReady c = false := by
  rw [View.socketReady, h.eventsOf]
  rfl

theorem not_fired (h : v.Quiet c.timerFd) : v.timerReady c = false := by
  rw [View.timerReady, h.eventsOf]
  rfl

/-- Entries that were there, or have been cleared. -/
theorem of_entries {w : View} (h : v.Quiet fd) (hlistener : w.listener = v.listener)
    (hclients : ∀ p ∈ w.clients, p ∈ v.clients ∨ ∃ q ∈ v.clients, p = q.clear) :
    w.Quiet fd := by
  intro p hp hfd
  rcases List.mem_cons.1 hp with rfl | hp
  · rw [hlistener] at hfd ⊢
    exact h _ List.mem_cons_self hfd
  · rcases hclients p hp with hold | ⟨q, -, rfl⟩
    · exact h p (List.mem_cons_of_mem _ hold) hfd
    · rfl

theorem process (h : v.Quiet fd) (input : ConnInput) (a : Nat) (c : Connection) :
    (v.process input a c).Quiet fd := by
  have hserved : (if v.socketReady c then v.serve input c else v).Quiet fd := by
    split
    · exact h.of_entries rfl fun p hp => mem_clearFirst hp
    · exact h
  unfold View.process
  dsimp only
  split
  · exact hserved.of_entries rfl fun p hp => .inl (eraseLast_subset (eraseLast_subset hp))
  · exact hserved

theorem add (h : v.Quiet fd) (a : Nat) (c : Connection) (k : Kernel) : (v.add a c k).Quiet fd := by
  intro p hp hfd
  rcases List.mem_cons.1 hp with rfl | hp
  · exact h _ List.mem_cons_self hfd
  · rcases List.mem_append.1 hp with hp | hp
    · exact h p (List.mem_cons_of_mem _ hp) hfd
    · rcases List.mem_cons.1 hp with rfl | hp
      · rfl
      · rw [List.mem_singleton.1 hp]
        rfl

/-- poll reports nothing for a negative descriptor. -/
theorem poll (hfd : fd < 0) (revents : Nat → Events) (delay : Nat) :
    (v.poll revents delay).Quiet fd := by
  have hreport : ∀ (p : PollFd) (r : Events), p.fd < 0 → (p.report r).revents = 0 :=
    fun p r hp => if_pos hp
  rintro p hp rfl
  rcases List.mem_cons.1 hp with rfl | hp
  · exact hreport _ _ hfd
  · obtain ⟨i, hi, rfl⟩ := List.getElem_of_mem hp
    simp only [View.poll, reported, List.getElem_mapIdx] at hfd ⊢
    exact hreport _ _ hfd

end View.Quiet

/-! ## Descriptors that are not negative -/

/-- A descriptor that is not negative is one connection's at most, and then it
is open. -/
structure View.Apart (v : View) : Prop where
  count : ∀ fd, 0 ≤ fd → (connFds v.conns).count fd ≤ 1
  isOpen : ∀ fd ∈ connFds v.conns, 0 ≤ fd → fd ∈ v.kernel.openFds

theorem count_pair (c : Connection) (fd : Int) :
    ({c.connFd, c.timerFd} : Multiset Int).count fd =
      (if fd = c.connFd then 1 else 0) + if fd = c.timerFd then 1 else 0 := by
  rw [Multiset.insert_eq_cons, Multiset.count_cons, Multiset.count_singleton, Nat.add_comm]

/-- The descriptors of a new connection. -/
theorem newConnection_fresh {k : Kernel} {q : Stailq Connection} (hvalid : Valid inp q k) :
    (0 ≤ (newConnection inp k).1.connFd → (newConnection inp k).1.connFd ∉ k.openFds ∧
      (newConnection inp k).1.connFd ∈ (newConnection inp k).2.openFds) ∧
    (0 ≤ (newConnection inp k).1.timerFd → (newConnection inp k).1.timerFd ∉ k.openFds ∧
      (newConnection inp k).1.timerFd ∈ (newConnection inp k).2.openFds ∧
      (newConnection inp k).1.connFd ≠ (newConnection inp k).1.timerFd) := by
  have hpos : ∀ e : Errno, ¬ (e : Int) ≤ 0 := fun e => not_le.2 e.2
  cases haccept : inp.accept with
  | none =>
    cases htimer : inp.timerfdCreate with
    | none => simp [newConnection, haccept, htimer, Kernel.accept]
    | some t =>
      obtain ⟨hclosed, -⟩ := hvalid.timer t htimer
      cases hsettime : inp.settime with
      | none =>
        simp [newConnection, haccept, htimer, hsettime, Kernel.accept, Kernel.arm, Kernel.record,
          Kernel.opened, Kernel.advance, hclosed]
      | some e =>
        simp [newConnection, haccept, htimer, hsettime, Kernel.accept, hpos]
  | some fd =>
    have hclosed := hvalid.accept fd haccept
    cases htimer : inp.timerfdCreate with
    | none =>
      simp [newConnection, haccept, htimer, Kernel.accept, Kernel.record, Kernel.opened,
        Kernel.advance, hclosed]
    | some t =>
      obtain ⟨htclosed, hne⟩ := hvalid.timer t htimer
      cases hsettime : inp.settime with
      | none =>
        simp [newConnection, haccept, htimer, hsettime, Kernel.accept, Kernel.arm, Kernel.record,
          Kernel.opened, Kernel.advance, hclosed, htclosed]
        rintro rfl
        exact hne haccept
      | some e =>
        simp [newConnection, haccept, htimer, hsettime, Kernel.accept, Kernel.record,
          Kernel.opened, Kernel.advance, hclosed, hpos]

namespace View.Apart

/-- A descriptor of two connections is negative. -/
theorem disjoint (h : v.Apart) (hconns : v.conns = P ++ ⟨a, c⟩ :: R) :
    ∀ n ∈ P ++ R, ∀ fd, n.val.owns fd → c.owns fd → fd < 0 := by
  intro n hn fd hown hown'
  by_contra hfd
  have hcount := h.count fd (not_lt.1 hfd)
  have hmem : fd ∈ connFds (P ++ R) := mem_connFds.2 ⟨n, hn, by simpa [Connection.owns] using hown⟩
  have hpos := Multiset.count_pos.2 hmem
  have hpair : 1 ≤ ({c.connFd, c.timerFd} : Multiset Int).count fd := by
    apply Multiset.count_pos.2
    simpa [Connection.owns] using hown'
  have hsplit : connFds v.conns = connFds P + ({c.connFd, c.timerFd} + connFds R) := by
    rw [hconns, connFds_append, connFds_cons]
  rw [hsplit, Multiset.count_add, Multiset.count_add] at hcount
  rw [connFds_append, Multiset.count_add] at hpos
  omega

theorem poll (h : v.Apart) (revents : Nat → Events) (delay : Nat) : (v.poll revents delay).Apart :=
  ⟨h.count, h.isOpen⟩

theorem add (h : v.Apart) (hvalid : Valid inp v.conns v.kernel) (a : Nat) :
    (v.add a (newConnection inp v.kernel).1 (newConnection inp v.kernel).2).Apart := by
  obtain ⟨hconn, htimer⟩ := newConnection_fresh hvalid
  have hconns : connFds (v.conns.insertTail a (newConnection inp v.kernel).1) = connFds v.conns +
      {(newConnection inp v.kernel).1.connFd, (newConnection inp v.kernel).1.timerFd} := by
    rw [Stailq.insertTail, connFds_append, connFds_cons, connFds_nil, add_zero]
  refine ⟨fun fd hfd => ?_, fun fd hmem hfd => ?_⟩
  · have hold : fd ∉ v.kernel.openFds → (connFds v.conns).count fd = 0 := fun hclosed =>
      Multiset.count_eq_zero.2 fun hmem => hclosed (h.isOpen fd hmem hfd)
    have hcount := h.count fd hfd
    simp only [View.add, hconns, Multiset.count_add, count_pair]
    by_cases h1 : fd = (newConnection inp v.kernel).1.connFd
    · by_cases h2 : fd = (newConnection inp v.kernel).1.timerFd
      · exact absurd (h1.symm.trans h2) (htimer (h2 ▸ hfd)).2.2
      · rw [hold (h1 ▸ (hconn (h1 ▸ hfd)).1), if_pos h1, if_neg h2]
    · by_cases h2 : fd = (newConnection inp v.kernel).1.timerFd
      · rw [hold (h2 ▸ (htimer (h2 ▸ hfd)).1), if_neg h1, if_pos h2]
      · rw [if_neg h1, if_neg h2]
        exact hcount
  · simp only [View.add, hconns, Multiset.mem_add] at hmem
    rcases hmem with hmem | hmem
    · exact (newConnection_spec hvalid (h.isOpen fd hmem hfd) hfd).2.2
    · rcases Multiset.mem_cons.1 hmem with rfl | hmem
      · exact (hconn hfd).2
      · obtain rfl := Multiset.mem_singleton.1 hmem
        exact (htimer hfd).2.1

theorem process (h : v.Apart) (hm : v.Mirror) (hconns : v.conns = P ++ ⟨a, c⟩ :: R)
    (input : ConnInput) : (v.process input a c).Apart := by
  have hdisj := h.disjoint hconns
  obtain ⟨-, hafter⟩ := hm.process hconns input
  have hframe := View.process_frame (v := v) (a := a) (c := c) input
  cases hdoomed : v.doomed input c with
  | true =>
    rw [hdoomed, if_pos rfl] at hafter
    refine ⟨fun fd hfd => ?_, fun fd hmem hfd => ?_⟩
    · have hcount := h.count fd hfd
      rw [hconns, connFds_append, connFds_cons, Multiset.count_add, Multiset.count_add] at hcount
      rw [hafter, connFds_append, Multiset.count_add]
      omega
    · rw [hafter] at hmem
      obtain ⟨n, hn, hown⟩ := mem_connFds.1 hmem
      have hother : c.owns fd = false := by
        by_contra howns
        have hneg := hdisj n hn fd (by simpa [Connection.owns] using hown) (by simpa using howns)
        omega
      apply hframe.openFds fd hother
      apply h.isOpen fd _ hfd
      rw [hconns]
      exact mem_connFds.2 ⟨n, by
        rcases List.mem_append.1 hn with hn | hn
        · exact List.mem_append_left _ hn
        · exact List.mem_append_right _ (List.mem_cons_of_mem _ hn), hown⟩
  | false =>
    rw [hdoomed, if_neg Bool.false_ne_true, ← hconns] at hafter
    have hopen : (v.process input a c).kernel.openFds = v.kernel.openFds := by
      simp only [View.process, hdoomed, Bool.false_eq_true, if_false]
      split
      · simp [View.serve, Kernel.advance]
      · rfl
    exact ⟨hafter ▸ h.count, by rw [hafter, hopen]; exact h.isOpen⟩

end View.Apart

/-! ## Rounds -/

/-- The state after "Add new connection". -/
theorem View.Apart.accepted (revents : Nat → Events) (delay : Nat) (h : v.Apart)
    (hvalid : Valid inp v.conns v.kernel) :
    ((v.poll revents delay).accepted inp).Apart ∧
      ∀ fd < 0, ((v.poll revents delay).accepted inp).Quiet fd := by
  have hpolled := h.poll revents delay
  have hquiet : ∀ fd < 0, (v.poll revents delay).Quiet fd := fun fd hfd => .poll hfd revents delay
  rcases View.accepted_cases inp (v.poll revents delay) with hsame | ⟨a, -, -, hadd⟩
  · rw [hsame]
    exact ⟨hpolled, hquiet⟩
  · rw [hadd]
    exact ⟨hpolled.add (hvalid.poll revents delay) a, fun fd hfd => (hquiet fd hfd).add a _ _⟩

theorem View.Apart.passOver (h : v.Apart) (hm : v.Mirror) (input : Nat → ConnInput)
    (hconns : v.conns = P ++ R) : (v.passOver input R).Apart := by
  obtain ⟨-, hafter, -⟩ := hm.passOver_invariant (S := []) input
    (fun v P R a c hm h hconns => View.Apart.process h hm hconns (input a)) h
    (by simpa using hconns)
  exact hafter

/-- The two halves of a round that comes back to the top of the loop. -/
theorem Round.spec (h : Round s inp s') (hshows : s.Shows v) (hm : v.Mirror) (ha : v.Apart) :
    ∃ revents s₁ w, inp.poll = some revents ∧ pollAndAccept inp s = .ok s₁ ∧ pass inp s₁ = .ok s' ∧
      w = (v.poll revents inp.pollDelay).accepted inp ∧ s₁.Shows w ∧ w.Mirror ∧ w.Apart ∧
      (∀ fd < 0, w.Quiet fd) ∧ s'.Shows (w.passOver inp.conn w.conns) ∧
      (w.passOver inp.conn w.conns).Mirror := by
  obtain ⟨revents, s₁, w, hpoll, hok, hpass, rfl, h₁, hm₁, h₂, hm₂⟩ := h.halves hshows hm
  have hvalid := h.2.1
  rw [hshows.conns, hshows.kernel] at hvalid
  obtain ⟨ha₁, hquiet⟩ := ha.accepted revents inp.pollDelay hvalid
  exact ⟨revents, s₁, _, hpoll, hok, hpass, rfl, h₁, hm₁, ha₁, hquiet, h₂, hm₂⟩

theorem Round.apart (h : Round s inp s') (hs : ∃ v, s.Shows v ∧ v.Mirror ∧ v.Apart) :
    ∃ v, s'.Shows v ∧ v.Mirror ∧ v.Apart := by
  obtain ⟨v, hshows, hm, ha⟩ := hs
  obtain ⟨-, -, w, -, -, -, -, -, hm₁, ha₁, -, h₂, hm₂⟩ := h.spec hshows hm ha
  exact ⟨_, h₂, hm₂, ha₁.passOver hm₁ inp.conn (P := []) rfl⟩

theorem Start.apart (h : Start s) : ∃ v, s.Shows v ∧ v.Mirror ∧ v.Apart := by
  obtain ⟨fd, hshows, hopen, -, -⟩ := h.shows
  exact ⟨_, hshows, .start hopen, by simp, by simp⟩

theorem Reachable.apart (h : Reachable Start Round s) : ∃ v, s.Shows v ∧ v.Mirror ∧ v.Apart :=
  h.invariant (I := fun s => ∃ v, s.Shows v ∧ v.Mirror ∧ v.Apart) (fun _ => Start.apart)
    fun _ _ _ hs hround => Round.apart hround hs

end LinuxNet.TimerServer
