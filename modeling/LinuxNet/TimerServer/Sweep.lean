-- SUMMARY: Erasing the entries of some connections from the buffer and clearing the timers of others.
import LinuxNet.TimerServer.View

/-! # Sweeping the entries

With pairwise distinct descriptors, what the loop body does to the entries is
a `sweep` for one connection, and sweeps for several connections compose. -/

namespace LinuxNet.TimerServer

variable {v : View} {a : Nat} {c : Connection}

/-- Whether `fd` is one of the two descriptors of `c`. -/
def Connection.owns (c : Connection) (fd : Int) : Bool := fd = c.connFd || fd = c.timerFd

theorem Connection.owns_connFd (c : Connection) : c.owns c.connFd = true := by
  simp [Connection.owns]

theorem Connection.owns_timerFd (c : Connection) : c.owns c.timerFd = true := by
  simp [Connection.owns]

/-- Whether a connection of `q` with `sel` owns `fd`. -/
def ownedIn (sel : Node Connection → Bool) (q : Stailq Connection) (fd : Int) : Bool :=
  q.any fun n => sel n && n.val.owns fd

/-- Whether `fd` is the timer of a connection of `q` with `sel`. -/
def timerIn (sel : Node Connection → Bool) (q : Stailq Connection) (fd : Int) : Bool :=
  q.any fun n => sel n && decide (fd = n.val.timerFd)

/-- The entries `L` without those of the connections of `q` that are `gone`,
and with the timers of those that are `served` cleared. -/
def sweep (gone served : Node Connection → Bool) (q : Stailq Connection) (L : List PollFd) :
    List PollFd :=
  (L.filter fun p => !ownedIn gone q p.fd).map fun p =>
    if timerIn served q p.fd then p.clear else p

/-! ## Sweeping -/

section Sweep

variable {sel sel' gone gone' served served' : Node Connection → Bool} {q : Stailq Connection}
  {L : List PollFd} {n : Node Connection} {fd : Int}

theorem ownedIn_cons : ownedIn sel (n :: q) fd = (ownedIn sel [n] fd || ownedIn sel q fd) := by
  simp [ownedIn]

theorem timerIn_cons : timerIn sel (n :: q) fd = (timerIn sel [n] fd || timerIn sel q fd) := by
  simp [timerIn]

theorem ownedIn_congr (h : ∀ n ∈ q, sel n = sel' n) : ownedIn sel q fd = ownedIn sel' q fd := by
  rw [Bool.eq_iff_iff, ownedIn, ownedIn, List.any_eq_true, List.any_eq_true]
  exact exists_congr fun n => and_congr_right fun hn => by rw [h n hn]

theorem timerIn_congr (h : ∀ n ∈ q, sel n = sel' n) : timerIn sel q fd = timerIn sel' q fd := by
  rw [Bool.eq_iff_iff, timerIn, timerIn, List.any_eq_true, List.any_eq_true]
  exact exists_congr fun n => and_congr_right fun hn => by rw [h n hn]

/-- A descriptor no connection of `q` owns. -/
theorem ownedIn_eq_false (h : ∀ n ∈ q, n.val.owns fd = false) : ownedIn sel q fd = false := by
  simpa [ownedIn] using fun n hn _ => h n hn

theorem timerIn_eq_false (h : ∀ n ∈ q, n.val.owns fd = false) : timerIn sel q fd = false := by
  have htimer : ∀ n ∈ q, fd ≠ n.val.timerFd := fun n hn hfd => by
    simpa [Connection.owns, hfd] using h n hn
  simpa [timerIn] using fun n hn _ => htimer n hn

@[simp] theorem sweep_nil : sweep gone served [] L = L := by
  simp [sweep, ownedIn, timerIn]

/-- Sweeping goes entry by entry. -/
theorem sweep_entry {p : PollFd} : sweep gone served q (p :: L) =
    if ownedIn gone q p.fd then sweep gone served q L
    else (if timerIn served q p.fd then p.clear else p) :: sweep gone served q L := by
  simp only [sweep, List.filter_cons]
  cases ownedIn gone q p.fd with
  | true => rfl
  | false => rfl

/-- Sweeping goes connection by connection. -/
theorem sweep_cons : sweep gone served (n :: q) L =
    sweep gone served q (sweep gone served [n] L) := by
  induction L with
  | nil => rfl
  | cons p L ih =>
    rw [sweep_entry, sweep_entry, ih, ownedIn_cons, timerIn_cons]
    cases ownedIn gone [n] p.fd with
    | true => rfl
    | false =>
      cases timerIn served [n] p.fd with
      | true =>
        simp only [Bool.false_or, Bool.true_or, Bool.false_eq_true, if_false, if_true]
        rw [sweep_entry, PollFd.clear_fd, PollFd.clear_clear, ite_self]
      | false =>
        simp only [Bool.false_or, Bool.false_eq_true, if_false]
        rw [sweep_entry]

theorem sweep_congr (hgone : ∀ n ∈ q, gone n = gone' n) (hserved : ∀ n ∈ q, served n = served' n) :
    sweep gone served q L = sweep gone' served' q L := by
  simp only [sweep, ownedIn_congr hgone, timerIn_congr hserved]

theorem sweep_fds : (sweep gone served q L).map PollFd.fd =
    (L.map PollFd.fd).filter fun fd => !ownedIn gone q fd := by
  induction L with
  | nil => rfl
  | cons p L ih =>
    rw [sweep_entry, List.map_cons, List.filter_cons]
    cases ownedIn gone q p.fd with
    | true => exact ih
    | false =>
      have hfd : (if timerIn served q p.fd then p.clear else p).fd = p.fd := by split <;> rfl
      simp [hfd, ih]

/-- Clearing the timers first changes nothing. -/
theorem sweep_sweep : sweep gone (fun _ => false) q (sweep (fun _ => false) served q L) =
    sweep gone served q L := by
  have howned : ∀ fd, ownedIn (fun _ => false) q fd = false := by simp [ownedIn]
  have htimer : ∀ fd, timerIn (fun _ => false) q fd = false := by simp [timerIn]
  induction L with
  | nil => rfl
  | cons p L ih =>
    have hfd : (if timerIn served q p.fd then p.clear else p).fd = p.fd := by split <;> rfl
    rw [sweep_entry, howned, if_neg Bool.false_ne_true, sweep_entry, hfd, ih, htimer,
      if_neg Bool.false_ne_true, sweep_entry]

end Sweep

/-! ## Processing one connection -/

theorem clearFirst_cons (fd : Int) (p : PollFd) (L : List PollFd) :
    clearFirst fd (p :: L) = if p.fd = fd then p.clear :: L else p :: clearFirst fd L := by
  by_cases hp : p.fd = fd
  · simp [clearFirst, List.findIdx?_cons, hp]
  · simp only [clearFirst, List.findIdx?_cons, hp, decide_false, Bool.false_eq_true, if_false]
    cases L.findIdx? (·.fd = fd) <;> rfl

theorem clearFirst_of_forall {fd : Int} {L : List PollFd} (h : ∀ p ∈ L, p.fd ≠ fd) :
    clearFirst fd L = L := by
  have hnone : L.findIdx? (·.fd = fd) = none := by simpa [List.findIdx?_eq_none_iff] using h
  rw [clearFirst, hnone]

/-- Among pairwise distinct descriptors, the first entry with `fd` is the only one. -/
theorem clearFirst_eq_map {fd : Int} {L : List PollFd} (hn : (L.map PollFd.fd).Nodup) :
    clearFirst fd L = L.map fun p => if p.fd = fd then p.clear else p := by
  induction L with
  | nil => rfl
  | cons p L ih =>
    obtain ⟨hnew, hn'⟩ := List.nodup_cons.1 hn
    rw [clearFirst_cons, List.map_cons]
    by_cases hp : p.fd = fd
    · have hothers : ∀ p' ∈ L, p'.fd ≠ fd := fun p' hp' hfd =>
        hnew (hp ▸ hfd ▸ List.mem_map_of_mem hp')
      have hrest : (L.map fun p => if p.fd = fd then p.clear else p) = L :=
        (List.map_congr_left fun p' hp' => if_neg (hothers p' hp')).trans (List.map_id' L)
      rw [if_pos hp, if_pos hp, hrest]
    · rw [if_neg hp, if_neg hp, ih hn']

namespace View

theorem serve_clients (ho : (v.clients.map PollFd.fd).Nodup) (inp : ConnInput) :
    (v.serve inp c).clients =
      sweep (fun _ => false) (fun _ => true) [⟨a, c⟩] v.clients := by
  simp [serve, clearFirst_eq_map ho, sweep, ownedIn, timerIn]

theorem delete_clients (ho : (v.clients.map PollFd.fd).Nodup) :
    (v.delete a c).clients =
      sweep (fun _ => true) (fun _ => false) [⟨a, c⟩] v.clients := by
  have hfirst : (v.remove c.connFd).clients = v.clients.filter fun p => p.fd ≠ c.connFd :=
    eraseLast_eq_filter ho
  have hnodup : ((v.remove c.connFd).clients.map PollFd.fd).Nodup := by
    rw [hfirst]
    exact ho.sublist (List.filter_sublist.map _)
  have hsecond : (v.delete a c).clients =
      (v.remove c.connFd).clients.filter fun p => p.fd ≠ c.timerFd :=
    eraseLast_eq_filter hnodup
  rw [hsecond, hfirst, List.filter_filter]
  simp only [sweep, ownedIn, timerIn, Connection.owns, List.any_cons, List.any_nil, Bool.false_and,
    Bool.or_false, Bool.true_and, Bool.false_eq_true, if_false, List.map_id', Bool.not_or]
  congr 1
  funext p
  simp [Bool.and_comm]

/-- The entries after the loop body on `c`. -/
theorem process_clients (ho : (v.clients.map PollFd.fd).Nodup) (inp : ConnInput) :
    (v.process inp a c).clients =
      sweep (fun _ => v.doomed inp c) (fun _ => v.socketReady c) [⟨a, c⟩] v.clients := by
  have hserved : (if v.socketReady c then v.serve inp c else v).clients =
      sweep (fun _ => false) (fun _ => v.socketReady c) [⟨a, c⟩] v.clients := by
    cases v.socketReady c with
    | true => exact serve_clients ho inp
    | false => simp [sweep, ownedIn, timerIn]
  cases hdoomed : v.doomed inp c with
  | false => simpa [process, hdoomed] using hserved
  | true =>
    have hnodup : ((if v.socketReady c then v.serve inp c else v).clients.map PollFd.fd).Nodup := by
      rw [hserved, sweep_fds]
      exact ho.filter _
    simp only [process, hdoomed, if_true]
    rw [delete_clients hnodup, hserved, sweep_sweep]

end View

end LinuxNet.TimerServer
