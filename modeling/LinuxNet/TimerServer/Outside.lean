-- SUMMARY: The server's state without one of its connections, and what the loop body does to it.
import LinuxNet.TimerServer.Apart

/-! # The state without a connection

`v.outside a c` is what is left of a view without the connection `c` at address
`a`: the other connections, and the entries, the calls and the deadlines of the
descriptors that `c` does not own. Processing `c` itself only lets time go by
there, and processing another connection does there what it does to the view. -/

namespace LinuxNet.TimerServer

variable {v : View} {k : Kernel} {a b : Nat} {c d : Connection} {fd : Int}

/-- The kernel without the descriptors of `c`. -/
def Kernel.outside (c : Connection) (k : Kernel) : Kernel where
  now := k.now
  openFds := k.openFds.filter fun fd => c.owns fd = false
  deadline := fun fd => if c.owns fd then none else k.deadline fd
  log := k.log.filter fun e => !c.owns e.call.fd

def View.outside (a : Nat) (c : Connection) (v : View) : View where
  listener := v.listener
  clients := v.clients.filter fun p => !c.owns p.fd
  conns := v.conns.filter fun n => n.addr ≠ a
  kernel := v.kernel.outside c

/-! ## The kernel -/

namespace Kernel

theorem outside_congr {k k' : Kernel} (hnow : k.now = k'.now)
    (hopen : ∀ fd, c.owns fd = false → (fd ∈ k.openFds ↔ fd ∈ k'.openFds))
    (hdeadline : ∀ fd, c.owns fd = false → k.deadline fd = k'.deadline fd)
    (hlog : k.log.filter (fun e => !c.owns e.call.fd) = k'.log.filter fun e => !c.owns e.call.fd) :
    k.outside c = k'.outside c := by
  have hopen' : k.openFds.filter (fun fd => c.owns fd = false) =
      k'.openFds.filter fun fd => c.owns fd = false := by
    ext fd
    rw [Finset.mem_filter, Finset.mem_filter]
    exact and_congr_left fun hfd => hopen fd hfd
  have hdeadline' : (fun fd => if c.owns fd then none else k.deadline fd) =
      fun fd => if c.owns fd then none else k'.deadline fd := by
    funext fd
    cases hfd : c.owns fd with
    | true => rfl
    | false => simp [hdeadline fd hfd]
  simp only [outside, hnow, hopen', hdeadline', hlog]

theorem outside_record (k : Kernel) (call : Syscall) (h : c.owns call.fd = false) :
    (k.record call).outside c = (k.outside c).record call := by
  simp [outside, record, h]

theorem outside_record_own (k : Kernel) (call : Syscall) (h : c.owns call.fd) :
    (k.record call).outside c = k.outside c := by
  simp [outside, record, h]

theorem outside_arm (h : c.owns fd = false) : (k.arm fd).outside c = (k.outside c).arm fd := by
  have hdeadline : (fun g => if c.owns g then none else (k.arm fd).deadline g) =
      ((k.outside c).arm fd).deadline := by
    funext g
    by_cases hg : g = fd
    · simp [arm, outside, hg, h]
    · simp [arm, outside, hg]
  have hlog := congrArg Kernel.log (outside_record k (.settime fd) h)
  unfold outside
  rw [hdeadline]
  exact congrArg (fun log => { (k.outside c).arm fd with log := log }) hlog

theorem outside_arm_own (h : c.owns fd) : (k.arm fd).outside c = k.outside c := by
  apply outside_congr
  · rfl
  · exact fun g _ => Iff.rfl
  · intro g hg
    have hne : g ≠ fd := fun he => by simp [he, h] at hg
    simp [arm, hne]
  · exact congrArg Kernel.log (outside_record_own k (.settime fd) h)

theorem outside_close (h : c.owns fd = false) :
    (k.close fd).outside c = (k.outside c).close fd := by
  have hdeadline : (fun g => if c.owns g then none else (k.close fd).deadline g) =
      ((k.outside c).close fd).deadline := by
    funext g
    by_cases hg : g = fd
    · simp [close, hg]
    · simp [close, outside, hg]
  have hopen : (k.close fd).openFds.filter (fun g => c.owns g = false) =
      ((k.outside c).close fd).openFds := by
    ext g
    simp [close, outside, and_assoc]
  have hlog := congrArg Kernel.log (outside_record k (.close fd) h)
  unfold outside
  rw [hdeadline, hopen]
  exact congrArg (fun log => { (k.outside c).close fd with log := log }) hlog

theorem outside_close_own (h : c.owns fd) : (k.close fd).outside c = k.outside c := by
  have hne : ∀ g, c.owns g = false → g ≠ fd := fun g hg he => by simp [he, h] at hg
  apply outside_congr
  · rfl
  · intro g hg
    simp [close, hne g hg]
  · intro g hg
    simp [close, hne g hg]
  · exact congrArg Kernel.log (outside_record_own k (.close fd) h)

end Kernel

theorem refreshTimer_outside (hfd : c.owns fd → fd < 0) (r : Option Errno) :
    (refreshTimer fd r k).outside c = refreshTimer fd r (k.outside c) := by
  unfold refreshTimer Kernel.timerfdSettime
  by_cases hneg : fd < 0
  · rw [if_pos hneg, if_pos hneg]
  · have hother : c.owns fd = false := by simpa using mt hfd hneg
    rw [if_neg hneg, if_neg hneg]
    cases r with
    | none => exact Kernel.outside_arm hother
    | some e => rfl

theorem refreshTimer_outside_own (c : Connection) (r : Option Errno) :
    (refreshTimer c.timerFd r k).outside c = k.outside c := by
  unfold refreshTimer Kernel.timerfdSettime
  split
  · rfl
  · cases r with
    | none => exact Kernel.outside_arm_own c.owns_timerFd
    | some e => rfl

theorem ConnInput.exchanged_outside (inp : ConnInput) (h : c.owns d.connFd = false) :
    (inp.exchanged d k).outside c = inp.exchanged d (k.outside c) := by
  have hrecv : ((k.advance inp.recvDelay).record (.recv d.connFd)).outside c =
      ((k.outside c).advance inp.recvDelay).record (.recv d.connFd) := Kernel.outside_record _ _ h
  unfold ConnInput.exchanged
  dsimp only
  cases inp.recv with
  | fail e => exact hrecv
  | data bytes hb =>
    dsimp only
    split
    · rw [Kernel.outside_record _ _ h, hrecv]
    · exact hrecv

/-- Outside of the connection, an exchange with it lets time go by. -/
theorem ConnInput.exchanged_outside_own (inp : ConnInput) (c : Connection) (k : Kernel) :
    (inp.exchanged c k).outside c = (k.outside c).advance inp.recvDelay := by
  have hrecv : ((k.advance inp.recvDelay).record (.recv c.connFd)).outside c =
      (k.outside c).advance inp.recvDelay := Kernel.outside_record_own _ _ c.owns_connFd
  unfold ConnInput.exchanged
  dsimp only
  cases inp.recv with
  | fail e => exact hrecv
  | data bytes hb =>
    dsimp only
    split
    · rw [Kernel.outside_record_own _ _ c.owns_connFd, hrecv]
    · exact hrecv

/-! ## The entries -/

/-- Clearing by descriptor goes through a filter on descriptors. -/
theorem filter_clearFirst (sel : Int → Bool) (fd : Int) (L : List PollFd) :
    (clearFirst fd L).filter (fun p => sel p.fd) =
      clearFirst fd (L.filter fun p => sel p.fd) := by
  induction L with
  | nil => rfl
  | cons p L ih =>
    rw [clearFirst_cons]
    by_cases hp : p.fd = fd
    · rw [if_pos hp]
      by_cases hsel : sel p.fd = true
      · rw [List.filter_cons_of_pos (by exact hsel), List.filter_cons_of_pos (by exact hsel),
          clearFirst_cons, if_pos hp]
      · rw [List.filter_cons_of_neg (by exact hsel), List.filter_cons_of_neg (by exact hsel),
          clearFirst_of_forall]
        intro q hq hqfd
        have hkept := (List.mem_filter.1 hq).2
        rw [hqfd, ← hp] at hkept
        exact hsel hkept
    · rw [if_neg hp]
      by_cases hsel : sel p.fd = true
      · rw [List.filter_cons_of_pos (by exact hsel), List.filter_cons_of_pos (by exact hsel),
          clearFirst_cons, if_neg hp, ih]
      · rw [List.filter_cons_of_neg (by exact hsel), List.filter_cons_of_neg (by exact hsel), ih]

/-! ## The operations on views -/

namespace View

theorem outside_eventsOf (hquiet : c.owns fd → v.Quiet fd) (a : Nat) :
    (v.outside a c).eventsOf fd = v.eventsOf fd := by
  cases hown : c.owns fd with
  | true =>
    have hrest : (v.outside a c).Quiet fd :=
      (hquiet hown).of_entries rfl fun p hp => .inl (List.mem_filter.1 hp).1
    rw [hrest.eventsOf, (hquiet hown).eventsOf]
  | false =>
    have hfind : (v.clients.filter fun p => !c.owns p.fd).find? (·.fd = fd) =
        v.clients.find? (·.fd = fd) := by
      rw [List.find?_filter]
      congr 1
      funext p
      by_cases hp : p.fd = fd
      · simp [hp, hown]
      · simp [hp]
    simp only [eventsOf, entries, outside, List.find?_cons, hfind]

theorem outside_remove (fd : Int) : (v.remove fd).outside a c = (v.outside a c).remove fd := by
  have hclients := filter_eraseLast (f := PollFd.fd) (k := fd) (l := v.clients) fun fd => !c.owns fd
  have hmem : fd ∈ (v.outside a c).clients.map PollFd.fd ↔
      fd ∈ v.clients.map PollFd.fd ∧ c.owns fd = false := by
    simp only [outside, List.mem_map, List.mem_filter]
    constructor
    · rintro ⟨p, ⟨hp, hown⟩, rfl⟩
      exact ⟨⟨p, hp, rfl⟩, by simpa using hown⟩
    · rintro ⟨⟨p, hp, rfl⟩, hown⟩
      exact ⟨p, ⟨hp, by simpa using hown⟩, rfl⟩
  have hkernel : (v.remove fd).kernel.outside c = ((v.outside a c).remove fd).kernel := by
    have hremove : ∀ u : View, (u.remove fd).kernel =
        if fd ∈ u.clients.map PollFd.fd then u.kernel.close fd else u.kernel := fun u => rfl
    rw [hremove, hremove]
    by_cases hin : fd ∈ v.clients.map PollFd.fd
    · rw [if_pos hin]
      cases hown : c.owns fd with
      | true =>
        have hout : fd ∉ (v.outside a c).clients.map PollFd.fd := fun h => by
          have hnot := (hmem.1 h).2
          rw [hown] at hnot
          cases hnot
        rw [if_neg hout]
        exact Kernel.outside_close_own hown
      | false =>
        rw [if_pos (hmem.2 ⟨hin, hown⟩)]
        exact Kernel.outside_close hown
    · rw [if_neg hin, if_neg fun h => hin (hmem.1 h).1]
      rfl
  unfold outside
  rw [hkernel]
  simp only [remove, hclients]
  rfl

theorem outside_remove_own (hown : c.owns fd) : (v.remove fd).outside a c = v.outside a c := by
  have hne : ∀ p ∈ (v.outside a c).clients, p.fd ≠ fd := by
    intro p hp he
    have hkept := (List.mem_filter.1 hp).2
    simp [he, hown] at hkept
  have hnot : fd ∉ (v.outside a c).clients.map PollFd.fd := by
    rw [List.mem_map]
    rintro ⟨p, hp, he⟩
    exact hne p hp he
  rw [outside_remove, remove, if_neg hnot, eraseLast_of_forall_not (by simpa using hne)]

theorem outside_delete (hb : b ≠ a) : (v.delete b d).outside a c = (v.outside a c).delete b d := by
  have hconns : (v.conns.remove b).filter (fun n => n.addr ≠ a) =
      Stailq.remove (v.conns.filter fun n => n.addr ≠ a) b := by
    have hpred : (fun n : Node Connection => decide (n.addr = b) && decide (n.addr ≠ a)) =
        fun n => decide (n.addr = b) := by
      funext n
      by_cases hn : n.addr = b <;> simp [hn, hb]
    rw [Stailq.remove, Stailq.remove, List.eraseP_filter, hpred]
  have hremoved : ((v.remove d.connFd).remove d.timerFd).outside a c =
      ((v.outside a c).remove d.connFd).remove d.timerFd := by
    rw [outside_remove, outside_remove]
  rw [delete, delete, ← hremoved]
  exact congrArg (fun q => { ((v.remove d.connFd).remove d.timerFd).outside a c with conns := q })
    hconns

theorem outside_delete_own : (v.delete a c).outside a c = v.outside a c := by
  have hconns : (v.conns.remove a).filter (fun n => n.addr ≠ a) =
      v.conns.filter fun n => n.addr ≠ a := by
    rw [Stailq.remove]
    induction v.conns with
    | nil => rfl
    | cons n q ih =>
      by_cases hn : n.addr = a
      · simp [hn]
      · simpa [hn] using ih
  have hremoved : ((v.remove c.connFd).remove c.timerFd).outside a c = v.outside a c := by
    rw [outside_remove_own c.owns_timerFd, outside_remove_own c.owns_connFd]
  rw [← hremoved]
  exact congrArg (fun q => { ((v.remove c.connFd).remove c.timerFd).outside a c with conns := q })
    hconns

/-- What the loop body on another connection does. -/
theorem outside_process {inp : ConnInput} (hb : b ≠ a) (hconn : c.owns d.connFd → v.Quiet d.connFd)
    (htimer : c.owns d.timerFd → d.timerFd < 0 ∧ v.Quiet d.timerFd) :
    (v.process inp b d).outside a c = (v.outside a c).process inp b d := by
  have hsocket : (v.outside a c).socketReady d = v.socketReady d := by
    rw [socketReady, socketReady, outside_eventsOf hconn]
  have hfired : (v.outside a c).timerReady d = v.timerReady d := by
    rw [timerReady, timerReady, outside_eventsOf fun hown => (htimer hown).2]
  have hdoomed : (v.outside a c).doomed inp d = v.doomed inp d := by
    rw [doomed, doomed, hsocket, hfired]
  have hserved : (if v.socketReady d then v.serve inp d else v).outside a c =
      if v.socketReady d then (v.outside a c).serve inp d else v.outside a c := by
    cases hready : v.socketReady d with
    | false => rfl
    | true =>
      have hother : c.owns d.connFd = false := by
        by_contra hown
        rw [(hconn (by simpa using hown)).not_ready] at hready
        cases hready
      have hclients := filter_clearFirst (fun fd => !c.owns fd) d.timerFd v.clients
      have hkernel : (v.serve inp d).kernel.outside c = ((v.outside a c).serve inp d).kernel := by
        have hexchanged := inp.exchanged_outside (k := v.kernel) hother
        have hrefresh := refreshTimer_outside (fun hown => (htimer hown).1) inp.refresh
          (k := (inp.exchanged d v.kernel).advance inp.refreshDelay)
        have hadvance : ((inp.exchanged d v.kernel).advance inp.refreshDelay).outside c =
            (inp.exchanged d (v.kernel.outside c)).advance inp.refreshDelay :=
          congrArg (fun k => k.advance inp.refreshDelay) hexchanged
        rw [hadvance] at hrefresh
        exact hrefresh
      have hserve : (v.serve inp d).outside a c =
          { v.outside a c with
            clients := (v.serve inp d).clients.filter fun p => !c.owns p.fd
            kernel := (v.serve inp d).kernel.outside c } := rfl
      simp only [if_true]
      rw [hserve, hkernel]
      exact congrArg (fun L => { (v.outside a c).serve inp d with clients := L }) hclients
  simp only [process, hsocket, hdoomed]
  cases v.doomed inp d with
  | true =>
    simp only [if_true]
    rw [outside_delete hb, hserved]
  | false => exact hserved

/-- Processing the connection itself lets time go by. -/
theorem outside_process_own (inp : ConnInput) : (v.process inp a c).outside a c =
    if v.socketReady c then
      { v.outside a c with
        kernel := ((v.outside a c).kernel.advance inp.recvDelay).advance inp.refreshDelay }
    else v.outside a c := by
  have hserved : (if v.socketReady c then v.serve inp c else v).outside a c =
      if v.socketReady c then
        { v.outside a c with
          kernel := ((v.outside a c).kernel.advance inp.recvDelay).advance inp.refreshDelay }
      else v.outside a c := by
    cases v.socketReady c with
    | false => rfl
    | true =>
      have hclients : (v.serve inp c).clients.filter (fun p => !c.owns p.fd) =
          v.clients.filter fun p => !c.owns p.fd := by
        have hfilter := filter_clearFirst (fun fd => !c.owns fd) c.timerFd v.clients
        refine hfilter.trans (clearFirst_of_forall fun p hp he => ?_)
        have hkept := (List.mem_filter.1 hp).2
        simp [he, c.owns_timerFd] at hkept
      have hkernel : (v.serve inp c).kernel.outside c =
          ((v.kernel.outside c).advance inp.recvDelay).advance inp.refreshDelay := by
        have hexchanged := inp.exchanged_outside_own c v.kernel
        rw [serve, refreshTimer_outside_own, ← hexchanged]
        rfl
      have hserve : (v.serve inp c).outside a c =
          { v.outside a c with
            clients := (v.serve inp c).clients.filter fun p => !c.owns p.fd
            kernel := (v.serve inp c).kernel.outside c } := rfl
      rw [if_pos rfl, if_pos rfl, hserve, hclients, hkernel]
      rfl
  rw [← hserved, process]
  split
  · exact outside_delete_own
  · rfl

/-- The loop body on a connection changes no events of other descriptors. -/
theorem process_eventsOf (inp : ConnInput) (hfd : c.owns fd → v.Quiet fd) :
    (v.process inp a c).eventsOf fd = v.eventsOf fd := by
  have hquiet : c.owns fd → (v.process inp a c).Quiet fd := fun hown =>
    (hfd hown).process inp a c
  rw [← outside_eventsOf hquiet a, outside_process_own, ← outside_eventsOf hfd a]
  split <;> rfl

end View

end LinuxNet.TimerServer
