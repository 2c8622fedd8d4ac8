-- SUMMARY: The inactivity timeout: a connection's timer deletes it only TIMEOUT seconds after its last activity.
import LinuxNet.TimerServer.Pass

/-! # The inactivity timeout

A timer is a deadline of the kernel, which poll reports once it has passed.
`View.Armed` says that the timer of every connection is armed, with a deadline
at least `timeout` after every call made on the connection's descriptors. A
descriptor number may have belonged to an earlier connection; the calls on that
one are older still. -/

namespace LinuxNet.TimerServer

variable {s s' : Server} {v w : View} {P R : Stailq Connection} {a : Nat} {c : Connection}
  {inp : RoundInput}

/-- The timer of `n` is armed, `timeout` after every call on its descriptors or later. -/
structure Kernel.Arms (k : Kernel) (n : Connection) : Prop where
  nonneg : 0 ≤ n.timerFd
  deadline : ∃ d, k.deadline n.timerFd = some d ∧
    ∀ e ∈ k.log, n.owns e.call.fd → e.time + timeout ≤ d
  accepted : ∃ e ∈ k.log, e.call = .accept n.connFd

structure View.Armed (v : View) : Prop where
  past : ∀ e ∈ v.kernel.log, e.time ≤ v.kernel.now
  arms : ∀ n ∈ v.conns, v.kernel.Arms n.val

/-! ## The loop body keeps the timers armed -/

/-- Calls on another connection's descriptors change nothing. -/
theorem Kernel.Arms.frame {k k' : Kernel} {n : Connection} (h : k.Arms n)
    (hframe : k.Frame c k') (hne : ∀ fd, n.owns fd → c.owns fd = false) : k'.Arms n := by
  obtain ⟨new, hlog, hnew⟩ := hframe.log
  obtain ⟨d, hd, hcalls⟩ := h.deadline
  obtain ⟨e, he, hcall⟩ := h.accepted
  refine ⟨h.nonneg, ⟨d, ?_, fun e he howns => ?_⟩, e, ?_, hcall⟩
  · rw [hframe.deadline _ (hne _ n.owns_timerFd), hd]
  · rw [hlog] at he
    rcases List.mem_append.1 he with he | he
    · exact hcalls e he howns
    · have hother := hne _ howns
      rw [(hnew e he).1] at hother
      cases hother
  · rw [hlog]
    exact List.mem_append_left _ he

theorem Kernel.Frame.past {k k' : Kernel} (h : k.Frame c k')
    (hpast : ∀ e ∈ k.log, e.time ≤ k.now) : ∀ e ∈ k'.log, e.time ≤ k'.now := by
  obtain ⟨new, hlog, hnew⟩ := h.log
  intro e he
  rw [hlog] at he
  rcases List.mem_append.1 he with he | he
  · exact (hpast e he).trans h.now
  · exact (hnew e he).2.2

/-- Arming a timer sets its deadline `timeout` after every call so far. -/
theorem Kernel.arm_arms {k : Kernel} (hpast : ∀ e ∈ k.log, e.time ≤ k.now)
    (hnonneg : 0 ≤ c.timerFd) (haccepted : ∃ e ∈ k.log, e.call = .accept c.connFd) :
    (k.arm c.timerFd).Arms c := by
  obtain ⟨e, he, hcall⟩ := haccepted
  refine ⟨hnonneg, ⟨k.now + timeout, Function.update_self .., fun e he _ => ?_⟩,
    e, List.mem_append_left _ he, hcall⟩
  rcases List.mem_append.1 he with he | he
  · exact Nat.add_le_add_right (hpast e he) _
  · obtain rfl := List.mem_singleton.1 he
    exact le_rfl

/-- Serving a socket arms its timer anew. -/
theorem View.serve_arms {inp : ConnInput} (hpast : ∀ e ∈ v.kernel.log, e.time ≤ v.kernel.now)
    (harms : v.kernel.Arms c) (hrefresh : inp.refresh = none) :
    (v.serve inp c).kernel.Arms c := by
  have hframe := (inp.exchanged_frame c v.kernel).trans (Kernel.Frame.advance inp.refreshDelay)
  obtain ⟨e, he, hcall⟩ := harms.accepted
  obtain ⟨new, hlog, -⟩ := hframe.log
  have harmed : (v.serve inp c).kernel =
      ((inp.exchanged c v.kernel).advance inp.refreshDelay).arm c.timerFd := by
    simp [serve, refreshTimer, Kernel.timerfdSettime, not_lt.2 harms.nonneg, hrefresh]
  rw [harmed]
  exact Kernel.arm_arms (hframe.past hpast) harms.nonneg
    ⟨e, by rw [hlog]; exact List.mem_append_left _ he, hcall⟩

namespace View.Armed

theorem process (h : v.Armed) (hm : v.Mirror) (ho : v.Owned) (hconns : v.conns = P ++ ⟨a, c⟩ :: R)
    {inp : ConnInput} (hrefresh : inp.refresh = none) : (v.process inp a c).Armed := by
  have hframe : v.kernel.Frame c (v.process inp a c).kernel := process_frame inp
  refine ⟨hframe.past h.past, fun n hn => ?_⟩
  have hother : n ∈ P ++ R → (v.process inp a c).kernel.Arms n.val := fun hn' => by
    have hmem : n ∈ v.conns := by
      rw [hconns]
      rcases List.mem_append.1 hn' with h | h
      · exact List.mem_append_left _ h
      · exact List.mem_append_right _ (List.mem_cons_of_mem _ h)
    exact (h.arms n hmem).frame hframe ((ho.disjoint hm hconns).2 n hn')
  have hc : v.kernel.Arms c := h.arms ⟨a, c⟩ (by rw [hconns]; simp)
  rw [(hm.process hconns inp).2] at hn
  cases hdoomed : v.doomed inp c with
  | true => exact hother (by simpa [hdoomed] using hn)
  | false =>
    have hcases : n = ⟨a, c⟩ ∨ n ∈ P ++ R := by
      simp only [hdoomed, Bool.false_eq_true, if_false, List.mem_append, List.mem_cons] at hn ⊢
      tauto
    rcases hcases with rfl | hn'
    · simp only [View.process, hdoomed, Bool.false_eq_true, if_false]
      split
      · exact serve_arms h.past hc hrefresh
      · exact hc
    · exact hother hn'

theorem passOver (h : v.Armed) (hm : v.Mirror) (ho : v.Owned) (hconns : v.conns = P ++ R)
    {inp : Nat → ConnInput} (hrefresh : ∀ a, (inp a).refresh = none) :
    (v.passOver inp R).Armed := by
  induction R generalizing v P with
  | nil => exact h
  | cons n R ih =>
    obtain ⟨a, c⟩ := n
    obtain ⟨P', hP'⟩ := hm.process_conns hconns (inp a)
    exact ih (h.process hm ho hconns (hrefresh a)) (hm.process hconns (inp a)).1
      (ho.process (inp a)) hP'

theorem poll (h : v.Armed) (revents : Nat → Events) (delay : Nat) :
    (v.poll revents delay).Armed where
  past e he := (h.past e he).trans (Nat.le_add_right _ _)
  arms n hn := ⟨(h.arms n hn).nonneg, (h.arms n hn).deadline, (h.arms n hn).accepted⟩

/-- Accepting a connection makes calls on its descriptors only, and the last of
them arms its timer. -/
theorem add (h : v.Armed) (hm : v.Mirror) (ho : v.Owned) (hvalid : Valid inp v.conns v.kernel)
    {fd t : Nat} (hfd : inp.accept = some fd) (ht : inp.timerfdCreate = some t)
    (hset : inp.settime = none) :
    (v.add a (newConnection inp v.kernel).1 (newConnection inp v.kernel).2).Armed := by
  rw [newConnection_ok v.kernel hfd ht hset]
  have hconn := Connection.owns_connFd ⟨fd, t⟩
  have haccept : Connection.owns ⟨fd, t⟩ (Syscall.accept fd).fd := hconn
  have htimer := Connection.owns_timerFd ⟨fd, t⟩
  have hframe : v.kernel.Frame ⟨fd, t⟩
      ((((v.kernel.advance inp.acceptDelay).opened fd).record (.accept fd)).advance
        inp.timerDelay |>.opened t) :=
    ((((Kernel.Frame.advance _).trans (.opened hconn)).trans (.record haccept)).trans
      (.advance _)).trans (.opened htimer)
  have hpast := hframe.past h.past
  refine ⟨(hframe.trans (.arm htimer)).past h.past, fun n hn => ?_⟩
  rcases List.mem_append.1 hn with hn | hn
  · apply (h.arms n hn).frame (hframe.trans (.arm htimer))
    intro g hg
    -- the descriptors of a connection are open, and so they are not the new ones
    have hopen : g ∈ v.kernel.openFds := by
      apply ho.isOpen g
      rw [← Multiset.mem_coe, hm.fds, mem_connFds]
      exact ⟨n, hn, by simpa [Connection.owns] using hg⟩
    have hg₁ : g ≠ fd := fun he => hvalid.accept fd hfd (he ▸ hopen)
    have hg₂ : g ≠ t := fun he => (hvalid.timer t ht).1 (he ▸ hopen)
    simp [Connection.owns, hg₁, hg₂]
  · obtain rfl := List.mem_singleton.1 hn
    refine Kernel.arm_arms (c := ⟨fd, t⟩) hpast (Int.natCast_nonneg t)
      ⟨⟨.accept fd, v.kernel.now + inp.acceptDelay⟩, ?_, rfl⟩
    simp [Kernel.opened, Kernel.advance, Kernel.record]

theorem accepted {revents : Nat → Events} (h : v.Armed) (hm : v.Mirror) (ho : v.Owned)
    (hvalid : Valid inp v.conns v.kernel) (hsucc : inp.Succeeds)
    (hpoll : inp.poll = some revents) :
    ((v.poll revents inp.pollDelay).accepted inp).Armed := by
  have h₁ := h.poll revents inp.pollDelay
  rcases hm.accepted_cases hsucc hpoll with hw | ⟨a, fd, t, hfd, ht, hset, hw⟩
  · rwa [hw]
  · rw [hw]
    exact h₁.add (hm.poll revents inp.pollDelay) (ho.poll revents inp.pollDelay)
      (hvalid.poll revents inp.pollDelay) hfd ht hset

end View.Armed

/-! ## What poll reports -/

/-- The timer `fd` has expired at time `t`. -/
def Kernel.Expired (k : Kernel) (fd : Int) (t : Nat) : Prop :=
  ∃ d, k.deadline fd = some d ∧ d ≤ t

/-- Poll reports a connection's timer exactly when it has expired by then. -/
def Timed (inp : RoundInput) (s : Server) : Prop :=
  ∀ revents, inp.poll = some revents → ∀ n ∈ s.connsQueue, ∀ i p,
    s.fdsBuf.contents[i]? = some p → p.fd = n.val.timerFd →
      ((revents i).has activity ↔ s.kernel.Expired p.fd (s.kernel.now + inp.pollDelay))

/-- A round in which poll reports expired timers, and refreshing a timer
succeeds. -/
def TimedRound (s : Server) (inp : RoundInput) (s' : Server) : Prop :=
  ServingRound s inp s' ∧ Timed inp s ∧ ∀ a, (inp.conn a).refresh = none

namespace View

theorem poll_eventsOf {fd : Int} (hfd : fd ∈ v.entries.map PollFd.fd) (revents : Nat → Events)
    (delay : Nat) :
    ∃ (i : Nat) (p : PollFd), v.entries[i]? = some p ∧ p.fd = fd ∧
      (v.poll revents delay).eventsOf fd = (p.report (revents i)).revents := by
  have hentries : (v.poll revents delay).entries = reported revents v.entries := by
    simp [entries, poll, reported, List.mapIdx_cons]
  have hfd' : fd ∈ (reported revents v.entries).map PollFd.fd := by rwa [reported_fds]
  obtain ⟨i, q, -, hq, hfind⟩ := exists_findIdx? hfd'
  have hqi : (v.entries.mapIdx fun i p => p.report (revents i))[i]? = some q := hq
  rw [List.getElem?_mapIdx, Option.map_eq_some_iff] at hqi
  obtain ⟨p, hp, rfl⟩ := hqi
  have hpfd := List.find?_some hfind
  refine ⟨i, p, hp, of_decide_eq_true hpfd, ?_⟩
  rw [eventsOf, hentries, hfind]
  rfl

/-- A new connection has no events. -/
theorem add_eventsOf_new {fd : Int} (hfd : fd ∉ v.entries.map PollFd.fd) (k : Kernel) :
    (v.add a c k).eventsOf fd = 0 := by
  have hnone : v.entries.find? (·.fd = fd) = none := by
    rw [List.find?_eq_none]
    exact fun p hp hpfd => hfd (List.mem_map.2 ⟨p, hp, by simpa using hpfd⟩)
  have hentries : (v.add a c k).entries = v.entries ++ [watch c.connFd, watch c.timerFd] := rfl
  rw [eventsOf, hentries, List.find?_append, hnone, Option.none_or]
  by_cases hconn : c.connFd = fd <;> by_cases htimer : c.timerFd = fd <;>
    simp [watch, hconn, htimer]

end View

/-- A timer that is found ready belongs to a connection of the loop top, and
has expired. -/
theorem Server.Shows.timerReady_spec {revents : Nat → Events} (hshows : s.Shows v)
    (hm : v.Mirror) (ho : v.Owned) (hvalid : Valid inp v.conns v.kernel)
    (hsucc : inp.Succeeds) (htimed : Timed inp s) (hpoll : inp.poll = some revents)
    {n : Node Connection} (hn : n ∈ ((v.poll revents inp.pollDelay).accepted inp).conns)
    (hready : ((v.poll revents inp.pollDelay).accepted inp).timerReady n.val = true) :
    n ∈ v.conns ∧ v.kernel.Expired n.val.timerFd (v.kernel.now + inp.pollDelay) := by
  have hold : n ∈ v.conns → (v.poll revents inp.pollDelay).timerReady n.val = true →
      n ∈ v.conns ∧ v.kernel.Expired n.val.timerFd (v.kernel.now + inp.pollDelay) := by
    intro hn hready
    refine ⟨hn, ?_⟩
    have hfd : n.val.timerFd ∈ v.entries.map PollFd.fd := by
      apply List.mem_cons_of_mem _
      rw [← Multiset.mem_coe, hm.fds, mem_connFds]
      exact ⟨n, hn, .inr rfl⟩
    obtain ⟨i, p, hp, hpfd, hevents⟩ := View.poll_eventsOf hfd revents inp.pollDelay
    have hreported : (revents i).has activity = true := by
      rw [View.timerReady, hevents] at hready
      simp only [PollFd.report] at hready
      split at hready
      · simp at hready
      · exact hready
    rw [← hpfd, ← hshows.kernel]
    refine (htimed revents hpoll n (by rwa [hshows.conns]) i p ?_ hpfd).1 hreported
    rwa [hshows.fdsBuf.contents_eq]
  rcases hm.accepted_cases hsucc hpoll with hw | ⟨a, fd, t, hfd, ht, hset, hw⟩
  · rw [hw] at hn hready
    exact hold hn hready
  · rw [hw] at hn hready
    rcases List.mem_append.1 hn with hn | hn
    · apply hold hn
      rwa [View.timerReady, View.add_eventsOf] at hready
      apply List.mem_cons_of_mem _
      rw [← Multiset.mem_coe, (hm.poll revents inp.pollDelay).fds, mem_connFds]
      exact ⟨n, hn, .inr rfl⟩
    · -- the entries of the new connection have no events yet
      obtain rfl := List.mem_singleton.1 hn
      rw [View.timerReady, View.add_eventsOf_new] at hready
      · simp [Events.has] at hready
      · -- and its timer's descriptor was not open
        have hfresh := (hvalid.timer t ht).1
        rw [newConnection_ok _ hfd ht hset]
        intro hmem
        rcases List.mem_cons.1 hmem with hlistener | hclient
        · have hlistener' : (t : Int) = v.listener.fd := hlistener
          exact hfresh (hlistener' ▸ hm.listenerOpen)
        · exact hfresh ((ho.poll revents inp.pollDelay).isOpen _ hclient)

/-! ## Runs -/

theorem TimedRound.armed (h : TimedRound s inp s')
    (hs : ∃ v, s.Shows v ∧ v.Mirror ∧ v.Owned ∧ v.Armed) :
    ∃ v, s'.Shows v ∧ v.Mirror ∧ v.Owned ∧ v.Armed := by
  obtain ⟨v, hshows, hm, ho, harmed⟩ := hs
  obtain ⟨hserving, -, hrefresh⟩ := h
  obtain ⟨revents, -, w, hpoll, -, -, hw, -, hm₁, ho₁, h₂, hm₂⟩ := hserving.spec hshows hm ho
  have hvalid := hserving.1.2.1
  rw [hshows.conns, hshows.kernel] at hvalid
  have harmed₁ : w.Armed := by
    rw [hw]
    exact harmed.accepted hm ho hvalid hserving.2 hpoll
  exact ⟨_, h₂, hm₂, (View.passOver_spec inp.conn hm₁ ho₁ (P := []) rfl).2.2.2.2,
    harmed₁.passOver hm₁ ho₁ (P := []) rfl hrefresh⟩

theorem Reachable.armed (h : Reachable Start TimedRound s) :
    ∃ v, s.Shows v ∧ v.Mirror ∧ v.Owned ∧ v.Armed := by
  refine h.invariant (I := fun s => ∃ v, s.Shows v ∧ v.Mirror ∧ v.Owned ∧ v.Armed) ?_
    fun _ _ _ hs hround => TimedRound.armed hround hs
  intro s hstart
  obtain ⟨fd, hshows, hopen, -, hlog⟩ := hstart.shows
  exact ⟨_, hshows, ⟨rfl, by simp, hopen, Int.natCast_nonneg fd, by simp [Stailq.addrs]⟩,
    ⟨by simp, by simp⟩, ⟨by simp [hlog], by simp⟩⟩

/-- A positive recv, and a positive send if there is a reply. -/
theorem ConnInput.exchange_positive {inp : ConnInput} {bytes : List UInt8}
    {hb : bytes.length ≤ bufSize - 1} {m : Nat} (hrecv : inp.recv = .data bytes hb)
    (hbytes : 0 < bytes.length) (hsend : inp.send = .sent m) (hm : 0 < m) :
    inp.exchange = .ok false := by
  have hne : bytes ≠ [] := List.ne_nil_of_length_pos hbytes
  simp only [exchange, hrecv, hsend, hne, if_false]
  split
  · simp [hm.ne']
  · rfl

/-- In every round of every run in which accepts and timers succeed: a
connection which the round deletes without its recv or send having returned 0
had no event on its socket, and `timeout` had passed since its accept and since
every other call on its descriptors when poll returned; and a connection with
both descriptors ready is kept when its recv and send are positive. -/
theorem timeout_spec (h : Reachable Start TimedRound s) (hround : TimedRound s inp s') :
    ∃ s₁, pollAndAccept inp s = .ok s₁ ∧ pass inp s₁ = .ok s' ∧ ∀ n ∈ s₁.connsQueue,
      (n ∉ s'.connsQueue → ¬ (s₁.serving n ∧ (inp.conn n.addr).exchange = .ok true) →
        s₁.serving n = false ∧ s₁.reports n.val.timerFd = true ∧
        (∃ e ∈ s.kernel.log, e.call = .accept n.val.connFd) ∧
        ∀ e ∈ s.kernel.log, n.val.owns e.call.fd →
          e.time + timeout ≤ s.kernel.now + inp.pollDelay) ∧
      (s₁.serving n → s₁.reports n.val.timerFd → ∀ bytes hb m,
        (inp.conn n.addr).recv = .data bytes hb → 0 < bytes.length →
        (inp.conn n.addr).send = .sent m → 0 < m → n ∈ s'.connsQueue) := by
  obtain ⟨v, hshows, hm, ho, harmed⟩ := Reachable.armed h
  obtain ⟨hserving, htimed, -⟩ := hround
  obtain ⟨revents, s₁, w, hpoll, hadd, hpass, hw, h₁, hm₁, ho₁, h₂, -⟩ :=
    hserving.spec hshows hm ho
  have hvalid := hserving.1.2.1
  rw [hshows.conns, hshows.kernel] at hvalid
  have hconns : s'.connsQueue = w.conns.filter fun n => !s₁.dropping inp n := by
    rw [h₂.conns, (View.passOver_spec inp.conn hm₁ ho₁ (P := []) rfl).2.1,
      h₁.dropping_eq hm₁ ho₁]
    rfl
  refine ⟨s₁, hadd, hpass, fun n hn => ⟨fun hgone hnot => ?_, fun hready htimer => ?_⟩⟩
  · rw [h₁.conns] at hn
    have hdropping : s₁.dropping inp n = true := by
      by_contra hkept
      exact hgone (by rw [hconns]; exact List.mem_filter.2 ⟨hn, by simpa using hkept⟩)
    have hidle : s₁.serving n = false := by
      by_contra hready
      have hready' : s₁.serving n = true := by simpa using hready
      simp only [Server.dropping, hready', if_true, decide_eq_true_eq] at hdropping
      exact hnot ⟨hready', hdropping⟩
    have htimer : s₁.reports n.val.timerFd = true := by
      simpa [Server.dropping, hidle] using hdropping
    have hfired : w.timerReady n.val = true := by
      rw [← htimer, h₁.reports_eq hm₁ ho₁]
      rfl
    rw [hw] at hn hfired
    obtain ⟨hold, d, hd, hle⟩ :=
      hshows.timerReady_spec hm ho hvalid hserving.2 htimed hpoll hn hfired
    obtain ⟨-, ⟨d', hd', hcalls⟩, haccepted⟩ := harmed.arms n hold
    obtain rfl := Option.some.inj (hd.symm.trans hd')
    rw [hshows.kernel]
    exact ⟨hidle, htimer, haccepted, fun e he howns => (hcalls e he howns).trans hle⟩
  · intro bytes hb m hrecv hbytes hsend hpos
    have hexchange := ConnInput.exchange_positive hrecv hbytes hsend hpos
    rw [h₁.conns] at hn
    rw [hconns]
    refine List.mem_filter.2 ⟨hn, ?_⟩
    simp [Server.dropping, hready, hexchange]

/-- The second of two clients connects a second after the first one. -/
theorem twoClients_timed (h : twoClients = .ok s) : Reachable Start TimedRound s := by
  obtain ⟨s₁, hfirst, hsecond, hconns, hcontents, hdeadline, hnow⟩ := twoClients_rounds h
  have hstart : TimedRound (started 3 freshKernel) (connecting quiet) s₁ :=
    ⟨⟨hfirst, fun _ _ _ => ⟨⟨4, rfl⟩, ⟨5, rfl⟩, rfl⟩⟩, by simp [Timed, started], fun _ => rfl⟩
  have htimed : Timed (connectingNext quiet) s₁ := by
    rintro _ ⟨rfl⟩ n hn i p hp hpfd
    rw [hconns, List.mem_singleton] at hn
    subst hn
    have hi : i ≠ 0 := by
      rintro rfl
      rw [hcontents] at hp
      simp at hp
      subst hp
      simp at hpfd
    rw [hpfd, hnow]
    refine iff_of_false (fun hready => ?_) ?_
    · replace hready : (if i = 0 then pollIn else (0 : Events)).has activity = true := hready
      rw [if_neg hi] at hready
      cases hready
    · rintro ⟨d, hd, hle⟩
      obtain rfl := Option.some.inj (hdeadline.symm.trans hd)
      exact absurd hle (by decide)
  exact ((Reachable.start started_fresh).next hstart).next
    ⟨⟨hsecond, fun _ _ _ => ⟨⟨6, rfl⟩, ⟨7, rfl⟩, rfl⟩⟩, htimed, fun _ => rfl⟩

/-- Two clients connect and say nothing, and 3 seconds after the first one has connected
it is deleted, and the other one not. -/
theorem timeout_spec_expired :
    ∃ (s s' : Server) (inp : RoundInput), s.connsQueue = [⟨1, ⟨4, 5⟩⟩, ⟨2, ⟨6, 7⟩⟩] ∧
      s'.connsQueue = [⟨2, ⟨6, 7⟩⟩] ∧ round inp s = .ok s' ∧
      (∃ e ∈ s.kernel.log, e.call = .accept 4) ∧
      ∀ e ∈ s.kernel.log, Connection.owns ⟨4, 5⟩ e.call.fd →
        e.time + timeout ≤ s.kernel.now + inp.pollDelay := by
  let expire := serving (2 * 10 ^ 9) (fun i => if i = 2 then pollIn else 0) fun _ => quiet
  have hrun : (twoClients >>= fun s => (pollAndAccept expire s).bind fun s₁ =>
      (pass expire s₁).map fun s' => decide (s.fdsBuf.len = 5 ∧
        s.connsQueue = [⟨1, ⟨4, 5⟩⟩, ⟨2, ⟨6, 7⟩⟩] ∧
        s.fdsBuf.contents.map PollFd.fd = [3, 4, 5, 6, 7] ∧
        s.kernel.deadline 5 = some (3 * 10 ^ 9) ∧ s.kernel.deadline 7 = some (4 * 10 ^ 9) ∧
        s.kernel.now = 10 ^ 9 ∧ s₁.connsQueue = [⟨1, ⟨4, 5⟩⟩, ⟨2, ⟨6, 7⟩⟩] ∧
        s₁.serving ⟨1, ⟨4, 5⟩⟩ = false ∧ s'.connsQueue = [⟨2, ⟨6, 7⟩⟩])) = .ok true := by
    decide +kernel
  obtain ⟨s, hconnect, hrest⟩ := Except.bind_eq_ok.1 hrun
  obtain ⟨s₁, hadd, hrest⟩ := Except.bind_eq_ok.1 hrest
  obtain ⟨s', hpass, hfacts⟩ := Except.map_eq_ok.1 hrest
  obtain ⟨hlen, hconns, hfds, hdeadline, hdeadline', hnow, hconns₁, hidle, hgone⟩ :=
    of_decide_eq_true hfacts
  have hok : round expire s = .ok s' := by rw [round_eq, hadd, Except.bind_ok, hpass]
  have htimed : Timed expire s := by
    rintro _ ⟨rfl⟩ n hn i p hp hpfd
    have hat : (s.fdsBuf.contents.map PollFd.fd)[i]? = some n.val.timerFd := by
      rw [List.getElem?_map, hp, Option.map_some, hpfd]
    rw [hfds] at hat
    rw [hpfd, hnow]
    rw [hconns] at hn
    simp only [List.mem_cons, List.not_mem_nil, or_false] at hn
    rcases hn with rfl | rfl
    · have hi : i = 2 := by
        rcases i with _ | _ | _ | _ | _ | i <;> simp at hat ⊢
      rw [hi]
      exact ⟨fun _ => ⟨_, hdeadline, by decide⟩, fun _ => by decide⟩
    · have hi : i = 4 := by
        rcases i with _ | _ | _ | _ | _ | i <;> simp at hat ⊢
      rw [hi]
      refine iff_of_false (by decide) ?_
      rintro ⟨d, hd, hle⟩
      obtain rfl := Option.some.inj (hdeadline'.symm.trans hd)
      exact absurd hle (by decide)
  have hround : TimedRound s expire s' := by
    refine ⟨⟨⟨by rw [hlen]; decide, serving_valid, hok⟩, ?_⟩, htimed, fun _ => rfl⟩
    rintro _ ⟨rfl⟩ hready
    exact absurd hready (by decide)
  obtain ⟨s₂, hadd', -, hall⟩ := timeout_spec (twoClients_timed hconnect) hround
  obtain rfl := Except.ok.inj (hadd.symm.trans hadd')
  obtain ⟨-, -, haccepted, hcalls⟩ := (hall ⟨1, ⟨4, 5⟩⟩ (by simp [hconns₁])).1
    (by simp [hgone]) (by simp [hidle])
  exact ⟨s, s', expire, hconns, hgone, hok, haccepted, hcalls⟩

end LinuxNet.TimerServer
