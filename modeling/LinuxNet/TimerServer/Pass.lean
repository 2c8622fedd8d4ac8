-- SUMMARY: One pass over the connections serves the ready ones and removes the doomed ones, whatever it removes on the way.
import LinuxNet.TimerServer.Outside

/-! # The pass over the connections

When accepts and timers succeed, the descriptors in the buffer are open and
pairwise distinct. Then what the pass does to one connection leaves the entries
of the others alone, and the whole pass has a closed form. -/

namespace LinuxNet.TimerServer

variable {s : Server} {v : View} {P R : Stailq Connection} {a : Nat} {c : Connection}

/-- The clients' descriptors are open, and no two entries share one. -/
structure View.Owned (v : View) : Prop where
  nodup : (v.clients.map PollFd.fd).Nodup
  isOpen : ∀ fd ∈ v.clients.map PollFd.fd, fd ∈ v.kernel.openFds

/-- The descriptors received on, in order. -/
def recvs (log : List Event) : List Int :=
  log.filterMap fun e => match e.call with
    | .recv fd => some fd
    | _ => none

/-! ## Connections own their descriptors -/

/-- The new connection when its accept and its timer succeed. -/
theorem newConnection_ok {inp : RoundInput} (k : Kernel) {fd t : Nat}
    (hfd : inp.accept = some fd) (ht : inp.timerfdCreate = some t) (hset : inp.settime = none) :
    newConnection inp k = (⟨fd, t⟩,
      (((((k.advance inp.acceptDelay).opened fd).record (.accept fd)).advance
        inp.timerDelay).opened t).arm t) := by
  simp [newConnection, hfd, ht, hset, Kernel.accept]

namespace View.Owned

/-- No connection shares a descriptor with another, or with itself. -/
theorem disjoint (ho : v.Owned) (hm : v.Mirror) (hconns : v.conns = P ++ ⟨a, c⟩ :: R) :
    c.connFd ≠ c.timerFd ∧ ∀ n ∈ P ++ R, ∀ fd, n.val.owns fd → c.owns fd = false := by
  have hnodup : (v.clients.map PollFd.fd : Multiset Int).Nodup := ho.nodup
  rw [hm.fds_middle hconns, Multiset.nodup_cons, Multiset.nodup_cons, Multiset.mem_cons,
    not_or] at hnodup
  obtain ⟨⟨hne, hconn⟩, htimer, -⟩ := hnodup
  refine ⟨hne, fun n hn fd hfd => ?_⟩
  have hmem : fd ∈ connFds (P ++ R) := mem_connFds.2 ⟨n, hn, by simpa [Connection.owns] using hfd⟩
  have hc : fd ≠ c.connFd := fun h => hconn (h ▸ hmem)
  have ht : fd ≠ c.timerFd := fun h => htimer (h ▸ hmem)
  simp [Connection.owns, hc, ht]

theorem poll (ho : v.Owned) (revents : Nat → Events) (delay : Nat) :
    (v.poll revents delay).Owned where
  nodup := by simpa [View.poll] using ho.nodup
  isOpen := by simpa only [View.poll, reported_fds, Kernel.advance] using ho.isOpen

/-- The loop body keeps the descriptors that are left open: it closes only
those of the connection it deletes. -/
theorem process (ho : v.Owned) (inp : ConnInput) : (v.process inp a c).Owned := by
  have hfds : (v.process inp a c).clients.map PollFd.fd = (v.clients.map PollFd.fd).filter
      fun fd => !ownedIn (fun _ => v.doomed inp c) [⟨a, c⟩] fd := by
    rw [process_clients ho.nodup, sweep_fds]
  refine ⟨by rw [hfds]; exact ho.nodup.filter _, fun fd hfd => ?_⟩
  rw [hfds, List.mem_filter] at hfd
  obtain ⟨hmem, hkept⟩ := hfd
  have hopen := ho.isOpen fd hmem
  cases hdoomed : v.doomed inp c with
  | true =>
    have howns : c.owns fd = false := by simpa [ownedIn, hdoomed] using hkept
    exact (process_frame inp).openFds fd howns hopen
  | false =>
    simp only [View.process, hdoomed, Bool.false_eq_true, if_false]
    split
    · simpa [View.serve, Kernel.advance] using hopen
    · exact hopen

/-- A new connection's descriptors are new. -/
theorem add (ho : v.Owned) {inp : RoundInput} (hvalid : Valid inp v.conns v.kernel)
    {fd t : Nat} (hfd : inp.accept = some fd) (ht : inp.timerfdCreate = some t)
    (hset : inp.settime = none) :
    (v.add a (newConnection inp v.kernel).1 (newConnection inp v.kernel).2).Owned := by
  have hfresh := hvalid.accept fd hfd
  obtain ⟨htfresh, hne⟩ := hvalid.timer t ht
  rw [newConnection_ok v.kernel hfd ht hset]
  have hne' : (fd : Int) ≠ t := fun h => hne (by rw [hfd, Int.natCast_inj.1 h])
  have hfds : (v.clients ++ [watch fd, watch t]).map PollFd.fd =
      v.clients.map PollFd.fd ++ [(fd : Int), (t : Int)] := by
    simp [watch]
  refine ⟨?_, ?_⟩
  · simp only [View.add, hfds, List.nodup_append]
    refine ⟨ho.nodup, by simpa using hne', fun g hg g' hg' h => ?_⟩
    have hopen := ho.isOpen g hg
    simp only [List.mem_cons, List.not_mem_nil, or_false] at hg'
    rcases hg' with rfl | rfl
    · exact hfresh (h ▸ hopen)
    · exact htfresh (h ▸ hopen)
  · simp only [View.add, hfds]
    intro g hg
    simp only [Kernel.arm, Kernel.opened, Kernel.record, Kernel.advance, Finset.mem_insert]
    rcases List.mem_append.1 hg with hg | hg
    · exact .inr (.inr (ho.isOpen g hg))
    · simp only [List.mem_cons, List.not_mem_nil, or_false] at hg
      tauto

end View.Owned

/-! ## The calls of recv -/

theorem ConnInput.exchanged_recvs (inp : ConnInput) (c : Connection) (k : Kernel) :
    recvs (inp.exchanged c k).log = recvs k.log ++ [c.connFd] := by
  unfold ConnInput.exchanged
  dsimp only
  split
  · simp [Kernel.record, Kernel.advance, recvs]
  · split <;> simp [Kernel.record, Kernel.advance, recvs]

theorem refreshTimer_recvs (fd : Int) (r : Option Errno) (k : Kernel) :
    recvs (refreshTimer fd r k).log = recvs k.log := by
  unfold refreshTimer Kernel.timerfdSettime
  split
  · rfl
  · split
    · rfl
    · simp [Kernel.arm, Kernel.record, recvs]

theorem View.remove_recvs (fd : Int) : recvs (v.remove fd).kernel.log = recvs v.kernel.log := by
  unfold View.remove
  dsimp only
  split
  · simp [Kernel.close, Kernel.record, recvs]
  · rfl

/-- The loop body calls recv once on a ready connection, and not at all on
another one. -/
theorem View.process_recvs (inp : ConnInput) : recvs (v.process inp a c).kernel.log =
    recvs v.kernel.log ++ if v.socketReady c then [c.connFd] else [] := by
  have hserved : recvs (if v.socketReady c then v.serve inp c else v).kernel.log =
      recvs v.kernel.log ++ if v.socketReady c then [c.connFd] else [] := by
    split
    · simp [View.serve, refreshTimer_recvs, Kernel.advance, ConnInput.exchanged_recvs]
    · simp
  unfold View.process
  dsimp only
  split
  · rw [View.delete, View.remove_recvs, View.remove_recvs, hserved]
  · exact hserved

/-! ## The whole pass -/

/-- The connections of `q` whose socket is ready. -/
def View.serving (v : View) (n : Node Connection) : Bool := v.socketReady n.val

/-- The connections the pass deletes. -/
def View.dropping (v : View) (inp : Nat → ConnInput) (n : Node Connection) : Bool :=
  v.doomed (inp n.addr) n.val

theorem View.process_listener (inp : ConnInput) : (v.process inp a c).listener = v.listener := by
  unfold View.process
  dsimp only
  split <;> split <;> rfl

/-- The closed form of the pass: every decision is the one the state at the
start of the pass calls for. -/
theorem View.passOver_spec (inp : Nat → ConnInput) (hm : v.Mirror) (ho : v.Owned)
    (hconns : v.conns = P ++ R) :
    (v.passOver inp R).listener = v.listener ∧
    (v.passOver inp R).conns = P ++ R.filter (fun n => !v.dropping inp n) ∧
    (v.passOver inp R).clients = sweep (v.dropping inp) v.serving R v.clients ∧
    recvs (v.passOver inp R).kernel.log =
      recvs v.kernel.log ++ (R.filter v.serving).map (·.val.connFd) ∧
    (v.passOver inp R).Owned := by
  induction R generalizing v P with
  | nil => simp [View.passOver, hconns, ho]
  | cons n R ih =>
    obtain ⟨a, c⟩ := n
    obtain ⟨hm₁, hconns₁⟩ := hm.process hconns (inp a)
    have ho₁ : (v.process (inp a) a c).Owned := ho.process (inp a)
    have hsplit : (v.process (inp a) a c).conns =
        (P ++ [⟨a, c⟩].filter fun n => !v.dropping inp n) ++ R := by
      rw [hconns₁]
      cases hdoomed : v.doomed (inp a) c <;> simp [View.dropping, hdoomed]
    obtain ⟨hlistener, hc, hclients, hrecvs, hown⟩ := ih hm₁ ho₁ hsplit
    -- the other connections look as they did before this one was processed
    have hevents : ∀ n ∈ R, ∀ fd, n.val.owns fd →
        (v.process (inp a) a c).eventsOf fd = v.eventsOf fd := fun n hn fd hfd =>
      process_eventsOf (inp a) fun hown => by
        rw [(ho.disjoint hm hconns).2 n (List.mem_append_right _ hn) fd hfd] at hown
        cases hown
    have hserving : ∀ n ∈ R, (v.process (inp a) a c).serving n = v.serving n := fun n hn => by
      simp only [View.serving, View.socketReady, hevents n hn _ n.val.owns_connFd]
    have hdropping : ∀ n ∈ R, (v.process (inp a) a c).dropping inp n = v.dropping inp n :=
      fun n hn => by
        have htimer : (v.process (inp a) a c).timerReady n.val = v.timerReady n.val := by
          simp only [View.timerReady, hevents n hn _ n.val.owns_timerFd]
        have hsocket : (v.process (inp a) a c).socketReady n.val = v.socketReady n.val :=
          hserving n hn
        rw [View.dropping, View.dropping, View.doomed, View.doomed, hsocket, htimer]
    have hpass : v.passOver inp (⟨a, c⟩ :: R) = (v.process (inp a) a c).passOver inp R := rfl
    rw [hpass]
    refine ⟨by rw [hlistener, process_listener], ?_, ?_, ?_, hown⟩
    · have hrest : R.filter (fun n => !(v.process (inp a) a c).dropping inp n) =
          R.filter fun n => !v.dropping inp n :=
        List.filter_congr fun n hn => by rw [hdropping n hn]
      rw [hc, hrest, List.append_assoc, ← List.filter_append]
      rfl
    · rw [hclients, sweep_congr hdropping hserving, sweep_cons, process_clients ho.nodup]
      rfl
    · rw [hrecvs, View.process_recvs, List.filter_congr hserving, List.append_assoc]
      congr 1
      cases hready : v.socketReady c <;> simp [View.serving, hready]

/-! ## Runs whose accepts and timers succeed -/

/-- When poll reports the listening socket, accept and the timer succeed. -/
def RoundInput.Succeeds (inp : RoundInput) : Prop :=
  ∀ revents, inp.poll = some revents → (revents 0).has pollIn →
    (∃ fd, inp.accept = some fd) ∧ (∃ t, inp.timerfdCreate = some t) ∧ inp.settime = none

/-- A round in which they succeed. -/
def ServingRound (s : Server) (inp : RoundInput) (s' : Server) : Prop :=
  Round s inp s' ∧ inp.Succeeds

/-- The state after "Add new connection" is the one poll left, or has a new
connection with the descriptors accept and timerfd_create returned. -/
theorem View.Mirror.accepted_cases {inp : RoundInput} {revents : Nat → Events} (hm : v.Mirror)
    (hsucc : inp.Succeeds) (hpoll : inp.poll = some revents) :
    let polled := v.poll revents inp.pollDelay
    polled.accepted inp = polled ∨ ∃ a fd t, inp.accept = some fd ∧ inp.timerfdCreate = some t ∧
      inp.settime = none ∧ polled.accepted inp =
        polled.add a (newConnection inp polled.kernel).1 (newConnection inp polled.kernel).2 := by
  rcases View.accepted_cases inp (v.poll revents inp.pollDelay) with hsame | ⟨a, -, hready, hadd⟩
  · exact .inl hsame
  · rw [hm.polled_listener] at hready
    obtain ⟨⟨fd, hfd⟩, ⟨t, ht⟩, hset⟩ := hsucc revents hpoll hready
    exact .inr ⟨a, fd, t, hfd, ht, hset, hadd⟩

theorem View.Owned.accepted {inp : RoundInput} {revents : Nat → Events} (ho : v.Owned)
    (hm : v.Mirror) (hvalid : Valid inp v.conns v.kernel) (hsucc : inp.Succeeds)
    (hpoll : inp.poll = some revents) :
    ((v.poll revents inp.pollDelay).accepted inp).Owned := by
  have ho₁ := ho.poll revents inp.pollDelay
  rcases hm.accepted_cases hsucc hpoll with h | ⟨a, fd, t, hfd, ht, hset, h⟩
  · rwa [h]
  · rw [h]
    exact ho₁.add (hvalid.poll revents inp.pollDelay) hfd ht hset

/-- The two halves of a round that comes back to the top of the loop. -/
theorem ServingRound.spec {s' : Server} {inp : RoundInput} (h : ServingRound s inp s')
    (hshows : s.Shows v) (hm : v.Mirror) (ho : v.Owned) :
    ∃ revents s₁ w, inp.poll = some revents ∧ pollAndAccept inp s = .ok s₁ ∧ pass inp s₁ = .ok s' ∧
      w = (v.poll revents inp.pollDelay).accepted inp ∧ s₁.Shows w ∧ w.Mirror ∧ w.Owned ∧
      s'.Shows (w.passOver inp.conn w.conns) ∧ (w.passOver inp.conn w.conns).Mirror := by
  obtain ⟨hround, hsucc⟩ := h
  obtain ⟨revents, s₁, w, hpoll, hok, hpass, rfl, h₁, hm₁, h₂, hm₂⟩ := hround.halves hshows hm
  have hvalid := hround.2.1
  rw [hshows.conns, hshows.kernel] at hvalid
  exact ⟨revents, s₁, _, hpoll, hok, hpass, rfl, h₁, hm₁, ho.accepted hm hvalid hsucc hpoll, h₂,
    hm₂⟩

theorem ServingRound.owned {s' : Server} {inp : RoundInput} (h : ServingRound s inp s')
    (hs : ∃ v, s.Shows v ∧ v.Mirror ∧ v.Owned) : ∃ v, s'.Shows v ∧ v.Mirror ∧ v.Owned := by
  obtain ⟨v, hshows, hm, ho⟩ := hs
  obtain ⟨-, -, w, -, -, -, -, -, hm₁, ho₁, h₂, hm₂⟩ := h.spec hshows hm ho
  exact ⟨_, h₂, hm₂, (View.passOver_spec inp.conn hm₁ ho₁ (P := []) rfl).2.2.2.2⟩

theorem Reachable.owned (h : Reachable Start ServingRound s) :
    ∃ v, s.Shows v ∧ v.Mirror ∧ v.Owned := by
  refine h.invariant (I := fun s => ∃ v, s.Shows v ∧ v.Mirror ∧ v.Owned) ?_
    fun _ _ _ hs hround => ServingRound.owned hround hs
  intro s hstart
  obtain ⟨fd, hshows, hopen, -, -⟩ := hstart.shows
  exact ⟨_, hshows, .start hopen, by simp, by simp⟩

/-! ## The pass of the program -/

/-- When neither recv nor send fails, the exchange does not fail. -/
theorem ConnInput.exchange_ok {inp : ConnInput} (hrecv : ∀ e, inp.recv ≠ .fail e)
    (hsend : ∀ e, inp.send ≠ .fail e) (e : Int) : inp.exchange ≠ .error e := by
  unfold ConnInput.exchange
  cases hr : inp.recv with
  | fail e => exact absurd hr (hrecv e)
  | data bytes _ =>
    cases hs : inp.send with
    | fail e => exact absurd hs (hsend e)
    | sent n =>
      dsimp only
      split
      · exact nofun
      · split <;> exact nofun

theorem View.Owned.connFds_nodup (ho : v.Owned) (hm : v.Mirror) :
    (v.conns.map (·.val.connFd)).Nodup := by
  have hnodup : (connFds v.conns).Nodup := hm.fds ▸ ho.nodup
  have hle : ((v.conns.map (·.val.connFd) : List Int) : Multiset Int) ≤ connFds v.conns := by
    induction v.conns with
    | nil => simp
    | cons n q ih =>
      rw [connFds_cons, List.map_cons, ← Multiset.cons_coe, ← Multiset.singleton_add]
      exact add_le_add (by simp) ih
  exact Multiset.nodup_of_le hle hnodup

namespace Server

/-- Whether an entry of the buffer with descriptor `fd` has an event. -/
def reports (s : Server) (fd : Int) : Bool :=
  s.fdsBuf.contents.any fun p => decide (p.fd = fd) && p.revents.has activity

/-- Whether the socket of `n` is ready. -/
def serving (s : Server) (n : Node Connection) : Bool := s.reports n.val.connFd

/-- Whether recv or the reply returned 0 for the connection `n`, or its timer
is ready while its socket is not. -/
def dropping (s : Server) (inp : RoundInput) (n : Node Connection) : Bool :=
  if s.serving n then decide ((inp.conn n.addr).exchange = .ok true)
  else s.reports n.val.timerFd

end Server

theorem any_eq_find? {L : List PollFd} {fd : Int} (hn : (L.map PollFd.fd).Nodup) :
    (L.any fun p => decide (p.fd = fd) && p.revents.has activity) =
      (((L.find? (·.fd = fd)).map PollFd.revents).getD 0).has activity := by
  induction L with
  | nil => simp
  | cons p L ih =>
    rw [List.map_cons, List.nodup_cons] at hn
    by_cases hp : p.fd = fd
    · have hrest : ∀ q ∈ L, q.fd ≠ fd := fun q hq hqfd =>
        hn.1 (by rw [hp, ← hqfd]; exact List.mem_map_of_mem hq)
      have hnone : (L.any fun p => decide (p.fd = fd) && p.revents.has activity) = false := by
        simpa using fun q hq hqfd => absurd hqfd (hrest q hq)
      simp [hp, hnone]
    · simp [hp, ih hn.2]

theorem Server.Shows.reports_eq (h : s.Shows v) (hm : v.Mirror) (ho : v.Owned) (fd : Int) :
    s.reports fd = (v.eventsOf fd).has activity := by
  rw [Server.reports, h.fdsBuf.contents_eq, any_eq_find?, View.eventsOf, View.entries]
  rw [List.map_cons, List.nodup_cons]
  exact ⟨hm.listenerFresh, ho.nodup⟩

theorem Server.Shows.serving_eq (h : s.Shows v) (hm : v.Mirror) (ho : v.Owned) :
    s.serving = v.serving :=
  funext fun n => h.reports_eq hm ho n.val.connFd

theorem Server.Shows.dropping_eq (h : s.Shows v) (hm : v.Mirror) (ho : v.Owned)
    (inp : RoundInput) : s.dropping inp = v.dropping inp.conn :=
  funext fun n => by
    rw [Server.dropping, h.serving_eq hm ho, h.reports_eq hm ho]
    rfl

/-- The listening socket is no connection's, so a sweep leaves its entry alone. -/
theorem View.Mirror.sweep_listener (hm : v.Mirror) (gone served : Node Connection → Bool) :
    sweep gone served v.conns (v.listener :: v.clients) =
      v.listener :: sweep gone served v.conns v.clients := by
  have howns : ∀ n ∈ v.conns, n.val.owns v.listener.fd = false := by
    intro n hn
    have hfresh := hm.listenerFresh
    rw [← Multiset.mem_coe, hm.fds, mem_connFds] at hfresh
    simpa [Connection.owns] using not_exists.1 hfresh n |> not_and.1 <| hn
  rw [sweep_entry, ownedIn_eq_false howns, timerIn_eq_false howns]
  rfl

/-- The pass over the connections, from any state that a run with successful
accepts and timers brings it to, whatever poll reported, when no recv or send
fails: recv is called once on every connection whose socket is ready and on no
other, in the order of the queue; the connections that leave the queue are
those whose recv or reply returned 0 and those with only their timer ready; and
the buffer loses their entries and no others, and otherwise changes in the
cleared events of the timers of served connections. -/
theorem pass_exact {s₁ : Server} {inp : RoundInput} (h : Reachable Start ServingRound s)
    (hlen : s.fdsBuf.len < 2 ^ 27) (hvalid : Valid inp s.connsQueue s.kernel)
    (hsucc : inp.Succeeds) (hrecv : ∀ a e, (inp.conn a).recv ≠ .fail e)
    (hsend : ∀ a e, (inp.conn a).send ≠ .fail e) (hadd : pollAndAccept inp s = .ok s₁) :
    ∃ s', pass inp s₁ = .ok s' ∧
      (s₁.connsQueue.map (·.val.connFd)).Nodup ∧
      recvs s'.kernel.log =
        recvs s₁.kernel.log ++ (s₁.connsQueue.filter s₁.serving).map (·.val.connFd) ∧
      s'.connsQueue = s₁.connsQueue.filter (fun n => !s₁.dropping inp n) ∧
      s'.fdsBuf.contents =
        sweep (s₁.dropping inp) s₁.serving s₁.connsQueue s₁.fdsBuf.contents := by
  obtain ⟨v, hshows, hm, ho⟩ := Reachable.owned h
  rcases hshows.pollAndAccept_spec hm hlen hvalid with
    herr | herr | herr | ⟨revents, s₂, hpoll, hok, h₁, hm₁⟩
  · rw [herr] at hadd; cases hadd
  · rw [herr] at hadd; cases hadd
  · rw [herr] at hadd; cases hadd
  · obtain rfl := Except.ok.inj (hok.symm.trans hadd)
    rw [hshows.conns, hshows.kernel] at hvalid
    have ho₁ := ho.accepted hm hvalid hsucc hpoll
    generalize (v.poll revents inp.pollDelay).accepted inp = w at h₁ hm₁ ho₁
    obtain ⟨hlistener, hconns, hclients, hlog, -⟩ :=
      View.passOver_spec inp.conn hm₁ ho₁ (P := []) rfl
    rcases h₁.pass_spec inp hm₁ with ⟨n, -, e, he, -⟩ | ⟨s', hok', h', -⟩
    · exact absurd he (ConnInput.exchange_ok (hrecv n.addr) (hsend n.addr) e)
    · refine ⟨s', hok', ?_, ?_, ?_, ?_⟩
      · rw [h₁.conns]
        exact ho₁.connFds_nodup hm₁
      · rw [h'.kernel, h₁.kernel, h₁.conns, h₁.serving_eq hm₁ ho₁]
        exact hlog
      · rw [h'.conns, h₁.conns, h₁.dropping_eq hm₁ ho₁]
        exact hconns
      · rw [h'.fdsBuf.contents_eq, h₁.fdsBuf.contents_eq, h₁.conns, h₁.serving_eq hm₁ ho₁,
          h₁.dropping_eq hm₁ ho₁, hm₁.sweep_listener, hlistener, hclients]

theorem twoClients_serving (h : twoClients = .ok s) : Reachable Start ServingRound s := by
  obtain ⟨s₁, hfirst, hsecond, -⟩ := twoClients_rounds h
  exact ((Reachable.start started_fresh).next
    ⟨hfirst, fun _ _ _ => ⟨⟨4, rfl⟩, ⟨5, rfl⟩, rfl⟩⟩).next
      ⟨hsecond, fun _ _ _ => ⟨⟨6, rfl⟩, ⟨7, rfl⟩, rfl⟩⟩

/-- It sends two bytes. -/
def talking : ConnInput := { quiet with recv := .data [104, 105] (by decide) }

/-- Of two clients, the first one closes while its timer is ready too, and the second one
sends something: recv is called once for each of them, and the first one goes. -/
theorem pass_exact_closed :
    ∃ s₁ s' : Server, ∃ inp, s₁.connsQueue = [⟨1, ⟨4, 5⟩⟩, ⟨2, ⟨6, 7⟩⟩] ∧
      pass inp s₁ = .ok s' ∧ recvs s'.kernel.log = [4, 6] ∧ s'.connsQueue = [⟨2, ⟨6, 7⟩⟩] := by
  let leave := serving 0 (fun i => if i = 0 ∨ i = 4 then 0 else pollIn) fun a =>
    if a = 1 then quiet else talking
  have hrun : (twoClients >>= fun s => (pollAndAccept leave s).map fun s₁ =>
      decide (s.fdsBuf.len = 5 ∧ s₁.connsQueue = [⟨1, ⟨4, 5⟩⟩, ⟨2, ⟨6, 7⟩⟩] ∧
        recvs s₁.kernel.log = [] ∧
        s₁.connsQueue.filter s₁.serving = [⟨1, ⟨4, 5⟩⟩, ⟨2, ⟨6, 7⟩⟩] ∧
        s₁.connsQueue.filter (fun n => !s₁.dropping leave n) = [⟨2, ⟨6, 7⟩⟩])) = .ok true := by
    decide +kernel
  obtain ⟨s, hconnect, hrest⟩ := Except.bind_eq_ok.1 hrun
  obtain ⟨s₁, hadd, hfacts⟩ := Except.map_eq_ok.1 hrest
  obtain ⟨hlen, hconns, hbefore, hserving, hdropping⟩ := of_decide_eq_true hfacts
  have hidle : leave.Succeeds := by
    rintro _ ⟨rfl⟩ hready
    exact absurd hready (by decide)
  have hrecv : ∀ a e, (leave.conn a).recv ≠ .fail e := fun a e => by
    by_cases ha : a = 1 <;> simp [leave, serving, ha, quiet, talking]
  have hsend : ∀ a e, (leave.conn a).send ≠ .fail e := fun a e => by
    by_cases ha : a = 1 <;> simp [leave, serving, ha, quiet, talking]
  obtain ⟨s', hpass, -, hrecvs, hconns', -⟩ := pass_exact (twoClients_serving hconnect)
    (by rw [hlen]; decide) serving_valid hidle hrecv hsend hadd
  exact ⟨s₁, s', leave, hconns, hpass, by rw [hrecvs, hbefore, hserving]; rfl,
    by rw [hconns', hdropping]⟩

end LinuxNet.TimerServer
