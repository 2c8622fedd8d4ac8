-- SUMMARY: When a failing connection leaves the others of the timer server as if it had been closed by its peer.
import LinuxNet.TimerServer.Outside

/-! # Fault isolation

The round is compared with the same round in which one of the connections is
closed by its peer. As long as the program goes on, nothing outside of that
connection tells the two apart; but an exchange that fails ends the program. -/

namespace LinuxNet.TimerServer

variable {s s' s₀ : Server} {v w : View} {inp : RoundInput} {P R : Stailq Connection}
  {n : Node Connection} {a b : Nat} {c d : Connection} {fd : Int}

/-- The round in which the peer at address `a` has closed its connection. -/
def RoundInput.closing (inp : RoundInput) (a : Nat) : RoundInput :=
  { inp with
    conn := Function.update inp.conn a { inp.conn a with recv := .data [] (Nat.zero_le _) } }

/-- The two states differ in the connection `n` only: in its node, in the
entries of its descriptors, and in what the kernel keeps for these. -/
structure Server.SameBut (n : Node Connection) (s s' : Server) : Prop where
  conns : s.connsQueue.filter (fun m => m.addr ≠ n.addr) =
    s'.connsQueue.filter fun m => m.addr ≠ n.addr
  entries : s.fdsBuf.contents.filter (fun p => !n.val.owns p.fd) =
    s'.fdsBuf.contents.filter fun p => !n.val.owns p.fd
  kernel : s.kernel.outside n.val = s'.kernel.outside n.val

/-- Whether the first entry for the socket of `c` has an event. -/
def Server.socketReady (s : Server) (c : Connection) : Bool :=
  (((s.fdsBuf.contents.find? (·.fd = c.connFd)).map PollFd.revents).getD 0).has activity

/-- poll reports the socket of `n`, and the exchange with its peer fails. -/
def RoundInput.Fails (inp : RoundInput) (s : Server) (n : Node Connection) : Prop :=
  (∃ s₁, mypoll inp s = .ok s₁ ∧ s₁.socketReady n.val) ∧
    ∃ e, (inp.conn n.addr).exchange = .error e

/-! ## Passes that come to their end -/

namespace View

/-- No exchange with a ready connection of `R` fails in the pass over `R`. -/
def Passes (input : Nat → ConnInput) : Stailq Connection → View → Prop
  | [], _ => True
  | n :: R, v => (v.socketReady n.val → ∀ e, (input n.addr).exchange ≠ .error e) ∧
      Passes input R (v.process (input n.addr) n.addr n.val)

theorem passes_append {input : Nat → ConnInput} : v.Passes input (P ++ R) ↔
    v.Passes input P ∧ (v.passOver input P).Passes input R := by
  induction P generalizing v with
  | nil => simp [Passes, passOver]
  | cons n P ih => simp only [List.cons_append, Passes, ih, and_assoc]; rfl

/-- A pass depends on the inputs of its connections only. -/
theorem passOver_congr {input input' : Nat → ConnInput}
    (h : ∀ n ∈ R, input n.addr = input' n.addr) :
    v.passOver input R = v.passOver input' R ∧ (v.Passes input R ↔ v.Passes input' R) := by
  induction R generalizing v with
  | nil => exact ⟨rfl, Iff.rfl⟩
  | cons n R ih =>
    have hn := h n List.mem_cons_self
    obtain ⟨hpass, hpasses⟩ := ih (v := v.process (input n.addr) n.addr n.val)
      fun m hm => h m (List.mem_cons_of_mem _ hm)
    rw [hn] at hpass hpasses
    exact ⟨by simp only [passOver, List.foldl_cons, hn] at hpass ⊢; exact hpass,
      by simp only [Passes, hn, hpasses]⟩

end View

/-- An exchange that fails ends the program. -/
theorem Server.Shows.processConnection_fails (h : s.Shows v) {input : ConnInput} {e : Int}
    (hget : v.conns.get a = some c) (hconn : c.connFd ∈ v.clients.map PollFd.fd)
    (htimer : c.timerFd ∈ v.clients.map PollFd.fd) (hready : v.socketReady c)
    (hfails : input.exchange = .error e) :
    processConnection input a s = .error (.returned e) := by
  have hentry : c.connFd ∈ (v.listener :: v.clients).map PollFd.fd := by simp [hconn]
  have hentry' : c.timerFd ∈ (v.listener :: v.clients).map PollFd.fd := by simp [htimer]
  obtain ⟨ci, p, hci, hp, hpfind⟩ := exists_findIdx? hentry
  obtain ⟨ti, t, hti, ht, -⟩ := exists_findIdx? hentry'
  have hfindConn : findFd c.connFd s.fdsBuf = .ok (some ci) := by rw [h.fdsBuf.findFd_eq, hci]
  have hfindTimer : findFd c.timerFd s.fdsBuf = .ok (some ti) := by rw [h.fdsBuf.findFd_eq, hti]
  have hload : s.fdsBuf.load ci = .ok p := h.fdsBuf.load hp
  have hevents : p.revents.has activity = true := by
    simpa only [View.socketReady, View.eventsOf, View.entries, hpfind, Option.map_some,
      Option.getD_some] using hready
  simp [processConnection, h.conns, hget, hfindConn, hfindTimer, serveSocket, hload, hevents,
    handleData_eq, hfails]

/-- The pass of the program comes to its end exactly if no exchange fails. -/
theorem Server.Shows.passFrom_iff (input : Nat → ConnInput) (h : s.Shows v) (hm : v.Mirror)
    (hconns : v.conns = P ++ R) :
    (∃ s', passFrom input R.length (Stailq.first R) s = .ok s') ↔ v.Passes input R := by
  induction R generalizing s v P with
  | nil => exact iff_of_true ⟨s, rfl⟩ trivial
  | cons n R ih =>
    obtain ⟨a, c⟩ := n
    have ha := hm.addr_not_mem hconns
    have hget : v.conns.get a = some c := by rw [hconns, Stailq.get_middle ha]
    have hnext : s.connsQueue.next a = Stailq.first R := by
      rw [h.conns, hconns, Stailq.next_middle ha]
    have hne : v.listener.fd ≠ c.timerFd :=
      fun he => hm.listenerFresh (he ▸ hm.timerFd_mem hconns)
    have hstep : passFrom input (R.length + 1) (some a) s =
        (processConnection (input a) a s >>= passFrom input R.length (Stailq.first R)) := by
      rw [passFrom, hnext]
    rw [List.length_cons, show Stailq.first (⟨a, c⟩ :: R) = some a from rfl, hstep]
    by_cases hfails : v.socketReady c = true ∧ ∃ e, (input a).exchange = .error e
    · obtain ⟨hready, e, he⟩ := hfails
      rw [h.processConnection_fails hget (hm.connFd_mem hconns) (hm.timerFd_mem hconns) hready he]
      exact iff_of_false (by simp) fun hpasses => hpasses.1 hready e he
    · rcases h.processConnection_spec (input a) hget (hm.connFd_mem hconns)
        (hm.timerFd_mem hconns) hne with ⟨e, hready, he, -⟩ | ⟨s₁, hok, h₁⟩
      · exact absurd ⟨hready, e, he⟩ hfails
      · rw [hok, Except.bind_ok]
        obtain ⟨P', hP'⟩ := hm.process_conns hconns (input a)
        rw [ih h₁ (hm.process hconns (input a)).1 hP', View.Passes]
        exact (and_iff_right fun hready e he => hfails ⟨hready, e, he⟩).symm

/-! ## Passes over other connections -/

namespace View

/-- A pass over other connections does outside of `c` what it does there. -/
theorem passOver_outside (input : Nat → ConnInput) (haddr : ∀ n ∈ R, n.addr ≠ a)
    (hdisj : ∀ n ∈ R, ∀ fd, n.val.owns fd → c.owns fd → fd < 0)
    (hquiet : ∀ fd < 0, v.Quiet fd) :
    (v.passOver input R).outside a c = (v.outside a c).passOver input R ∧
      (v.Passes input R ↔ (v.outside a c).Passes input R) ∧
      (v.passOver input R).eventsOf c.connFd = v.eventsOf c.connFd ∧
      ∀ fd < 0, (v.passOver input R).Quiet fd := by
  induction R generalizing v with
  | nil => exact ⟨rfl, Iff.rfl, rfl, hquiet⟩
  | cons n R ih =>
    obtain ⟨b, d⟩ := n
    have hshared : ∀ fd, d.owns fd → c.owns fd → fd < 0 := hdisj ⟨b, d⟩ List.mem_cons_self
    have hconn : c.owns d.connFd → v.Quiet d.connFd := fun hown =>
      hquiet _ (hshared _ d.owns_connFd hown)
    have hprocess : (v.process (input b) b d).outside a c = (v.outside a c).process (input b) b d :=
      outside_process (haddr ⟨b, d⟩ List.mem_cons_self) hconn fun hown =>
        ⟨hshared _ d.owns_timerFd hown, hquiet _ (hshared _ d.owns_timerFd hown)⟩
    have hsocket : (v.outside a c).socketReady d = v.socketReady d := by
      rw [socketReady, socketReady, outside_eventsOf hconn]
    have hevents : (v.process (input b) b d).eventsOf c.connFd = v.eventsOf c.connFd :=
      process_eventsOf (input b) fun hown => hquiet _ (hshared _ hown c.owns_connFd)
    obtain ⟨hpass, hpasses, hrest, hend⟩ := ih (v := v.process (input b) b d)
      (fun m hm => haddr m (List.mem_cons_of_mem _ hm))
      (fun m hm => hdisj m (List.mem_cons_of_mem _ hm))
      (fun fd hfd => (hquiet fd hfd).process _ b d)
    refine ⟨?_, ?_, hrest.trans hevents, hend⟩
    · rw [hprocess] at hpass
      exact hpass
    · rw [hprocess] at hpasses
      simp only [Passes, hsocket, hpasses]

/-- The two passes: one in which the peer of `c` has closed the connection, and
one in which anything may happen to the exchange with it. -/
theorem isolated (hm : w.Mirror) (ha : w.Apart) (hquiet : ∀ fd < 0, w.Quiet fd)
    (hconns : w.conns = P ++ ⟨a, c⟩ :: R) (hpasses : w.Passes (inp.closing a).conn w.conns) :
    (w.Passes inp.conn w.conns ↔ (w.socketReady c → ∀ e, (inp.conn a).exchange ≠ .error e)) ∧
    (w.passOver inp.conn w.conns).outside a c =
      (w.passOver (inp.closing a).conn w.conns).outside a c := by
  have hdisj := ha.disjoint hconns
  have hbefore : ∀ n ∈ P, n.addr ≠ a := fun n hn he =>
    hm.addr_not_mem hconns (he ▸ List.mem_map_of_mem hn)
  have hbehind : ∀ n ∈ R, n.addr ≠ a := by
    have haddrs := hm.addrs
    rw [hconns, Stailq.addrs, List.map_append, List.map_cons, List.nodup_append,
      List.nodup_cons] at haddrs
    intro n hn he
    have hmem := List.mem_map_of_mem (f := Node.addr) hn
    rw [he] at hmem
    exact haddrs.2.1.1 hmem
  have hsame : ∀ b ≠ a, inp.conn b = (inp.closing a).conn b := fun b hb =>
    (Function.update_of_ne hb _ _).symm
  -- up to `c` the passes are the same
  obtain ⟨hpassP, hpassesP⟩ := passOver_congr (v := w) fun n hn => hsame n.addr (hbefore n hn)
  obtain ⟨-, -, hevents, hquietP⟩ := passOver_outside (v := w) (a := a) (c := c) inp.conn hbefore
    (fun n hn => hdisj n (List.mem_append_left _ hn)) hquiet
  have hready : (w.passOver inp.conn P).socketReady c = w.socketReady c := by
    rw [socketReady, socketReady, hevents]
  rw [hconns, passes_append, Passes, ← hpassesP, ← hpassP] at hpasses
  obtain ⟨hpassesP', -, hpassesR⟩ := hpasses
  have hfold : ∀ input, w.passOver input (P ++ ⟨a, c⟩ :: R) =
      ((w.passOver input P).process (input a) a c).passOver input R := fun input => by
    simp only [passOver, List.foldl_append, List.foldl_cons]
  rw [hconns, passes_append, Passes, hready, hfold, hfold, ← hpassP]
  generalize w.passOver inp.conn P = u at hquietP hpassesR ⊢
  -- outside of `c`, the loop body on `c` does the same in both
  have hown : (u.process (inp.conn a) a c).outside a c =
      (u.process ((inp.closing a).conn a) a c).outside a c := by
    rw [outside_process_own, outside_process_own]
    simp [RoundInput.closing]
  have hrest := fun input' => passOver_outside (v := u.process input' a c) inp.conn hbehind
    (fun n hn => hdisj n (List.mem_append_right _ hn)) fun fd hfd => (hquietP fd hfd).process _ a c
  obtain ⟨hpass, hpasses, -, -⟩ := hrest (inp.conn a)
  obtain ⟨hpass', hpasses', -, -⟩ := hrest ((inp.closing a).conn a)
  obtain ⟨hpassR, hpassesR'⟩ := passOver_congr (v := u.process ((inp.closing a).conn a) a c)
    fun n hn => hsame n.addr (hbehind n hn)
  have hgoes : (u.process (inp.conn a) a c).Passes inp.conn R := by
    rw [hpasses, hown, ← hpasses', hpassesR']
    exact hpassesR
  refine ⟨?_, ?_⟩
  · rw [and_iff_right hpassesP', and_iff_left hgoes]
  · rw [← hpassR, hpass, hpass', hown]

end View

/-! ## Rounds -/

theorem Server.Shows.sameBut {w' : View} (h : s.Shows w) (h' : s'.Shows w')
    (hsame : w.outside n.addr n.val = w'.outside n.addr n.val) : s.SameBut n s' := by
  have hconns := congrArg View.conns hsame
  have hlistener := congrArg View.listener hsame
  have hclients := congrArg View.clients hsame
  have hkernel := congrArg View.kernel hsame
  simp only [View.outside] at hconns hlistener hclients hkernel
  refine ⟨?_, ?_, ?_⟩
  · rw [h.conns, h'.conns]
    exact hconns
  · rw [h.fdsBuf.contents_eq, h'.fdsBuf.contents_eq, List.filter_cons, List.filter_cons, hlistener,
      hclients]
  · rw [h.kernel, h'.kernel]
    exact hkernel

theorem Server.Shows.pass_iff (inp : RoundInput) (h : s.Shows v) (hm : v.Mirror) :
    (∃ s', pass inp s = .ok s') ↔ v.Passes inp.conn v.conns := by
  rw [pass, h.conns]
  exact h.passFrom_iff inp.conn hm (P := []) rfl

/-- A connection of the loop top is found ready in the pass exactly if poll has
reported its socket. -/
theorem Server.Shows.ready_iff {revents : Nat → Events} (inp : RoundInput) (h : s.Shows v)
    (hm : v.Mirror) (hpoll : inp.poll = some revents) (hn : n ∈ v.conns) :
    (∃ s₁, mypoll inp s = .ok s₁ ∧ s₁.socketReady n.val) ↔
      ((v.poll revents inp.pollDelay).accepted inp).socketReady n.val := by
  obtain ⟨s₁, hok, h₁⟩ := h.mypoll_spec hpoll
  have hpolled : s₁.socketReady n.val = (v.poll revents inp.pollDelay).socketReady n.val := by
    rw [Server.socketReady, h₁.fdsBuf.contents_eq]
    rfl
  have haccepted : ((v.poll revents inp.pollDelay).accepted inp).socketReady n.val =
      (v.poll revents inp.pollDelay).socketReady n.val := by
    have hmem : n.val.connFd ∈ (v.poll revents inp.pollDelay).entries.map PollFd.fd := by
      apply List.mem_cons_of_mem
      rw [← Multiset.mem_coe, (hm.poll revents inp.pollDelay).fds]
      exact mem_connFds.2 ⟨n, hn, .inl rfl⟩
    rcases View.accepted_cases inp (v.poll revents inp.pollDelay) with hsame | ⟨a, -, -, hadd⟩
    · rw [hsame]
    · rw [hadd, View.socketReady, View.add_eventsOf hmem]
      rfl
  rw [haccepted, ← hpolled]
  constructor
  · rintro ⟨s₂, hok₂, hready⟩
    rwa [Except.ok.inj (hok.symm.trans hok₂)]
  · exact fun hready => ⟨s₁, hok, hready⟩

/-- In every reachable state, and with any outcome of the calls on a connection,
the round goes on and ends like the one in which the peer closed that connection,
up to the connection itself, exactly if the exchange does not fail. -/
theorem isolated_iff (h : Reachable Start Round s) (hn : n ∈ s.connsQueue)
    (hclosing : Round s (inp.closing n.addr) s₀) :
    (∃ s', round inp s = .ok s' ∧ s'.SameBut n s₀) ↔ ¬ inp.Fails s n := by
  obtain ⟨v, hshows, hm, ha⟩ := Reachable.apart h
  rw [hshows.conns] at hn
  obtain ⟨revents, s₁, w, hpoll, hok, hpass, hw, h₁, hm₁, ha₁, hquiet, h₀, -⟩ :=
    hclosing.spec hshows hm ha
  have hready := hshows.ready_iff inp hm hpoll hn
  have hmem : n ∈ w.conns := by
    rw [hw]
    rcases View.accepted_cases (inp.closing n.addr) (v.poll revents _) with hsame | ⟨a, -, -, hadd⟩
    · rw [hsame]
      exact hn
    · rw [hadd]
      exact List.mem_append_left _ hn
  obtain ⟨P, R, hconns⟩ := List.append_of_mem hmem
  obtain ⟨hpasses, houtside⟩ :=
    View.isolated hm₁ ha₁ hquiet hconns ((h₁.pass_iff _ hm₁).1 ⟨s₀, hpass⟩)
  have hround : round inp s = pass inp s₁ := by
    have hsame : pollAndAccept inp s = .ok s₁ := hok
    rw [round_eq, hsame, Except.bind_ok]
  have hfails : inp.Fails s n ↔ ¬ w.Passes inp.conn w.conns := by
    rw [hpasses, RoundInput.Fails, hready, hw]
    simp only [not_forall, not_not, exists_prop]
    rfl
  rw [hround, hfails, not_not]
  constructor
  · rintro ⟨s', hok', -⟩
    exact (h₁.pass_iff inp hm₁).1 ⟨s', hok'⟩
  · intro hgoes
    obtain ⟨s', hok'⟩ := (h₁.pass_iff inp hm₁).2 hgoes
    rcases h₁.pass_spec inp hm₁ with ⟨-, -, e, -, herr⟩ | ⟨s₂, hok₂, h₂, -⟩
    · rw [herr] at hok'; cases hok'
    · exact ⟨s₂, hok₂, h₂.sameBut h₀ houtside⟩

/-- The first of two clients sends two bytes. The round ends like the one in which it
leaves, up to its own connection. -/
theorem isolated_iff_sent : ∃ (s s₀ s' : Server) (inp : RoundInput),
    s.connsQueue = [⟨1, ⟨4, 5⟩⟩, ⟨2, ⟨6, 7⟩⟩] ∧ round (inp.closing 1) s = .ok s₀ ∧
      s₀.connsQueue = [⟨2, ⟨6, 7⟩⟩] ∧ round inp s = .ok s' ∧ s'.SameBut ⟨1, ⟨4, 5⟩⟩ s₀ := by
  let client : ConnInput := { quiet with recv := .data [104, 105] (by decide) }
  let exchange := serving 0 (fun i => if i = 1 then pollIn else 0) fun _ => client
  have hrun : (twoClients >>= fun s => (round (exchange.closing 1) s).map fun s₀ =>
      decide (s.fdsBuf.len = 5 ∧ s.connsQueue = [⟨1, ⟨4, 5⟩⟩, ⟨2, ⟨6, 7⟩⟩] ∧
        s₀.connsQueue = [⟨2, ⟨6, 7⟩⟩])) = .ok true := by
    decide +kernel
  obtain ⟨s, hconnect, hrest⟩ := Except.bind_eq_ok.1 hrun
  obtain ⟨s₀, hclosing, hfacts⟩ := Except.map_eq_ok.1 hrest
  obtain ⟨hlen, hconns, hleft⟩ := of_decide_eq_true hfacts
  have hround : Round s (exchange.closing 1) s₀ := by
    refine ⟨by rw [hlen]; decide, ⟨?_, ?_, ?_⟩, hclosing⟩ <;>
      simp [exchange, serving, RoundInput.closing]
  have hgoes : ¬ exchange.Fails s ⟨1, ⟨4, 5⟩⟩ := by
    rintro ⟨-, e, he⟩
    have hok : client.exchange = .ok false := by decide +kernel
    cases hok.symm.trans he
  obtain ⟨s', hok, hsame⟩ :=
    (isolated_iff (twoClients_reachable hconnect) (by rw [hconns]; simp) hround).2 hgoes
  exact ⟨s, s₀, s', exchange, hconns, hclosing, hleft, hok, hsame⟩

/-- A client resets its connection, and the program ends. -/
theorem not_isolated : ¬ ∀ s inp n s₀, Reachable Start Round s → n ∈ s.connsQueue →
    Round s (inp.closing n.addr) s₀ → ∃ s', round inp s = .ok s' ∧ s'.SameBut n s₀ := by
  let client : ConnInput := ⟨0, .fail ⟨104, by decide⟩, .sent 0, 0, none, true, true⟩
  let connect := connecting client
  let exchange : RoundInput := { connect with
    poll := some fun i => if i = 0 then 0 else pollIn
    accept := none, timerfdCreate := none, malloc := none }
  have hrun : (round connect (started 3 freshKernel) >>= fun s =>
      (round (exchange.closing 1) s).map fun _ =>
        decide (s.fdsBuf.len = 3 ∧ s.connsQueue = [⟨1, ⟨4, 5⟩⟩] ∧
          (round exchange s).toOption.isNone)) = .ok true := by
    decide +kernel
  obtain ⟨s, hconnect, hrest⟩ := Except.bind_eq_ok.1 hrun
  obtain ⟨s₀, hclosing, hfacts⟩ := Except.map_eq_ok.1 hrest
  obtain ⟨hlen, hconns, hends⟩ := of_decide_eq_true hfacts
  have hreach : Reachable Start Round s := (Reachable.start started_fresh).next
    ⟨show 1 < 2 ^ 27 by decide, connecting_valid client, hconnect⟩
  have hround : Round s (exchange.closing 1) s₀ := by
    refine ⟨by rw [hlen]; decide, ⟨?_, ?_, ?_⟩, hclosing⟩ <;>
      simp [exchange, RoundInput.closing]
  intro hall
  obtain ⟨s', hok, -⟩ := hall s exchange ⟨1, ⟨4, 5⟩⟩ s₀ hreach (by rw [hconns]; simp) hround
  rw [hok] at hends
  cases hends

end LinuxNet.TimerServer
