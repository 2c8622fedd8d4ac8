-- SUMMARY: The TLS server slot by slot, between clients that write records and a network that delivers them in pieces.
import LinuxNet.Base.Tls
import LinuxNet.OpenSslServer.Sessions

/-! # Records

poll reports what is in the sockets, and SSL_read takes records. -/

namespace LinuxNet.OpenSslServer

open Tls (Conn Record)

/-- The server between two visits of its loop, and what its clients have sent. -/
structure World where
  server : Server
  /-- The slot that is visited next, or none at the top of `while (1)`. -/
  slot : Option Nat
  conn : Session → Conn

/-- What happens next: a client writes a record, closes or resets its connection,
`n` bytes arrive, or the server calls poll or visits the next slot. -/
inductive Label
  | write (x : Session) (r : Record)
  | arrive (x : Session) (n : Nat)
  | close (x : Session)
  | reset (x : Session)
  | poll (waiting : Bool)
  | visit (accept : Option Nat) (sslAccept : Bool)

def Label.isVisit : Label → Bool
  | .visit _ _ => true
  | _ => false

namespace World

/-- A session with a client. The listening socket has one too. -/
def IsClient (w : World) (x : Session) : Prop :=
  x ∈ w.server.sessions.live ∧ x.fd ≠ w.server.sockServer

instance (w : World) (x : Session) : Decidable (w.IsClient x) := by
  unfold IsClient
  infer_instance

def setConn (x : Session) (c : Conn) (w : World) : World :=
  { w with conn := Function.update w.conn x c }

/-- What poll reports for each slot, `waiting` for the listening socket. -/
def revents (waiting : Bool) (w : World) (i : Nat) : Events :=
  if i = 0 then if waiting then pollIn else 0
  else match w.server.arrSsl i with
    | some x => if (w.conn x).Readable then pollIn else 0
    | none => 0

def input (accept : Option Nat) (sslAccept : Bool) (w : World) : RoundInput where
  poll := none
  accept := accept
  sslAccept := sslAccept
  sslRead := fun x => (w.conn x).read messageSize

/-- The session that the next visit reads from, if it is one of a client that poll
has reported. -/
def reading (w : World) : Option Session := do
  let i ← w.slot
  if (w.server.fds i).revents.has pollIn ∧ (w.server.fds i).fd ≠ w.server.sockServer then
    w.server.arrSsl i
  else none

/-- The connections after the next visit. Nothing has been sent on a session that
the visit creates. -/
def afterVisit (w : World) (x : Session) : Conn :=
  if x ∈ w.server.sessions.live then
    if w.reading = some x then (w.conn x).afterRead messageSize else w.conn x
  else .new

end World

/-- The slot that the `for` loop goes to. -/
def slotFrom (i : Nat) (s : Server) : Option Nat := if i < s.nfds then some i else none

/-- One step. poll does not time out: it waits until there is something to report. -/
def step (w : World) : Label → Option World
  | .write x r =>
    if w.IsClient x ∧ (w.conn x).Alive then some (w.setConn x ((w.conn x).write r)) else none
  | .arrive x n =>
    if w.IsClient x ∧ n ≤ (w.conn x).inFlight then some (w.setConn x ((w.conn x).arrive n))
    else none
  | .close x =>
    if w.IsClient x ∧ (w.conn x).inFlight = 0 then some (w.setConn x (w.conn x).close) else none
  | .reset x => if w.IsClient x then some (w.setConn x (w.conn x).reset) else none
  | .poll waiting =>
    if w.slot = none ∧ ∃ i < w.server.nfds, w.revents waiting i ≠ 0 then
      let s := w.server.poll (w.revents waiting)
      some { w with server := s, slot := slotFrom 0 s }
    else none
  | .visit accept sslAccept => do
    let i ← w.slot
    if ∀ fd ∈ accept, (fd : Int) ∉ w.server.openFds then
      let s ← (visit (w.input accept sslAccept) i w.server).toOption
      some { server := s, slot := slotFrom (i + 1) s, conn := w.afterVisit }
    else none

def Step (w : World) (l : Label) (w' : World) : Prop := step w l = some w'

def start (sockServer : Nat) (openFds : Finset Int) : World where
  server := startUp sockServer openFds
  slot := none
  conn := fun _ => .new

variable {s s' : Server} {w w' : World} {l : Label} {ls : List Label} {i n : Nat} {x y : Session}
  {inp : RoundInput} {sockServer : Nat} {openFds : Finset Int}

/-! ## The visit of a slot -/

/-- Whether the server drops a client for what SSL_read returned. -/
def disconnects : RecvResult messageSize → Bool
  | .fail _ => true
  | .data bytes _ => bytes = [] || isQuit (filled messageSize bytes)

namespace Server

theorem dropClient_sessions (hx : s.arrSsl i = some x)
    (hlive : x ∈ s.sessions.live) (hdrop : s.dropClient i = .ok s') :
    s'.sessions = s.sessions.giveBack x := by
  have hfree : (s.close i).sslFree i = .ok { (s.close i).record (.sslFree x) with
      sessions := s.sessions.giveBack x } := sslFree_eq hx hlive
  rw [Server.dropClient, hfree, Except.bind_ok] at hdrop
  obtain rfl := Except.ok.inj hdrop
  rfl

/-- The visit of a client that poll has reported. -/
theorem Paired.visit_read (h : s.Paired) (hready : (s.fds i).revents.has pollIn)
    (hserver : (s.fds i).fd ≠ s.sockServer) (hx : s.arrSsl i = some x)
    (hvisit : OpenSslServer.visit inp i s = .ok s') :
    if disconnects (inp.sslRead x) then s'.sessions = s.sessions.giveBack x
    else s'.sessions = s.sessions ∧ .sslWrite x ∈ s'.calls := by
  have hlive : x ∈ s.sessions.live := (h.live x).2 ⟨i, hx⟩
  unfold OpenSslServer.visit OpenSslServer.serveClient at hvisit
  rw [if_pos hready, if_neg hserver, session_eq hx hlive, Except.bind_ok] at hvisit
  dsimp only at hvisit
  cases hresult : inp.sslRead x with
  | fail e =>
    rw [hresult] at hvisit
    exact dropClient_sessions (s := s.record (.sslRead x)) hx hlive hvisit
  | data bytes hb =>
    rw [hresult] at hvisit
    dsimp only at hvisit
    unfold disconnects
    split at hvisit
    · rw [if_pos ‹_›]
      exact dropClient_sessions (s := s.record (.sslRead x)) hx hlive hvisit
    · rw [if_neg ‹_›]
      have hwrite : ((s.record (.sslRead x)).record (.terminate bytes.length)).session i = .ok x :=
        session_eq hx hlive
      rw [hwrite, Except.bind_ok] at hvisit
      obtain rfl := Except.ok.inj hvisit
      exact ⟨rfl, by simp [Server.record]⟩

/-- Another visit drops no client. -/
theorem Paired.visit_keeps (h : s.Paired) (hi : i < s.nfds)
    (hfresh : ∀ fd ∈ inp.accept, (fd : Int) ∉ s.openFds)
    (hidle : (s.fds i).revents.has pollIn → (s.fds i).fd = s.sockServer)
    (hvisit : OpenSslServer.visit inp i s = .ok s') (hx : x ∈ s.sessions.live) :
    x ∈ s'.sessions.live := by
  by_cases hready : (s.fds i).revents.has pollIn = true
  · obtain rfl : i = 0 := h.fd_inj hi h.pos ((hidle hready).trans h.listener.symm)
    obtain ⟨t, ht, -, hvisited⟩ := h.visit inp hi fun _ => hfresh
    obtain rfl := Except.ok.inj (ht.symm.trans hvisit)
    cases hvisited with
    | quiet _ hsessions => rwa [hsessions]
    | dropped _ h0 => exact absurd rfl h0
    | unplaced _ _ _ _ _ hsessions => rwa [hsessions]
    | placed fd number _ _ _ hsessions =>
      rw [hsessions]
      exact Multiset.mem_cons_of_mem hx
    | refused fd number _ _ _ hsessions =>
      rw [hsessions]
      simpa [Lease.grant, Lease.giveBack] using hx
  · rw [OpenSslServer.visit, if_neg hready] at hvisit
    obtain rfl := Except.ok.inj hvisit
    exact hx

end Server

/-! ## Steps -/

/-- The arrays are in order, and the loop is at one of their clients. -/
structure World.Valid (w : World) : Prop where
  paired : w.server.Paired
  slot : ∀ i, w.slot = some i → i < w.server.nfds

theorem slotFrom_lt (h : slotFrom i s = some n) : n < s.nfds := by
  obtain ⟨hlt, h⟩ := Option.ite_none_right_eq_some.1 h
  exact Option.some.inj h ▸ hlt

/-- What a visit does to the sessions. -/
inductive Visits (w w' : World) : Prop
  | dropped (x : Session) (hread : w.reading = some x)
      (hdrop : disconnects ((w.conn x).read messageSize) = true)
      (hsessions : w'.server.sessions = w.server.sessions.giveBack x)
  | answered (x : Session) (hread : w.reading = some x)
      (hkeep : disconnects ((w.conn x).read messageSize) = false)
      (hsessions : w'.server.sessions = w.server.sessions)
      (hwrite : .sslWrite x ∈ w'.server.calls)
  | other (hidle : w.reading = none)
      (hkeep : ∀ x ∈ w.server.sessions.live, x ∈ w'.server.sessions.live)

theorem step_visit {accept : Option Nat} {sslAccept : Bool}
    (h : Step w (.visit accept sslAccept) w') : ∃ i s, w.slot = some i ∧
      (∀ fd ∈ accept, (fd : Int) ∉ w.server.openFds) ∧
      visit (w.input accept sslAccept) i w.server = .ok s ∧
      w' = ⟨s, slotFrom (i + 1) s, w.afterVisit⟩ := by
  obtain ⟨i, hslot, h⟩ := Option.bind_eq_some_iff.1 h
  obtain ⟨hfresh, h⟩ := Option.ite_none_right_eq_some.1 h
  obtain ⟨s, hvisit, h⟩ := Option.bind_eq_some_iff.1 h
  refine ⟨i, s, hslot, hfresh, ?_, (Option.some.inj h).symm⟩
  cases hrun : visit (w.input accept sslAccept) i w.server with
  | error e => simp [hrun, Except.toOption] at hvisit
  | ok t =>
    rw [hrun] at hvisit
    rw [Option.some.inj hvisit]

/-- The other steps change no session, and decrypt nothing. -/
theorem step_other (h : Step w l w') (hl : ¬ l.isVisit = true) :
    w'.server.sessions = w.server.sessions ∧
      ∀ x, (w'.conn x).pending = (w.conn x).pending := by
  have hset : ∀ x c, c.pending = (w.conn x).pending → ∀ y,
      ((w.setConn x c).conn y).pending = (w.conn y).pending := by
    intro x c hc y
    by_cases hy : y = x
    · simp [World.setConn, hy, hc]
    · simp [World.setConn, hy]
  cases l with
  | write | arrive | close | reset =>
    obtain ⟨-, h⟩ := Option.ite_none_right_eq_some.1 h
    obtain rfl := Option.some.inj h
    exact ⟨rfl, hset _ _ rfl⟩
  | poll waiting =>
    obtain ⟨-, h⟩ := Option.ite_none_right_eq_some.1 h
    obtain rfl := Option.some.inj h
    exact ⟨rfl, fun _ => rfl⟩
  | visit accept sslAccept => exact absurd rfl hl

namespace World.Valid

theorem start (h : (sockServer : Int) ∈ openFds) : (start sockServer openFds).Valid :=
  ⟨startUp_paired h, nofun⟩

theorem step (hw : w.Valid) (h : Step w l w') : w'.Valid := by
  cases l with
  | write | arrive | close | reset =>
    obtain ⟨-, h⟩ := Option.ite_none_right_eq_some.1 h
    obtain rfl := Option.some.inj h
    exact ⟨hw.paired, hw.slot⟩
  | poll waiting =>
    obtain ⟨-, h⟩ := Option.ite_none_right_eq_some.1 h
    obtain rfl := Option.some.inj h
    exact ⟨hw.paired.poll _, fun i hi => slotFrom_lt hi⟩
  | visit accept sslAccept =>
    obtain ⟨i, s, hslot, hfresh, hvisit, rfl⟩ := step_visit h
    obtain ⟨t, ht, hpaired, -⟩ := hw.paired.visit (w.input accept sslAccept) (hw.slot i hslot)
      fun _ => hfresh
    obtain rfl := Except.ok.inj (ht.symm.trans hvisit)
    exact ⟨hpaired, fun j hj => slotFrom_lt hj⟩

theorem reading_mem (hw : w.Valid) (hx : w.reading = some x) : x ∈ w.server.sessions.live := by
  obtain ⟨i, -, h⟩ := Option.bind_eq_some_iff.1 hx
  exact (hw.paired.live x).2 ⟨i, (Option.ite_none_right_eq_some.1 h).2⟩

/-- What the visit of a slot does. -/
theorem visits (hw : w.Valid) (h : Step w l w') (hl : l.isVisit = true) :
    w'.conn = w.afterVisit ∧ Visits w w' := by
  obtain ⟨accept, sslAccept, rfl⟩ : ∃ accept sslAccept, l = .visit accept sslAccept := by
    cases l with
    | visit accept sslAccept => exact ⟨accept, sslAccept, rfl⟩
    | _ => cases hl
  obtain ⟨i, s, hslot, hfresh, hvisit, rfl⟩ := step_visit h
  have hreading : w.reading = if (w.server.fds i).revents.has pollIn ∧
      (w.server.fds i).fd ≠ w.server.sockServer then w.server.arrSsl i else none := by
    rw [World.reading, hslot]
    rfl
  obtain ⟨x, -, hx, -⟩ := hw.paired.exists_session (hw.slot i hslot)
  refine ⟨rfl, ?_⟩
  by_cases hread : (w.server.fds i).revents.has pollIn ∧
      (w.server.fds i).fd ≠ w.server.sockServer
  · rw [if_pos hread, hx] at hreading
    have hserve := hw.paired.visit_read hread.1 hread.2 hx hvisit
    cases hdrop : disconnects ((w.conn x).read messageSize) with
    | true => exact .dropped x hreading hdrop (by simpa [World.input, hdrop] using hserve)
    | false =>
      have hkeep : s.sessions = w.server.sessions ∧ .sslWrite x ∈ s.calls := by
        simpa [World.input, hdrop] using hserve
      exact .answered x hreading hdrop hkeep.1 hkeep.2
  · rw [if_neg hread] at hreading
    refine .other hreading fun y hy => ?_
    apply hw.paired.visit_keeps (hw.slot i hslot) hfresh _ hvisit hy
    exact fun hready => not_not.1 fun hserver => hread ⟨hready, hserver⟩

end World.Valid

end LinuxNet.OpenSslServer
