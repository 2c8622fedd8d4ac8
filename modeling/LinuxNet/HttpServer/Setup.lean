-- SUMMARY: The listening socket of the HTTP server (HTTPServer::setup_socket), on every way out.
import LinuxNet.Base.Handle
import LinuxNet.Base.Printf
import LinuxNet.Base.Socket
import LinuxNet.HttpServer.Server

/-! # HTTPServer::setup_socket

It is called by the constructor only, which has set `sock_server` to -1. What
`print_sockaddr_info` prints is left out. -/

namespace LinuxNet.HttpServer.Setup

def strLocalhost : List UInt8 := bytesOf "localhost"

def afInet : Int := 2

def sockStream : Int := 1

def aiPassive : Int := 1

/-- What `setup_socket` reads of an entry of an address list. -/
structure AddrInfo where
  family : Int
  socktype : Int
  protocol : Int
  addr : List UInt8
  deriving DecidableEq, Repr

/-- `hints` -/
structure Hints where
  family : Int
  socktype : Int
  protocol : Int
  flags : Int
  deriving DecidableEq, Repr

abbrev Addresses := { l : List AddrInfo // l ≠ [] }

/-- A call, with its result. -/
inductive Call
  | getaddrinfo (host port : List UInt8) (hints : Hints) (found : Bool)
  | socket (family socktype protocol rc : Int)
  | fcntl (sock : Int)
  | bind (sock : Int) (p : AddrInfo) (rc : Int)
  | listen (sock : Int) (backlog : Nat) (rc : Int)
  | freeaddrinfo
  | close (sock : Int)
  | log (message : List UInt8)
  deriving DecidableEq, Repr

/-- How the system answers: the number of the protocol "tcp", the addresses, and
what the other calls return, where binds are numbered. -/
structure System where
  proto : Option Int
  addresses : Option Addresses
  socket : Int
  getFlags : Int
  setFlags : Int
  bind : Nat → AddrInfo → Int
  listen : Int

/-- The `HTTPServer`, and the calls that have been made for it. -/
structure Listener where
  sockServer : Int
  calls : List Call
  deriving DecidableEq, Repr

def Listener.record (calls : List Call) (s : Listener) : Listener :=
  { s with calls := s.calls ++ calls }

/-- `set_socket_nonblocking` -/
def setSocketNonblocking (system : System) (sock : Int) : List Call :=
  if system.getFlags = -1 then [.fcntl sock, .log (bytesOf "fcntl(F_GETFL) failed")]
  else
    [.fcntl sock, .fcntl sock] ++
      if system.setFlags = -1 then [.log (bytesOf "fcntl(F_SETFL, O_NONBLOCK) failed")] else []

/-- The loop over the addresses from the `k`-th on, and what `rc_bind` is after it. -/
def bindEach (system : System) (sock : Int) : Nat → Int → List AddrInfo → List Call × Int
  | _, rcBind, [] => ([], rcBind)
  | k, _, p :: rest =>
    let rcBind := system.bind k p
    if rcBind = 0 then ([.bind sock p rcBind], rcBind)
    else
      let (calls, rc) := bindEach system sock (k + 1) rcBind rest
      (.bind sock p rcBind :: calls, rc)

def setupSocket (system : System) (port : BitVec 32) (s : Listener) : Listener × Bool :=
  match system.proto with
  | none => (s, false)
  | some proto =>
    let sPort := printInt port
    let hints := ⟨afInet, sockStream, proto, aiPassive⟩
    let s := s.record [.getaddrinfo strLocalhost sPort hints system.addresses.isSome]
    match system.addresses with
    | none => (s.record [.log (bytesOf "Server getaddrinfo() failed")], false)
    | some ⟨addrServer, hne⟩ =>
      let a := addrServer.head hne
      let s : Listener := { s.record [.socket a.family a.socktype a.protocol system.socket] with
        sockServer := system.socket }
      if s.sockServer < 0 then
        let s := s.record [.log (bytesOf "Server socket() failed"), .freeaddrinfo]
        ({ s with sockServer := -1 }, false)
      else
        let s := s.record (setSocketNonblocking system s.sockServer)
        let (binds, rcBind) := bindEach system s.sockServer 0 0 addrServer
        let s := s.record binds
        if rcBind ≠ 0 then
          let s := s.record [.log (bytesOf "Server bind() failed"), .freeaddrinfo,
            .close s.sockServer]
          ({ s with sockServer := -1 }, false)
        else
          let s := s.record [.listen s.sockServer maxConnection system.listen]
          if system.listen ≠ 0 then
            let s := s.record [.log (bytesOf "Server listen() failed"), .freeaddrinfo,
              .close s.sockServer]
            ({ s with sockServer := -1 }, false)
          else (s.record [.freeaddrinfo], true)

/-- `HTTPServer::HTTPServer` -/
def httpServer (system : System) (port : BitVec 32) : Listener :=
  let (s, ready) := setupSocket system port ⟨-1, []⟩
  if ready then s else s.record [.log (bytesOf "Server HTTP service is not ready")]

/-- `HTTPServer::start` up to the top of its loop. -/
def Listener.start (s : Listener) (junk : Nat → PollFd) (openFds : Finset Int) : Option Server :=
  if s.sockServer < 0 then none else some (startUp s.sockServer.toNat junk openFds)

/-! ## What becomes of a socket -/

/-- An open socket. -/
inductive SocketState
  | opened
  | bound (p : AddrInfo)
  | listening (p : AddrInfo)
  deriving DecidableEq, Repr

/-- The state of a descriptor after a call, where `none` is a closed one. -/
def SocketState.after (fd : Int) (state : Option SocketState) : Call → Option SocketState
  | .socket _ _ _ rc => if rc = fd ∧ 0 ≤ rc then some .opened else state
  | .bind sock p rc => if sock = fd ∧ rc = 0 ∧ state = some .opened then some (.bound p) else state
  | .listen sock _ rc =>
    match state with
    | some (.bound p) => if sock = fd ∧ rc = 0 then some (.listening p) else state
    | _ => state
  | .close sock => if sock = fd then none else state
  | _ => state

def socketState (fd : Int) (calls : List Call) : Option SocketState :=
  calls.foldl (SocketState.after fd) none

/-- The first address that bind accepts. -/
def firstAccepted (bind : Nat → AddrInfo → Int) (k : Nat) (addresses : List AddrInfo) :
    Option AddrInfo :=
  ((addresses.zipIdx k).find? fun entry => bind entry.2 entry.1 = 0).map Prod.fst

/-- `sock_server` is listening at the first address that bind accepts. -/
def Listener.Ready (system : System) (s : Listener) : Prop :=
  ∃ addresses p, system.addresses = some addresses ∧
    firstAccepted system.bind 0 addresses.1 = some p ∧
    socketState s.sockServer s.calls = some (.listening p)

/-- Everything that `setup_socket` needs succeeds. What fcntl returns makes no difference. -/
structure System.Succeeds (system : System) : Prop where
  proto : system.proto.isSome
  socket : 0 ≤ system.socket
  bind : ∃ addresses, system.addresses = some addresses ∧
    (firstAccepted system.bind 0 addresses.1).isSome
  listen : system.listen = 0

/-- The list that getaddrinfo has allocated. -/
def addressList : Handle Call where
  uses
    | .socket .. | .bind .. | .freeaddrinfo => true
    | _ => false
  releases
    | .freeaddrinfo => true
    | _ => false
  uses_of_releases c h := by cases c <;> first | rfl | cases h

/-- A socket, by its descriptor. -/
def socket (fd : Int) : Handle Call where
  uses
    | .fcntl sock | .bind sock _ _ | .listen sock _ _ | .close sock => sock = fd
    | _ => false
  releases
    | .close sock => sock = fd
    | _ => false
  uses_of_releases c h := by cases c <;> first | exact h | cases h

/-- getaddrinfo has allocated a list. -/
def Obtained (calls : List Call) : Prop :=
  ∃ host port hints, .getaddrinfo host port hints true ∈ calls

/-- socket has returned a descriptor. -/
def Opened (fd : Int) (calls : List Call) : Prop :=
  0 ≤ fd ∧ ∃ family socktype protocol, .socket family socktype protocol fd ∈ calls

/-! ## The ways out -/

/-- Binds of the socket that have failed. -/
def FailedBinds (sock : Int) (calls : List Call) : Prop :=
  ∀ c ∈ calls, ∃ p rc, c = .bind sock p rc ∧ rc ≠ 0

/-- The socket is opened, and made nonblocking. -/
def opening (system : System) (host port : List UInt8) (hints : Hints) (a : AddrInfo) : List Call :=
  [.getaddrinfo host port hints true, .socket a.family a.socktype a.protocol system.socket] ++
    setSocketNonblocking system system.socket

/-- What `setup_socket` may come to. -/
inductive Outcome (system : System) : Listener → Bool → Prop
  | unavailable (hproto : system.proto = none) : Outcome system ⟨-1, []⟩ false
  | unresolved {host port hints message} (haddresses : system.addresses = none) :
    Outcome system ⟨-1, [.getaddrinfo host port hints false, .log message]⟩ false
  | unopened {host port hints message} {a : AddrInfo} (hsock : system.socket < 0) :
    Outcome system ⟨-1, [.getaddrinfo host port hints true,
      .socket a.family a.socktype a.protocol system.socket, .log message, .freeaddrinfo]⟩ false
  | unbound {host port hints message a addresses binds} (hsock : 0 ≤ system.socket)
      (haddresses : system.addresses = some addresses)
      (hnone : firstAccepted system.bind 0 addresses.1 = none)
      (hbinds : FailedBinds system.socket binds) :
    Outcome system ⟨-1, opening system host port hints a ++ binds ++
      [.log message, .freeaddrinfo, .close system.socket]⟩ false
  | deaf {host port hints message a p binds} (hsock : 0 ≤ system.socket)
      (hbinds : FailedBinds system.socket binds) (hlisten : system.listen ≠ 0) :
    Outcome system ⟨-1, opening system host port hints a ++ (binds ++ [.bind system.socket p 0]) ++
      [.listen system.socket maxConnection system.listen] ++
      [.log message, .freeaddrinfo, .close system.socket]⟩ false
  | ready {host port hints a addresses p binds} (hproto : system.proto.isSome)
      (hsock : 0 ≤ system.socket)
      (haddresses : system.addresses = some addresses)
      (hfirst : firstAccepted system.bind 0 addresses.1 = some p)
      (hbinds : FailedBinds system.socket binds) (hlisten : system.listen = 0) :
    Outcome system ⟨system.socket, opening system host port hints a ++
      (binds ++ [.bind system.socket p 0]) ++
      [.listen system.socket maxConnection system.listen] ++ [.freeaddrinfo]⟩ true

variable {system : System} {port : BitVec 32} {s : Listener} {ready : Bool} {fd sock : Int}
  {calls : List Call} {state : Option SocketState} {c : Call}

/-- The loop fails at every address before the first one that bind accepts. -/
theorem bindEach_spec (system : System) (sock : Int) (addresses : List AddrInfo) :
    ∀ k rcBind, ∃ binds, FailedBinds sock binds ∧
      ((∃ p, firstAccepted system.bind k addresses = some p ∧
          bindEach system sock k rcBind addresses = (binds ++ [.bind sock p 0], 0)) ∨
        ∃ rc, firstAccepted system.bind k addresses = none ∧
          bindEach system sock k rcBind addresses = (binds, rc) ∧
          (rcBind ≠ 0 ∨ addresses ≠ [] → rc ≠ 0)) := by
  induction addresses with
  | nil => exact fun k rcBind => ⟨[], by simp [FailedBinds], .inr ⟨rcBind, rfl, rfl, by simp⟩⟩
  | cons p rest ih =>
    intro k rcBind
    by_cases hrc : system.bind k p = 0
    · exact ⟨[], by simp [FailedBinds], .inl ⟨p, by simp [firstAccepted, hrc],
        by simp [bindEach, hrc]⟩⟩
    · obtain ⟨binds, hbinds, hrest⟩ := ih (k + 1) (system.bind k p)
      refine ⟨.bind sock p (system.bind k p) :: binds,
        List.forall_mem_cons.2 ⟨⟨p, _, rfl, hrc⟩, hbinds⟩, ?_⟩
      rcases hrest with ⟨q, hfirst, heach⟩ | ⟨rc, hnone, heach, hne⟩
      · refine .inl ⟨q, ?_, by simp [bindEach, hrc, heach]⟩
        simpa [firstAccepted, hrc] using hfirst
      · refine .inr ⟨rc, ?_, by simp [bindEach, hrc, heach], fun _ => hne (.inl hrc)⟩
        simpa [firstAccepted, hrc] using hnone

theorem setupSocket_outcome (system : System) (port : BitVec 32) :
    Outcome system (setupSocket system port ⟨-1, []⟩).1 (setupSocket system port ⟨-1, []⟩).2 := by
  unfold setupSocket
  dsimp only [Listener.record]
  cases hproto : system.proto with
  | none => exact .unavailable hproto
  | some proto =>
    dsimp only
    rcases haddresses : system.addresses with _ | ⟨addrServer, hne⟩
    · exact .unresolved haddresses
    · dsimp only
      split
      · exact .unopened ‹_›
      · rename_i hsock
        have hsock := not_lt.1 hsock
        obtain ⟨binds, hbinds, ⟨p, hfirst, heach⟩ | ⟨rc, hnone, heach, hrc⟩⟩ :=
          bindEach_spec system system.socket addrServer 0 0
        · rw [heach]
          dsimp only
          rw [if_neg (by simp)]
          split
          · exact .deaf hsock hbinds ‹_›
          · exact .ready (by rw [hproto]; rfl) hsock haddresses hfirst hbinds (not_not.1 ‹_›)
        · rw [heach]
          dsimp only
          rw [if_pos (hrc (.inr hne))]
          exact .unbound hsock haddresses hnone hbinds

/-! ## The socket -/

theorem foldl_after_eq (h : ∀ c ∈ calls, SocketState.after fd state c = state) :
    calls.foldl (SocketState.after fd) state = state := by
  induction calls with
  | nil => rfl
  | cons c calls ih =>
    obtain ⟨hc, hcalls⟩ := List.forall_mem_cons.1 h
    rw [List.foldl_cons, hc, ih hcalls]

/-- No socket has a negative descriptor. -/
theorem socketState_neg (hfd : fd < 0) : socketState fd calls = none := by
  refine foldl_after_eq fun c _ => ?_
  cases c with
  | socket family socktype protocol rc => exact if_neg fun h => by omega
  | bind sock p rc => exact if_neg (by simp)
  | close sock => exact ite_self none
  | _ => rfl

theorem socketState_ready {host portText : List UInt8} {hints : Hints} {a p : AddrInfo}
    (hsock : 0 ≤ system.socket) (hbinds : FailedBinds system.socket calls) :
    socketState system.socket (opening system host portText hints a ++
        (calls ++ [.bind system.socket p 0]) ++ [.listen system.socket maxConnection 0] ++
        [.freeaddrinfo]) = some (.listening p) := by
  have hopening : (opening system host portText hints a).foldl
      (SocketState.after system.socket) none = some .opened := by
    rw [opening, List.foldl_append]
    have hopened : [Call.getaddrinfo host portText hints true,
        .socket a.family a.socktype a.protocol system.socket].foldl
        (SocketState.after system.socket) none = some .opened := if_pos ⟨rfl, hsock⟩
    rw [hopened]
    refine foldl_after_eq fun c hc => ?_
    unfold setSocketNonblocking at hc
    split at hc <;> simp at hc <;> grind [SocketState.after]
  have hfailed : calls.foldl (SocketState.after system.socket) (some .opened) = some .opened := by
    refine foldl_after_eq fun c hc => ?_
    obtain ⟨q, rc, rfl, hrc⟩ := hbinds c hc
    exact if_neg fun h => hrc h.2.1
  rw [socketState, List.foldl_append, List.foldl_append, List.foldl_append, List.foldl_append,
    hopening, hfailed]
  simp [SocketState.after]

theorem Outcome.sockServer_eq (h : Outcome system s ready) (hready : ready = false) :
    s.sockServer = -1 := by
  cases h <;> first | rfl | cases hready

theorem Outcome.ready_iff (h : Outcome system s ready) : ready = true ↔ s.Ready system := by
  cases hready : ready with
  | false =>
    refine iff_of_false Bool.false_ne_true ?_
    rintro ⟨addresses, p, -, -, hstate⟩
    rw [h.sockServer_eq hready, socketState_neg (by decide)] at hstate
    cases hstate
  | true =>
    subst hready
    cases h with
    | @ready host port hints a addresses p binds hproto hsock haddresses hfirst hbinds hlisten =>
      refine iff_of_true rfl ⟨addresses, p, haddresses, hfirst, ?_⟩
      rw [hlisten]
      exact socketState_ready hsock hbinds

theorem Outcome.succeeds_iff (h : Outcome system s ready) : ready = true ↔ system.Succeeds := by
  cases h with
  | unavailable hproto =>
    refine iff_of_false Bool.false_ne_true fun hsystem => ?_
    have hsome := hsystem.proto
    rw [hproto] at hsome
    cases hsome
  | unresolved haddresses =>
    refine iff_of_false Bool.false_ne_true fun hsystem => ?_
    obtain ⟨addresses, hsome, -⟩ := hsystem.bind
    cases haddresses.symm.trans hsome
  | unopened hsock =>
    exact iff_of_false Bool.false_ne_true fun hsystem => absurd hsystem.socket (not_le.2 hsock)
  | unbound hsock haddresses hnone hbinds =>
    refine iff_of_false Bool.false_ne_true fun hsystem => ?_
    obtain ⟨addresses, hsome, hfirst⟩ := hsystem.bind
    obtain rfl := Option.some.inj (haddresses.symm.trans hsome)
    rw [hnone] at hfirst
    cases hfirst
  | deaf hsock hbinds hlisten =>
    exact iff_of_false Bool.false_ne_true fun hsystem => hlisten hsystem.listen
  | ready hproto hsock haddresses hfirst hbinds hlisten =>
    exact iff_of_true rfl ⟨hproto, hsock, ⟨_, haddresses, by rw [hfirst]; rfl⟩, hlisten⟩

/-- The server enters its loop exactly if its socket is ready. -/
theorem start_isSome_iff (system : System) (port : BitVec 32) (junk : Nat → PollFd)
    (openFds : Finset Int) : ((httpServer system port).start junk openFds).isSome ↔
      (httpServer system port).Ready system := by
  have houtcome := setupSocket_outcome system port
  rw [httpServer]
  generalize setupSocket system port ⟨-1, []⟩ = r at houtcome ⊢
  obtain ⟨s, ready⟩ := r
  dsimp only at houtcome ⊢
  cases ready with
  | false =>
    have hneg : s.sockServer < 0 := by rw [houtcome.sockServer_eq rfl]; decide
    rw [if_neg Bool.false_ne_true]
    refine iff_of_false ?_ ?_
    · simp [Listener.start, Listener.record, hneg]
    · rintro ⟨addresses, p, -, -, hstate⟩
      rw [Listener.record, socketState_neg hneg] at hstate
      cases hstate
  | true =>
    rw [if_pos rfl]
    refine iff_of_true ?_ (houtcome.ready_iff.1 rfl)
    cases houtcome with
    | ready hproto hsock => simp [Listener.start, hsock]

/-! ## The resources -/

/-- A call that releases nothing, and opens no other socket. -/
def Call.setsUp (sock : Int) : Call → Bool
  | .freeaddrinfo | .close _ => false
  | .socket _ _ _ rc => rc = sock
  | _ => true

theorem setsUp_opening {host portText : List UInt8} {hints : Hints} {a : AddrInfo} :
    ∀ c ∈ opening system host portText hints a, c.setsUp system.socket = true := by
  intro c hc
  unfold opening setSocketNonblocking at hc
  split at hc <;> simp at hc <;> grind [Call.setsUp]

theorem FailedBinds.setsUp (h : FailedBinds sock calls) : ∀ c ∈ calls, c.setsUp fd = true := by
  intro c hc
  obtain ⟨p, rc, rfl, -⟩ := h c hc
  rfl

theorem setsUp_bound {host portText : List UInt8} {hints : Hints} {a p : AddrInfo} {rc : Int}
    (hbinds : FailedBinds system.socket calls) :
    ∀ c ∈ opening system host portText hints a ++ (calls ++ [.bind system.socket p 0]) ++
      [.listen system.socket maxConnection rc], c.setsUp system.socket = true := by
  refine List.forall_mem_append.2 ⟨List.forall_mem_append.2 ⟨setsUp_opening, ?_⟩, by
    simp [Call.setsUp]⟩
  exact List.forall_mem_append.2 ⟨hbinds.setsUp, by simp [Call.setsUp]⟩

theorem addressList_kept (h : ∀ c ∈ calls, c.setsUp sock = true) : addressList.Kept calls :=
  fun c hc => by
    have hc' := h c hc
    cases c <;> first | rfl | cases hc'

theorem socket_kept (h : ∀ c ∈ calls, c.setsUp sock = true) : (socket fd).Kept calls :=
  fun c hc => by
    have hc' := h c hc
    cases c <;> first | rfl | cases hc'

/-- What is done when bind or listen has failed. -/
theorem addressList_failed {message : List UInt8} (h : ∀ c ∈ calls, c.setsUp sock = true) :
    addressList.ReleasedOnce (calls ++ [.log message, .freeaddrinfo, .close sock]) := by
  rw [List.append_cons]
  refine ((addressList_kept h).append ?_).releasedOnce rfl ?_
  · simp [Handle.Kept, addressList]
  · simp [Handle.Unused, addressList]

theorem socket_failed {message : List UInt8} (h : ∀ c ∈ calls, c.setsUp sock = true)
    (hopened : Opened fd (calls ++ [.log message, .freeaddrinfo, .close sock])) :
    (socket fd).ReleasedOnce (calls ++ [.log message, .freeaddrinfo, .close sock]) := by
  obtain ⟨-, family, socktype, protocol, hmem⟩ := hopened
  have hfd : fd = sock := by
    rcases List.mem_append.1 hmem with hmem | hmem
    · exact of_decide_eq_true (h _ hmem)
    · simp at hmem
  subst hfd
  rw [List.append_cons, List.append_cons]
  refine (((socket_kept h).append ?_).append ?_).releasedOnce (decide_eq_true rfl)
    Handle.Unused.nil
  · simp [Handle.Kept, socket]
  · simp [Handle.Kept, socket]

theorem Outcome.addressList_released (h : Outcome system s ready) (hobtained : Obtained s.calls) :
    addressList.ReleasedOnce s.calls := by
  cases h with
  | unavailable => simp [Obtained] at hobtained
  | unresolved => simp [Obtained] at hobtained
  | @unopened host port hints message a hsock =>
    have hkept : addressList.Kept [.getaddrinfo host port hints true,
        .socket a.family a.socktype a.protocol system.socket, .log message] := by
      simp [Handle.Kept, addressList]
    exact hkept.releasedOnce rfl Handle.Unused.nil
  | unbound hsock haddresses hnone hbinds =>
    exact addressList_failed (List.forall_mem_append.2 ⟨setsUp_opening, hbinds.setsUp⟩)
  | deaf hsock hbinds hlisten => exact addressList_failed (setsUp_bound hbinds)
  | ready hproto hsock haddresses hfirst hbinds hlisten =>
    exact (addressList_kept (setsUp_bound hbinds)).releasedOnce rfl Handle.Unused.nil

theorem Outcome.socket_released (h : Outcome system s ready) (hready : ready = false)
    (hopened : Opened fd s.calls) : (socket fd).ReleasedOnce s.calls := by
  cases h with
  | unavailable => simp [Opened] at hopened
  | unresolved => simp [Opened] at hopened
  | unopened hsock =>
    obtain ⟨hfd, family, socktype, protocol, hmem⟩ := hopened
    simp at hmem
    omega
  | unbound hsock haddresses hnone hbinds =>
    exact socket_failed (List.forall_mem_append.2 ⟨setsUp_opening, hbinds.setsUp⟩) hopened
  | deaf hsock hbinds hlisten => exact socket_failed (setsUp_bound hbinds) hopened
  | ready => cases hready

/-- The result, `sock_server` and the resources agree on every way out, and the result is
true exactly if everything that is needed succeeds. -/
theorem setupSocket_agrees (system : System) (port : BitVec 32) :
    let r := setupSocket system port ⟨-1, []⟩
    (r.2 = true ↔ r.1.Ready system) ∧ (r.2 = true ↔ system.Succeeds) ∧
      (r.2 = false → r.1.sockServer = -1) ∧
      (Obtained r.1.calls → addressList.ReleasedOnce r.1.calls) ∧
      ∀ fd, Opened fd r.1.calls → r.2 = false → (socket fd).ReleasedOnce r.1.calls := by
  have houtcome := setupSocket_outcome system port
  exact ⟨houtcome.ready_iff, houtcome.succeeds_iff, houtcome.sockServer_eq,
    houtcome.addressList_released, fun fd hopened hready => houtcome.socket_released hready hopened⟩

end LinuxNet.HttpServer.Setup
