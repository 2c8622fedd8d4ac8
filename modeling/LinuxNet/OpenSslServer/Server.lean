-- SUMMARY: The TLS server over poll(2): its parallel arrays of descriptors and sessions, its loop and its cleanup (ssl_client_server.c).
import LinuxNet.Base.Lease
import LinuxNet.Base.Loop
import LinuxNet.Base.Socket

/-! # The OpenSSL server

`round` is one pass of the `while (1)` of `run_server`. Its input holds what
poll reports, the results of accept and SSL_accept, and the result of SSL_read
for each session; a slot is visited at most once in a round. -/

namespace LinuxNet.OpenSslServer

/-- `MESSAGE_SIZE`. -/
def messageSize : Nat := 1024

/-- `MAX_CONNECTION`. -/
def maxConnection : Nat := 100

/-- What `SSL_new` returns, after `SSL_set_fd`. Sessions are numbered as they
are created. -/
structure Session where
  number : Nat
  fd : Int
  deriving DecidableEq, Repr

/-- A use of a session that there is none of, or that has been freed, and a use
of a slot that the arrays do not have. -/
inductive Fault
  | noSession (slot : Nat)
  | freed (session : Session)
  | outOfArray (slot : Nat)
  deriving DecidableEq, Repr

/-- What a round does on sockets and sessions, and its stores of a terminator
into the request buffer, at the given index. -/
inductive Call
  | accept (fd : Nat)
  | sslNew (session : Session)
  | sslAccept (session : Session)
  | sslRead (session : Session)
  | terminate (index : Nat)
  | sslWrite (session : Session)
  | sslShutdown (session : Session)
  | sslFree (session : Session)
  | close (fd : Int)
  deriving DecidableEq, Repr

structure RoundInput where
  /-- The events poll reports for each slot, or its failure. -/
  poll : Option (Nat → Events)
  accept : Option Nat
  /-- Whether SSL_accept succeeds. -/
  sslAccept : Bool
  sslRead : Session → RecvResult messageSize

/-- The variables of `run_server`. `fds` and `arr_ssl` are arrays of
`MAX_CONNECTION` slots; `calls` records what has been done since the last poll. -/
structure Server where
  sockServer : Nat
  fds : Nat → PollFd
  arrSsl : Nat → Option Session
  nfds : Nat
  openFds : Finset Int
  sessions : Lease Session
  calls : List Call

namespace Server

def record (call : Call) (s : Server) : Server := { s with calls := s.calls ++ [call] }

/-- `poll(fds, MAX_CONNECTION, -1)`. -/
def poll (revents : Nat → Events) (s : Server) : Server :=
  { s with
    fds := fun i => if i < maxConnection then (s.fds i).report (revents i) else s.fds i
    calls := [] }

/-- `arr_ssl[i] = SSL_new(..); SSL_set_fd(arr_ssl[i], fds[i].fd);` -/
def sslNew (i : Nat) (s : Server) : Server :=
  let session : Session := ⟨s.sessions.granted.card, (s.fds i).fd⟩
  { s.record (.sslNew session) with
    arrSsl := Function.update s.arrSsl i (some session)
    sessions := s.sessions.grant session }

/-- The session in a slot, for a call that uses it. -/
def session (i : Nat) (s : Server) : Except Fault Session :=
  match s.arrSsl i with
  | none => .error (.noSession i)
  | some session =>
    if session ∈ s.sessions.live then .ok session else .error (.freed session)

/-- `SSL_free(arr_ssl[i])`, which does nothing for a null pointer. -/
def sslFree (i : Nat) (s : Server) : Except Fault Server :=
  match s.arrSsl i with
  | none => .ok s
  | some session =>
    if session ∈ s.sessions.live then
      .ok { s.record (.sslFree session) with sessions := s.sessions.giveBack session }
    else .error (.freed session)

/-- `close(fds[i].fd);` -/
def close (i : Nat) (s : Server) : Server :=
  { s.record (.close (s.fds i).fd) with openFds := s.openFds.erase (s.fds i).fd }

/-- `fds[i].fd = fd; arr_ssl[i] = session;` -/
def setSlot (i : Nat) (fd : Int) (session : Option Session) (s : Server) : Server :=
  { s with
    fds := Function.update s.fds i { s.fds i with fd := fd }
    arrSsl := Function.update s.arrSsl i session }

/-- The client in slot `i` is closed, and the last one takes its slot. -/
def dropClient (i : Nat) (s : Server) : Except Fault Server := do
  let s ← (s.close i).sslFree i
  let s := s.setSlot i (s.fds (s.nfds - 1)).fd (s.arrSsl (s.nfds - 1))
  let s := s.setSlot (s.nfds - 1) (-1) none
  .ok { s with nfds := s.nfds - 1 }

end Server

/-- `SSL_accept(arr_ssl[nfds])`. If it fails, the slot is cleared again. -/
def handshake (inp : RoundInput) (s : Server) : Except Fault Server := do
  let session ← s.session s.nfds
  let s := s.record (.sslAccept session)
  if inp.sslAccept then .ok { s with nfds := s.nfds + 1 }
  else do
    let s := s.close s.nfds
    let s := s.setSlot s.nfds (-1) (s.arrSsl s.nfds)
    let s ← s.sslFree s.nfds
    .ok (s.setSlot s.nfds (-1) none)

/-- The branch for a client that accept has returned. -/
def addClient (inp : RoundInput) (fd : Nat) (s : Server) : Except Fault Server :=
  let s := { s.record (.accept fd) with openFds := insert (fd : Int) s.openFds }
  if 0 < fd then
    if s.nfds < maxConnection then
      let s := { s with
        fds := Function.update s.fds s.nfds { s.fds s.nfds with fd := fd, events := pollIn } }
      handshake inp (s.sslNew s.nfds)
    else .ok s
  else .ok s

/-- Whether a request ends the connection. -/
def isQuit (request : List UInt8) : Bool :=
  cString request = bytesOf "quit" || cString request = bytesOf "exit"

/-- The branch for a client that is ready. The result of SSL_write decides only
whether an error is reported. -/
def serveClient (inp : RoundInput) (i : Nat) (s : Server) : Except Fault Server := do
  let session ← s.session i
  let s := s.record (.sslRead session)
  match inp.sslRead session with
  | .fail _ => s.dropClient i
  | .data bytes _ =>
    let shouldDisconnect := bytes = [] || isQuit (filled messageSize bytes)
    if shouldDisconnect then s.dropClient i
    else do
      -- with `MESSAGE_SIZE` bytes this store is one past the end of the buffer
      let s := s.record (.terminate bytes.length)
      let session ← s.session i
      .ok (s.record (.sslWrite session))

/-- The body of the loop over the slots. -/
def visit (inp : RoundInput) (i : Nat) (s : Server) : Except Fault Server :=
  if (s.fds i).revents.has pollIn then
    if (s.fds i).fd = s.sockServer then
      match inp.accept with
      | none => .ok s
      | some fd => addClient inp fd s
    else serveClient inp i s
  else .ok s

/-- `for (int i = 0; i < nfds; i++)`, from `i` on, with `n` slots of the arrays left. -/
def visitFrom (inp : RoundInput) : Nat → Nat → Server → Except Fault Server
  | 0, i, s => if i < s.nfds then .error (.outOfArray i) else .ok s
  | n + 1, i, s =>
    if i < s.nfds then do
      let s ← visit inp i s
      visitFrom inp n (i + 1) s
    else .ok s

/-- One iteration of `while (1)`, which ends when poll fails. -/
def round (inp : RoundInput) (s : Server) : Except Fault (Option Server) :=
  match inp.poll with
  | none => .ok none
  | some revents => do
    let s ← visitFrom inp maxConnection 0 (s.poll revents)
    .ok (some s)

/-- The body of the cleanup loop. -/
def cleanSlot (s : Server) (i : Nat) : Except Fault Server :=
  let s := if 0 < (s.fds i).fd then s.close i else s
  match s.arrSsl i with
  | none => .ok s
  | some _ => do
    let session ← s.session i
    let s ← (s.record (.sslShutdown session)).sslFree i
    .ok { s with arrSsl := Function.update s.arrSsl i none }

/-- What `run_server` does after its loop. -/
def cleanup (s : Server) : Except Fault Server :=
  let s := { s.record (.close s.sockServer) with openFds := s.openFds.erase s.sockServer }
  (List.range maxConnection).foldlM cleanSlot s

/-- `run_server` at the top of its loop, with the listening socket in slot 0. -/
def startUp (sockServer : Nat) (openFds : Finset Int) : Server :=
  Server.sslNew 0
    { sockServer := sockServer
      fds := Function.update (fun _ => ⟨-1, 0, 0⟩) 0 ⟨sockServer, pollIn, 0⟩
      arrSsl := fun _ => none
      nfds := 1
      openFds := openFds
      sessions := Lease.empty
      calls := [] }

end LinuxNet.OpenSslServer
