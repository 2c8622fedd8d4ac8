-- SUMMARY: The event loop of the HTTP server (http_server.cpp), over any behaviour of its client handler.
import LinuxNet.Base.Socket
import Mathlib.Data.Finset.Basic

/-! # HTTPServer::start

`round` is one pass of the `while (true)`. The table is an array on the stack
which the program does not initialise. -/

namespace LinuxNet.HttpServer

/-- `MAX_CONNECTION`. -/
def maxConnection : Nat := 2

inductive ClientActivity
  | unknown
  | waiting
  | disconnect
  | completed
  deriving DecidableEq, Repr

/-- What a round does. A call of `handle_client` is recorded with its slot. -/
inductive Call
  | accept (fd : Int)
  | handle (i : Nat) (fd : Int)
  | close (fd : Int)
  deriving DecidableEq, Repr

structure RoundInput where
  /-- The events poll reports for each slot, or its failure. -/
  poll : Option (Nat → Events)
  /-- What accept returns when slot `i` is visited. -/
  accept : Nat → Option Nat
  /-- What `handle_client` returns for slot `i`, if it does not throw. -/
  handle : Nat → Option ClientActivity

structure Server where
  sockServer : Int
  fds : Nat → PollFd
  nfds : Nat
  openFds : Finset Int
  /-- Whether no exception has left `start`. -/
  running : Bool
  calls : List Call

namespace Server

def record (call : Call) (s : Server) : Server := { s with calls := s.calls ++ [call] }

/-- `poll(fds, nfds, -1)`. It writes the first `nfds` slots only. -/
def poll (revents : Nat → Events) (s : Server) : Server :=
  { s with
    fds := fun i => if i < s.nfds then (s.fds i).report (revents i) else s.fds i
    calls := [] }

/-- A successful accept. The slot keeps the `revents` it has. -/
def addClient (fd : Nat) (s : Server) : Server :=
  let s := { s.record (.accept fd) with openFds := insert (fd : Int) s.openFds }
  if s.nfds < maxConnection then
    { s with
      fds := Function.update s.fds s.nfds { s.fds s.nfds with fd := fd, events := pollIn }
      nfds := s.nfds + 1 }
  else s

/-- "A client is disconnected" -/
def dropClient (i : Nat) (s : Server) : Server :=
  let fd := (s.fds i).fd
  let last := s.fds (s.nfds - 1)
  { s.record (.close fd) with
    fds := Function.update s.fds i { s.fds i with fd := last.fd, events := last.events }
    nfds := s.nfds - 1
    openFds := s.openFds.erase fd }

end Server

/-- The body of the loop over the slots. The `else` of the source belongs to
the test of POLLIN. -/
def visit (inp : RoundInput) (i : Nat) (s : Server) : Server :=
  if (s.fds i).revents.has pollIn then
    if (s.fds i).fd = s.sockServer then
      match inp.accept i with
      | none => s
      | some fd => s.addClient fd
    else s
  else
    let s := s.record (.handle i (s.fds i).fd)
    match inp.handle i with
    | none => { s with running := false }
    | some activity => if activity ≠ .waiting then s.dropClient i else s

/-- `for (int i = 0; i < nfds; i++)`, in at most the given number of iterations. -/
def visitFrom (inp : RoundInput) : Nat → Nat → Server → Server
  | 0, _, s => s
  | n + 1, i, s =>
    if i < s.nfds ∧ s.running then visitFrom inp n (i + 1) (visit inp i s) else s

/-- One iteration of `while (true)`, which ends when poll fails. There are at
most `MAX_CONNECTION` slots to visit. -/
def round (inp : RoundInput) (s : Server) : Option Server :=
  inp.poll.map fun revents => visitFrom inp maxConnection 0 (s.poll revents)

/-- `start` at the top of its loop; `junk` is what the array holds before. -/
def startUp (sockServer : Nat) (junk : Nat → PollFd) (openFds : Finset Int) : Server :=
  { sockServer := sockServer
    fds := Function.update junk 0 { junk 0 with fd := sockServer, events := pollIn }
    nfds := 1
    openFds := openFds
    running := true
    calls := [] }

end LinuxNet.HttpServer
