-- SUMMARY: The multiplexing server over poll(2): its table of clients and its loop (13_multiplexing_poll_client_server.c).
import LinuxNet.Base.Socket
import Mathlib.Data.Finset.Basic

/-! # The poll server

`round` is one pass of the `while (1)` of `run_server`. Its input holds what
poll reports, the result of accept, and the results of recv and send for each
client; a client is served at most once in a round. -/

namespace LinuxNet.PollServer

/-- `MESSAGE_SIZE`. -/
def messageSize : Nat := 1024

/-- `MAX_CONNECTION`. -/
def maxConnection : Nat := 100

/-- What a round does on sockets, and its stores of a terminator into the
request buffer, at the given index. -/
inductive Call
  | accept (fd : Int)
  | recv (fd : Int)
  | terminate (index : Nat)
  | send (fd : Int)
  | close (fd : Int)
  deriving DecidableEq, Repr

structure RoundInput where
  /-- The events poll reports for each slot, or its failure. -/
  poll : Option (Nat → Events)
  accept : Option Nat
  recv : Int → RecvResult messageSize
  send : Int → SendResult

/-- The variables of `run_server`. `fds` is an array of `MAX_CONNECTION` slots;
`calls` records what has been done since the last poll. -/
structure Server where
  fds : Nat → PollFd
  nfds : Nat
  openFds : Finset Int
  calls : List Call

namespace Server

def record (call : Call) (s : Server) : Server := { s with calls := s.calls ++ [call] }

/-- `poll(fds, nfds, -1)`. It writes the first `nfds` slots only. -/
def poll (revents : Nat → Events) (s : Server) : Server :=
  { s with
    fds := fun i => if i < s.nfds then (s.fds i).report (revents i) else s.fds i
    calls := [] }

/-- A successful accept. The slot keeps the `revents` it has. -/
def addClient (fd : Nat) (s : Server) : Server :=
  let s := { s.record (.accept fd) with openFds := insert (fd : Int) s.openFds }
  if s.nfds < maxConnection then
    { s with
      fds := Function.update s.fds s.nfds { s.fds s.nfds with fd := fd, events := pollIn }
      nfds := s.nfds + 1 }
  else s

/-- `close(fds[i].fd); fds[i].fd = fds[nfds - 1].fd; nfds--;` -/
def dropClient (i : Nat) (s : Server) : Server :=
  let fd := (s.fds i).fd
  { s.record (.close fd) with
    fds := Function.update s.fds i { s.fds i with fd := (s.fds (s.nfds - 1)).fd }
    nfds := s.nfds - 1
    openFds := s.openFds.erase fd }

end Server

/-- Whether a request ends the connection. -/
def isQuit (request : List UInt8) : Bool :=
  cString request = bytesOf "quit" || cString request = bytesOf "exit"

/-- `sent_bytes <= 0` -/
def SendResult.failed : SendResult → Bool
  | .fail _ => true
  | .sent n => n = 0

/-- The body of the loop over the clients, and whether it has dropped the client. -/
def serveClient (inp : RoundInput) (i : Nat) (s : Server) : Server × Bool :=
  if (s.fds i).revents.has pollIn then
    let fd := (s.fds i).fd
    let s := s.record (.recv fd)
    match inp.recv fd with
    | .fail _ => (s.dropClient i, true)
    | .data bytes _ =>
      if bytes = [] then (s.dropClient i, true)
      else
        -- with `MESSAGE_SIZE` bytes this store is one past the end of the buffer
        let s := s.record (.terminate bytes.length)
        let s := s.record (.send fd)
        let shouldDisconnect :=
          SendResult.failed (inp.send fd) || isQuit (filled messageSize bytes)
        if shouldDisconnect then (s.dropClient i, true) else (s, false)
  else (s, false)

/-- `for (int i = 1; i >= 1 && i < nfds; i++)`, in at most the given number of
iterations. A drop steps `i` back. -/
def clientLoop (inp : RoundInput) : Nat → Nat → Server → Server
  | 0, _, s => s
  | n + 1, i, s =>
    if 1 ≤ i ∧ i < s.nfds then
      let (s, dropped) := serveClient inp i s
      clientLoop inp n ((if dropped then i - 1 else i) + 1) s
    else s

/-- One iteration of `while (1)`, which ends when poll fails. -/
def round (inp : RoundInput) (s : Server) : Option Server :=
  inp.poll.map fun revents =>
    let s := s.poll revents
    if (s.fds 0).revents.has pollIn then
      match inp.accept with
      | none => s
      | some fd =>
        let s := s.addClient fd
        clientLoop inp (s.nfds - 1) 1 s
    else clientLoop inp (s.nfds - 1) 1 s

/-- `run_server` at the top of its loop, with the listening socket in slot 0. -/
def startUp (sockServer : Nat) (openFds : Finset Int) : Server :=
  { fds := Function.update (fun _ => ⟨0, 0, 0⟩) 0 ⟨sockServer, pollIn, 0⟩
    nfds := 1
    openFds := openFds
    calls := [] }

end LinuxNet.PollServer
