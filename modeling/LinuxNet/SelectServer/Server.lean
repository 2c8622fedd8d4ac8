-- SUMMARY: The multiplexing server over select(2): its descriptor sets, its slots and its loop (12_multiplexing_select_client_server.c).
import LinuxNet.Base.Loop
import LinuxNet.Base.Slots
import LinuxNet.Base.Socket
import Mathlib.Algebra.GroupWithZero.Nat
import Mathlib.Data.Finset.Basic

/-! # The select server

`round` is one pass of the `while (1)` of `run_server`. Its input holds the
descriptors that select reports, the result of accept for each set of open
descriptors, and the results of recv and send for each client; a descriptor is
visited at most once in a round. -/

namespace LinuxNet.SelectServer

/-- `MESSAGE_SIZE`. -/
def messageSize : Nat := 1024

/-- `MAX_CONNECTION`. -/
def maxConnection : Nat := 100

/-- `FD_SETSIZE`, the number of bits of an `fd_set`. -/
def fdSetSize : Nat := 1024

/-- An access to a bit that an `fd_set` does not have. -/
structure OutOfSet where
  fd : Nat
  deriving DecidableEq, Repr

/-- What a round does on sockets and on `master_set`, and its stores of a
terminator into the request buffer, at the given index. A call on a descriptor
names the socket behind it. -/
inductive Call
  | accept (fd socket : Nat) (result : Option Nat)
  | fdSet (fd : Nat)
  | recv (fd socket : Nat)
  | terminate (index : Nat)
  | send (fd socket : Nat)
  | close (fd : Nat)
  deriving DecidableEq, Repr

structure RoundInput where
  /-- The descriptors select reports, or its failure. -/
  select : Option (Finset Nat)
  /-- The descriptor accept returns when the given ones are open, or its failure. -/
  accept : Finset Nat → Option Nat
  recv : Nat → RecvResult messageSize
  send : Nat → SendResult

/-- The variables of `run_server`. `socketOf` is the socket behind each
descriptor: `n` for the one of the `n`-th successful accept, and 0 for those
opened before the loop. `calls` records what has been done since the last
select. -/
structure Server where
  sockServer : Nat
  master : Finset Nat
  fdsClient : Slots Nat maxConnection
  globalMaxFd : Nat
  openFds : Finset Nat
  socketOf : Nat → Nat
  accepted : Nat
  calls : List Call

namespace Server

def record (call : Call) (s : Server) : Server := { s with calls := s.calls ++ [call] }

/-- `FD_SET(fd, &master_set)`. -/
def fdSet (fd : Nat) (s : Server) : Except OutOfSet Server :=
  if fd < fdSetSize then .ok { s.record (.fdSet fd) with master := insert fd s.master }
  else .error ⟨fd⟩

/-- `read_set` after select: its members that are reported, and all of
`master_set` when select fails. -/
def readSet (inp : RoundInput) (s : Server) : Finset Nat :=
  match inp.select with
  | none => s.master
  | some reported => s.master.filter fun fd => fd ≤ s.globalMaxFd ∧ fd ∈ reported

/-- A successful accept. A client for which there is no slot is left as it is. -/
def addClient (fd : Nat) (s : Server) : Except OutOfSet Server :=
  let s := { s with
    openFds := insert fd s.openFds
    socketOf := Function.update s.socketOf fd (s.accepted + 1)
    accepted := s.accepted + 1 }
  if 0 ∈ s.fdsClient.entries then do
    let s ← fdSet fd { s with fdsClient := s.fdsClient.put fd }
    .ok { s with globalMaxFd := max s.globalMaxFd fd }
  else .ok s

/-- `close(i); FD_CLR(i, &master_set);` and the slot of `i` freed. -/
def dropClient (i : Nat) (s : Server) : Server :=
  { s.record (.close i) with
    openFds := s.openFds.erase i
    master := s.master.erase i
    fdsClient := s.fdsClient.take i }

end Server

/-- Whether a request ends the connection. -/
def isQuit (request : List UInt8) : Bool :=
  cString request = bytesOf "quit" || cString request = bytesOf "exit"

/-- `sent_bytes <= 0` -/
def SendResult.failed : SendResult → Bool
  | .fail _ => true
  | .sent n => n = 0

/-- The branch of the scan for a client. -/
def serveClient (inp : RoundInput) (i : Nat) (s : Server) : Server :=
  let s := s.record (.recv i (s.socketOf i))
  match inp.recv i with
  | .fail _ => s.dropClient i
  | .data bytes _ =>
    if bytes = [] then s.dropClient i
    else
      -- with `MESSAGE_SIZE` bytes this store is one past the end of the buffer
      let s := s.record (.terminate bytes.length)
      let s := s.record (.send i (s.socketOf i))
      let shouldDisconnect :=
        SendResult.failed (inp.send i) || isQuit (filled messageSize bytes)
      if shouldDisconnect then s.dropClient i else s

/-- The body of the scan for a descriptor in `read_set`. -/
def visit (inp : RoundInput) (i : Nat) (s : Server) : Except OutOfSet Server :=
  if i = s.sockServer then
    let result := inp.accept s.openFds
    let s := s.record (.accept i (s.socketOf i) result)
    match result with
    | none => .ok s
    | some fd => s.addClient fd
  else .ok (serveClient inp i s)

/-- `for (int i = 0; i <= global_max_fd; i++)`, from `i` on, with `n` bits of
`read_set` left. -/
def scan (inp : RoundInput) (readSet : Finset Nat) :
    Nat → Nat → Server → Except OutOfSet Server
  | 0, i, s => if i ≤ s.globalMaxFd then .error ⟨i⟩ else .ok s
  | n + 1, i, s =>
    if i ≤ s.globalMaxFd then do
      let s ← (if i ∈ readSet then visit inp i s else .ok s)
      scan inp readSet n (i + 1) s
    else .ok s

/-- One iteration of `while (1)`, which goes on when select fails. -/
def round (inp : RoundInput) (s : Server) : Except OutOfSet Server :=
  scan inp (s.readSet inp) fdSetSize 0 { s with calls := [] }

/-- `run_server` at the top of its loop, with the given descriptors open. -/
def startUp (sockServer : Nat) (openFds : Finset Nat) : Except OutOfSet Server := do
  let s ← Server.fdSet sockServer
    { sockServer := sockServer
      master := ∅
      fdsClient := Slots.empty Nat maxConnection
      globalMaxFd := 0
      openFds := openFds
      socketOf := fun _ => 0
      accepted := 0
      calls := [] }
  .ok { s with globalMaxFd := max s.globalMaxFd sockServer }

end LinuxNet.SelectServer
