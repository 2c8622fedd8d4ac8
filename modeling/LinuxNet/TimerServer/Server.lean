-- SUMMARY: The timer-based poll server: its event loop, connection queue and timers (server.c, server.h, server_conn.h).
import LinuxNet.Base.Socket
import LinuxNet.Base.Stailq
import LinuxNet.TimerServer.FdBuffer
import Mathlib.Data.Finset.Basic

/-! # The event loop

`round` is one pass of `main`'s `while (true)`. What the environment decides in
a round (the results of the system calls and of the allocations, and the time
that goes by before each of them) is its `RoundInput`. -/

namespace LinuxNet.TimerServer

/-- `TIMEOUT`, which is 3 seconds; the clock counts nanoseconds. -/
def timeout : Nat := 3 * 10 ^ 9

/-- The size of `buf` in `main`. -/
def bufSize : Nat := 1024

/-- `struct Connection`. -/
structure Connection where
  connFd : Int
  timerFd : Int
  deriving DecidableEq, Repr

/-! ## The kernel's side -/

inductive Syscall
  | accept (fd : Int)
  | recv (fd : Int)
  | send (fd : Int)
  | settime (fd : Int)
  | close (fd : Int)
  deriving DecidableEq, Repr

/-- A call on a descriptor, and the time of the call. -/
structure Event where
  call : Syscall
  time : Nat
  deriving DecidableEq, Repr

/-- What the kernel keeps for the process: the clock, the open descriptors, the
deadlines of armed timers, and a record of the calls made on connections. -/
structure Kernel where
  now : Nat
  openFds : Finset Int
  deadline : Int → Option Nat
  log : List Event

namespace Kernel

def advance (k : Kernel) (delay : Nat) : Kernel := { k with now := k.now + delay }

def record (k : Kernel) (call : Syscall) : Kernel := { k with log := k.log ++ [⟨call, k.now⟩] }

/-- A new descriptor, which is not an armed timer. -/
def opened (k : Kernel) (fd : Int) : Kernel :=
  { k with openFds := insert fd k.openFds, deadline := Function.update k.deadline fd none }

def close (k : Kernel) (fd : Int) : Kernel :=
  { k.record (.close fd) with
    openFds := k.openFds.erase fd, deadline := Function.update k.deadline fd none }

/-- `accept`, which returns a descriptor or -1. -/
def accept (k : Kernel) : Option Nat → Int × Kernel
  | none => (-1, k)
  | some fd => (fd, (k.opened fd).record (.accept fd))

/-- `timerfd_create`, which returns a descriptor or -1. -/
def timerfdCreate (k : Kernel) : Option Nat → Int × Kernel
  | none => (-1, k)
  | some fd => (fd, k.opened fd)

/-- The kernel after a successful `timerfd_settime` to `TIMEOUT` from now. -/
def arm (k : Kernel) (fd : Int) : Kernel :=
  { k.record (.settime fd) with
    deadline := Function.update k.deadline fd (some (k.now + timeout)) }

/-- `timerfd_settime`, with the errno of a failure. -/
def timerfdSettime (k : Kernel) (fd : Int) (result : Option Errno) : Option Errno × Kernel :=
  if fd < 0 then (some ebadf, k)
  else match result with
    | some e => (some e, k)
    | none => (none, k.arm fd)

end Kernel

/-! ## Inputs of a round -/

/-- What the environment decides while one connection is processed. -/
structure ConnInput where
  recvDelay : Nat
  recv : RecvResult (bufSize - 1)
  send : SendResult
  refreshDelay : Nat
  refresh : Option Errno
  reallocConn : Bool
  reallocTimer : Bool

structure RoundInput where
  pollDelay : Nat
  /-- The events poll reports for each index, or its failure. -/
  poll : Option (Nat → Events)
  acceptDelay : Nat
  accept : Option Nat
  timerDelay : Nat
  timerfdCreate : Option Nat
  settime : Option Errno
  reallocConn : Bool
  reallocTimer : Bool
  /-- The address malloc returns to `insert_connection`. -/
  malloc : Option Nat
  /-- The input for the connection at each address. -/
  conn : Nat → ConnInput

/-- The variables of the program: `socket_fd` of `main`, and the globals. -/
structure Server where
  socketFd : Int
  fdsBuf : FdBuffer
  connsQueue : Stailq Connection
  kernel : Kernel

/-- The assertions of `main`. -/
inductive Assertion
  | insertFd
  | insertConnection
  | connfd
  | timerfd
  deriving DecidableEq, Repr

/-- Why a round does not come back to the top of the loop. `returned` has the errno of the
call that failed; what `errno` is after `perror`, and so what `main` returns, is left open. -/
inductive Halt
  | pollFailed
  | returned (errno : Int)
  | assertFailed (a : Assertion)
  | fault (f : Fault)
  | useAfterFree
  | endless
  deriving DecidableEq, Repr

/-! ## server.h and server_conn.h -/

/-- `recv_non_block`: its result and the buffer it leaves. -/
def recvNonBlock (fd : Int) (result : RecvResult (bufSize - 1)) (k : Kernel) :
    Int × List UInt8 × Kernel :=
  let k := k.record (.recv fd)
  match result with
  | .fail e => (-e, filled bufSize [], k)
  | .data bytes _ => (bytes.length, filled bufSize bytes, k)

/-- `send_non_block`. -/
def sendNonBlock (fd : Int) (result : SendResult) (k : Kernel) : Int × Kernel :=
  let k := k.record (.send fd)
  match result with
  | .fail e => (-e, k)
  | .sent n => (n, k)

def createNonBlockingTimer (create : Option Nat) (settime : Option Errno) (k : Kernel) :
    Int × Kernel :=
  let (sockfd, k) := k.timerfdCreate create
  match k.timerfdSettime sockfd settime with
  | (some e, k) => (-e, k)
  | (none, k) => (sockfd, k)

/-- `refresh_timer`, whose result `main` does not look at. -/
def refreshTimer (sockfd : Int) (result : Option Errno) (k : Kernel) : Kernel :=
  (k.timerfdSettime sockfd result).2

def insertConnection (addr : Option Nat) (conn : Connection) (q : Stailq Connection) :
    Int × Stailq Connection :=
  match addr with
  | none => (enomem, q)
  | some a => (0, q.insertTail a conn)

/-! ## main -/

/-- `POLLHUP | POLLIN | POLLERR` -/
def activity : Events := pollHup ||| pollIn ||| pollErr

def mypoll (inp : RoundInput) (s : Server) : Except Halt Server :=
  match inp.poll with
  | none => .error .pollFailed
  | some revents =>
    .ok { s with fdsBuf := s.fdsBuf.poll revents, kernel := s.kernel.advance inp.pollDelay }

/-- `assert(p)` -/
def assertThat (p : Prop) [Decidable p] (a : Assertion) : Except Halt Unit :=
  if p then pure () else throw (.assertFailed a)

/-- `(struct pollfd){.fd = fd, .events = POLLIN, .revents = 0}` -/
def watch (fd : Int) : PollFd := ⟨fd, pollIn, 0⟩

/-- The descriptors of a new connection, from `accept` and `create_non_blocking_timer`. -/
def newConnection (inp : RoundInput) (k : Kernel) : Connection × Kernel :=
  let (sockClient, k) := (k.advance inp.acceptDelay).accept inp.accept
  let (fdTimer, k) :=
    createNonBlockingTimer inp.timerfdCreate inp.settime (k.advance inp.timerDelay)
  (⟨sockClient, fdTimer⟩, k)

/-- "Add new connection" -/
def addConnection (inp : RoundInput) (s : Server) : Except Halt Server := do
  let listener ← (s.fdsBuf.load 0).mapError .fault
  if listener.revents.has pollIn then
    let (conn, k) := newConnection inp s.kernel
    let (err, buf) ← (insertFd inp.reallocConn (watch conn.connFd) s.fdsBuf).mapError .fault
    assertThat (err = 0) .insertFd
    -- the result of this call is dropped: the assertion after it tests `err` again
    let (_, buf) ← (insertFd inp.reallocTimer (watch conn.timerFd) buf).mapError .fault
    assertThat (err = 0) .insertFd
    let (err, q) := insertConnection inp.malloc conn s.connsQueue
    assertThat (err = 0) .insertConnection
    pure { s with fdsBuf := buf, connsQueue := q, kernel := k }
  else pure s

/-- The receive and the reply: whether to delete the connection. -/
def handleData (inp : ConnInput) (conn : Connection) (k : Kernel) :
    Except Halt (Bool × Kernel) := do
  let (receivedBytes, buf, k) := recvNonBlock conn.connFd inp.recv (k.advance inp.recvDelay)
  if receivedBytes < 0 then throw (.returned (-receivedBytes))
  else if receivedBytes = 0 then pure (true, k)
  else if strstr buf (bytesOf "ping") then
    let (sentBytes, k) := sendNonBlock conn.connFd inp.send k
    if sentBytes < 0 then throw (.returned (-sentBytes))
    else pure (sentBytes = 0, k)
  else pure (false, k)

/-- `p->revents = 0` for the entry at index `i`. -/
def clearRevents (i : Nat) (b : FdBuffer) : Except Fault FdBuffer := do
  let p ← b.load i
  b.store i p.clear

/-- "Process connection", for the entries at `connfd` and `timerfd`. -/
def serveSocket (inp : ConnInput) (conn : Connection) (connfd timerfd : Nat) (s : Server) :
    Except Halt (Bool × Server) := do
  let p ← (s.fdsBuf.load connfd).mapError .fault
  if p.revents.has activity then
    let (doDelete, k) ← handleData inp conn s.kernel
    let k := refreshTimer conn.timerFd inp.refresh (k.advance inp.refreshDelay)
    let buf ← (clearRevents timerfd s.fdsBuf).mapError .fault
    pure (doDelete, { s with fdsBuf := buf, kernel := k })
  else pure (false, s)

/-- A call of `remove_fd`, and the close in it. -/
def removeAndClose (reallocOk : Bool) (fd : Int) (s : Server) : Except Halt Server := do
  let (closed, buf) ← (removeFd reallocOk fd s.fdsBuf).mapError .fault
  pure { s with fdsBuf := buf, kernel := closed.elim s.kernel s.kernel.close }

def deleteConnection (inp : ConnInput) (addr : Nat) (conn : Connection) (s : Server) :
    Except Halt Server := do
  let s ← removeAndClose inp.reallocConn conn.connFd s
  let s ← removeAndClose inp.reallocTimer conn.timerFd s
  pure { s with connsQueue := s.connsQueue.remove addr }

/-- The body of the loop over the connections. -/
def processConnection (inp : ConnInput) (addr : Nat) (s : Server) : Except Halt Server := do
  match s.connsQueue.get addr with
  | none => throw .useAfterFree
  | some conn =>
    match ← (findFd conn.connFd s.fdsBuf).mapError .fault,
      ← (findFd conn.timerFd s.fdsBuf).mapError .fault with
    | none, _ => throw (.assertFailed .connfd)
    | some _, none => throw (.assertFailed .timerfd)
    | some connfd, some timerfd =>
      let (doDelete, s) ← serveSocket inp conn connfd timerfd s
      let timer ← (s.fdsBuf.load timerfd).mapError .fault
      if doDelete || timer.revents.has activity then deleteConnection inp addr conn s
      else pure s

/-- `while (conn) { next = STAILQ_NEXT(conn); ...; conn = next; }` in at most
the given number of iterations. -/
def passFrom (inp : Nat → ConnInput) : Nat → Option Nat → Server → Except Halt Server
  | _, none, s => pure s
  | 0, some _, _ => throw .endless
  | n + 1, some conn, s => do
    let next := s.connsQueue.next conn
    let s ← processConnection (inp conn) conn s
    passFrom inp n next s

/-- "Process existing connections" -/
def pass (inp : RoundInput) (s : Server) : Except Halt Server :=
  passFrom inp.conn s.connsQueue.length s.connsQueue.first s

/-- One iteration of `while (true)`. -/
def round (inp : RoundInput) (s : Server) : Except Halt Server := do
  let s ← mypoll inp s
  let s ← addConnection inp s
  pass inp s

/-- `main` up to its loop, after a successful `init_fds_queue`. -/
def startUp (socketFd : Nat) (reallocOk : Bool) (k : Kernel) : Except Halt Server := do
  let (_, buf) := initFdsQueue true .zero
  let (_, buf) ← (insertFd reallocOk (watch socketFd) buf).mapError .fault
  pure ⟨socketFd, buf, [], k⟩

end LinuxNet.TimerServer
