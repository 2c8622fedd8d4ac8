-- SUMMARY: The server's state as lists, and what each part of a round does to it.
import LinuxNet.TimerServer.FdBufferSpec
import LinuxNet.TimerServer.Server
import Mathlib.Tactic.SplitIfs

/-! # The state as lists

A `View` is the server's state without its memory: the listener's entry, the
entries of the clients, the connections and the kernel. `s.Shows v` relates it
to the program's state, and every function of a round is matched by an
operation on views. -/

namespace LinuxNet.TimerServer

structure View where
  listener : PollFd
  clients : List PollFd
  conns : Stailq Connection
  kernel : Kernel

structure Server.Shows (s : Server) (v : View) : Prop where
  socketFd : s.socketFd = v.listener.fd
  fdsBuf : s.fdsBuf.Holds (v.listener :: v.clients)
  conns : s.connsQueue = v.conns
  kernel : s.kernel = v.kernel

/-! ## Operations on views -/

/-- What poll reports for the entries of a list, from index `i` on. -/
def reported (revents : Nat → Events) (L : List PollFd) : List PollFd :=
  L.mapIdx fun i p => p.report (revents i)

namespace View

def entries (v : View) : List PollFd := v.listener :: v.clients

def poll (revents : Nat → Events) (delay : Nat) (v : View) : View :=
  { v with
    listener := v.listener.report (revents 0)
    clients := reported (revents <| · + 1) v.clients
    kernel := v.kernel.advance delay }

/-- A connection with its two entries, at address `a`. -/
def add (a : Nat) (c : Connection) (k : Kernel) (v : View) : View :=
  { v with
    clients := v.clients ++ [watch c.connFd, watch c.timerFd]
    conns := v.conns.insertTail a c
    kernel := k }

/-- The events of the first entry with descriptor `fd`. -/
def eventsOf (v : View) (fd : Int) : Events :=
  ((v.entries.find? (·.fd = fd)).map PollFd.revents).getD 0

def socketReady (v : View) (c : Connection) : Bool := (v.eventsOf c.connFd).has activity

def timerReady (v : View) (c : Connection) : Bool := (v.eventsOf c.timerFd).has activity

end View

/-- How the exchange with a client ends: with the errno of a failed call, or
with whether the peer has closed the connection. -/
def ConnInput.exchange (inp : ConnInput) : Except Int Bool :=
  match inp.recv with
  | .fail e => .error e
  | .data bytes _ =>
    if bytes = [] then .ok true
    else if strstr (filled bufSize bytes) (bytesOf "ping") then
      match inp.send with
      | .fail e => .error e
      | .sent n => .ok (n = 0)
    else .ok false

/-- The kernel after the calls of that exchange. -/
def ConnInput.exchanged (inp : ConnInput) (c : Connection) (k : Kernel) : Kernel :=
  let k := (k.advance inp.recvDelay).record (.recv c.connFd)
  match inp.recv with
  | .fail _ => k
  | .data bytes _ =>
    if bytes ≠ [] ∧ strstr (filled bufSize bytes) (bytesOf "ping") then
      k.record (.send c.connFd)
    else k

/-- Clear the events of the first entry with descriptor `fd`. -/
def clearFirst (fd : Int) (L : List PollFd) : List PollFd :=
  match L.findIdx? (·.fd = fd) with
  | none => L
  | some i => L.modify i PollFd.clear

namespace View

/-- The state after the socket of `c` has been served. -/
def serve (inp : ConnInput) (c : Connection) (v : View) : View :=
  { v with
    clients := clearFirst c.timerFd v.clients
    kernel := refreshTimer c.timerFd inp.refresh
      ((inp.exchanged c v.kernel).advance inp.refreshDelay) }

/-- A `remove_fd`. -/
def remove (fd : Int) (v : View) : View :=
  { v with
    clients := eraseLast (fun q => q.fd = fd) v.clients
    kernel := if fd ∈ v.clients.map PollFd.fd then v.kernel.close fd else v.kernel }

def delete (a : Nat) (c : Connection) (v : View) : View :=
  { (v.remove c.connFd).remove c.timerFd with conns := v.conns.remove a }

/-- Whether the pass deletes `c`: the peer has closed the connection, or its
timer is ready while its socket is not. -/
def doomed (v : View) (inp : ConnInput) (c : Connection) : Bool :=
  if v.socketReady c then decide (inp.exchange = .ok true) else v.timerReady c

/-- What the loop body does to the connection `c` at address `a`. -/
def process (inp : ConnInput) (a : Nat) (c : Connection) (v : View) : View :=
  let served := if v.socketReady c then v.serve inp c else v
  if v.doomed inp c then served.delete a c else served

end View

end LinuxNet.TimerServer
