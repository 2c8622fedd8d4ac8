-- SUMMARY: The server that polls one non-blocking client: its loop and its cleanup (11_non_blocking_sockets.c).
import LinuxNet.Base.Buffer

/-! # The non-blocking server

`round` is one pass of the `while (1)` of `run_server`. Its input holds the
results of accept and recv, each for the case that it is called. -/

namespace LinuxNet.NonBlockingServer

/-- `MESSAGE_SIZE`. -/
def messageSize : Nat := 1024

/-- What a round does on sockets and with `buffer`. -/
inductive Call
  | accept
  | recv (fd : Int)
  | access (a : Access)
  | send (fd : Int)
  | close (fd : Int)
  deriving DecidableEq, Repr

structure RoundInput where
  accept : Except Errno Nat
  recv : RecvResult messageSize

/-- The variables of `run_server`, and whether it is still in its loop. `calls`
records what has been done in the last round. -/
structure Server where
  sockServer : Nat
  sockClient : Int
  running : Bool
  calls : List Call

namespace Server

def record (call : Call) (s : Server) : Server := { s with calls := s.calls ++ [call] }

/-- `break`, and what follows the loop. -/
def leave (s : Server) : Server :=
  { (s.record (.close s.sockServer)).record (.close s.sockClient) with running := false }

end Server

/-- `errno == EAGAIN || errno == EWOULDBLOCK`; the two are the same number. -/
def wouldBlock (errno : Errno) : Bool := errno = eagain

/-- `if (sock_client < 0)` -/
def acceptClient (inp : RoundInput) (s : Server) : Server :=
  if s.sockClient < 0 then
    let s := s.record .accept
    match inp.accept with
    | .error errno =>
      let s := { s with sockClient := -1 }
      if wouldBlock errno then s else s.leave
    | .ok fd => { s with sockClient := fd }
  else s

/-- `if (sock_client > 0)` -/
def serveClient (inp : RoundInput) (s : Server) : Server :=
  if 0 < s.sockClient then
    let s := s.record (.recv s.sockClient)
    match inp.recv with
    | .fail errno => if wouldBlock errno then s else s.leave
    | .data bytes _ =>
      -- that the client is disconnected is only printed
      if bytes = [] then s
      else
        -- with `MESSAGE_SIZE` bytes this store is one past the end of the buffer
        let s := s.record (.access (.store bytes.length))
        let s := s.record (.access (.string (terminated messageSize bytes)))
        s.record (.send s.sockClient)
  else s

/-- One iteration of `while (1)`. -/
def round (inp : RoundInput) (s : Server) : Server :=
  let s := acceptClient inp { s with calls := [] }
  if s.running then serveClient inp s else s

/-- `run_server` at the top of its loop. -/
def startUp (sockServer : Nat) : Server := ⟨sockServer, -1, true, []⟩

/-- A pass of the loop. -/
def Round (s : Server) (inp : RoundInput) (s' : Server) : Prop := s.running ∧ round inp s = s'

end LinuxNet.NonBlockingServer
