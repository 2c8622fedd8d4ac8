-- SUMMARY: The servers that answer commands, one client after another and in threads (08_simple_client_server.c, 09_multithread_client_server.c).
import LinuxNet.Base.Buffer
import LinuxNet.Base.Printf
import Mathlib.Data.Finset.Basic

/-! # The command servers

Both servers have the same loop for a client, in `run_server` the one and in
`server_handle_client` the other. `serve` is one pass of it. -/

namespace LinuxNet.CommandServer

/-- `MESSAGE_SIZE`. -/
def messageSize : Nat := 1024

/-- The commands that end the connection. -/
def lastCommands : List (List UInt8) := [bytesOf "exit", bytesOf "quit", bytesOf "shutdown"]

def isLast (request : List UInt8) : Bool := request ∈ lastCommands

def timeCommand : List UInt8 := bytesOf "time"

/-- What is written into `response_buffer`, for a request and the result of
`time`, of which `%d` takes the low 32 bits. -/
def response (request : List UInt8) (time : Int) : List UInt8 :=
  if isLast request then bytesOf "OK"
  else if request = timeCommand then printInt (BitVec.ofInt 32 time)
  else bytesOf "Unknown request"

/-- The string in `request_buffer` after a receive of `bytes`. -/
def requestIn (bytes : List UInt8) : List UInt8 := cString (terminated messageSize bytes)

/-- The block sent in answer to a request. -/
def reply (request : List UInt8) (time : Int) : List UInt8 :=
  filled messageSize (response request time)

/-- What a pass does on the socket and with `request_buffer`. -/
inductive Call
  | recv
  | access (a : Access)
  | send (block : List UInt8)
  | close
  deriving DecidableEq, Repr

structure PassInput where
  recv : RecvResult messageSize
  time : Int

/-- A pass of the loop: what it does, and whether another pass follows. The result
of send decides only whether an error is reported. -/
def serve (inp : PassInput) : List Call × Bool :=
  match inp.recv with
  | .fail _ => ([.recv], false)
  | .data bytes _ =>
    if bytes = [] then ([.recv], false)
    else
      -- with `MESSAGE_SIZE` bytes this store is one past the end of the buffer
      let buffer := terminated messageSize bytes
      let request := cString buffer
      let read := [.store bytes.length, .string buffer] ++
        comparisons buffer (lastCommands ++ [timeCommand])
      let calls := .recv :: read.map .access ++ [.send (reply request inp.time)]
      if isLast request then (calls ++ [.close], false) else (calls, true)

/-! ## The servers -/

/-- A client connects, and the loop serves it. -/
inductive SimpleLabel
  | accept (accepted : Bool)
  | pass (inp : PassInput)

/-- `run_server` of 08. The state says whether it is in the inner loop. -/
def simpleStep (serving : Bool) : SimpleLabel → Option Bool
  | .accept accepted => if serving then none else some accepted
  | .pass inp => if serving then some (serve inp).2 else none

/-- A client connects, for whom a thread is created or not, and a thread makes a pass. -/
inductive ThreadLabel
  | accept (thread : Option Nat)
  | pass (thread : Nat) (inp : PassInput)

/-- `run_server` of 09 and the threads that run `server_handle_client`. -/
def threadStep (threads : Finset Nat) : ThreadLabel → Option (Finset Nat)
  | .accept none => some threads
  | .accept (some thread) => if thread ∈ threads then none else some (insert thread threads)
  | .pass thread inp =>
    if thread ∈ threads then
      some (if (serve inp).2 then threads else threads.erase thread)
    else none

/-! ## Replies -/

variable {request bytes : List UInt8} {time : Int} {inp : PassInput}

/-- What the server says is a string, and fits into the block. -/
theorem response_isText (request : List UInt8) (time : Int) : 0 ∉ response request time ∧
    response request time ≠ [] ∧ (response request time).length < messageSize := by
  unfold response
  split
  · decide
  · split
    · obtain ⟨hzero, hne, hlength⟩ := printInt_isText (BitVec.ofInt 32 time)
      exact ⟨hzero, hne, hlength.trans_lt (by decide)⟩
    · decide

theorem reply_length (request : List UInt8) (time : Int) :
    (reply request time).length = messageSize := by
  have hfits := (response_isText request time).2.2
  rw [reply, filled, List.length_append, List.length_replicate]
  omega

theorem cString_reply : cString (reply request time) = response request time := by
  rw [reply, cString_filled, cString_eq_self (response_isText request time).1]

/-- A receive of a whole command is a request for it. -/
theorem requestIn_eq (h : 0 ∉ bytes) : requestIn bytes = bytes := by
  rw [requestIn, terminated_eq, cString_filled, cString_eq_self h]

/-- A pass that receives something answers the request, and is the last one for
this client if that asks for it. -/
theorem serve_answers {h : bytes.length ≤ messageSize} (hne : bytes ≠ [])
    (hrecv : inp.recv = .data bytes h) :
    .send (reply (requestIn bytes) inp.time) ∈ (serve inp).1 ∧
      (serve inp).2 = !isLast (requestIn bytes) := by
  unfold serve
  rw [hrecv]
  dsimp only
  rw [if_neg hne, ← requestIn]
  split
  · rename_i hlast
    simp [hlast]
  · rename_i hlast
    simp [hlast]

end LinuxNet.CommandServer
