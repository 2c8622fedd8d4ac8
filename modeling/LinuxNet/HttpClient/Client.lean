-- SUMMARY: What the HTTP clients ask of the system, and the system that answers them.
import LinuxNet.Base.Handle
import LinuxNet.Base.Stoi
import LinuxNet.Base.Transfer

/-! # HTTP clients

The clients of 05, 06 and 07 look up a server, connect to it, send a request in
parts, and those of 06 and 07 receive the response in parts. What they do is a
list of calls. -/

namespace LinuxNet.HttpClient

/-- `MESSAGE_SIZE`. -/
def messageSize : Nat := 1024

/-- A call, with its result. A receive of nothing has failed, or the server has
closed the connection. `text` is a use of an array of `size` bytes. -/
inductive Call
  | getaddrinfo (host port : List UInt8) (resolved : Bool)
  | socket (opened : Bool)
  | connect (connected : Bool)
  | send (c : SendCall)
  | recv (bytes : List UInt8)
  | freeaddrinfo
  | close
  | report (message : List UInt8)
  | text (size : Nat) (a : Access)
  deriving DecidableEq, Repr

/-- The databases of the system, and a server: whether there is a protocol "tcp",
the port of the service "http", and how the other calls end. -/
structure Peer where
  proto : Bool
  service : Option UInt16
  resolves : Bool
  opens : Bool
  connects : Bool
  send : SendSchedule
  recv : RecvSchedule

/-- `sprintf(port, "%d", ntohs(s_port))` -/
def portText (port : UInt16) : List UInt8 := decimal port.toNat

/-- `sprintf(request, "GET %s HTTP/1.1\r\nHost: %s\r\nConnection: close\r\n\r\n", path, host)` -/
def requestText (path host : List UInt8) : List UInt8 :=
  bytesOf "GET " ++ path ++ bytesOf " HTTP/1.1\r\nHost: " ++ host ++
    bytesOf "\r\nConnection: close\r\n\r\n"

/-- The receives of a receive loop, the last of which returns nothing. -/
def recvCalls (r : Receiving) : List Call := r.chunks.map .recv ++ [.recv []]

/-! ## What becomes of the resources -/

/-- The list that getaddrinfo has allocated. -/
def addressList : Handle Call where
  uses
    | .socket _ | .connect _ | .freeaddrinfo => true
    | _ => false
  releases
    | .freeaddrinfo => true
    | _ => false
  uses_of_releases c h := by cases c <;> first | rfl | cases h

/-- The socket of the connection. -/
def socket : Handle Call where
  uses
    | .connect _ | .send _ | .recv _ | .close => true
    | _ => false
  releases
    | .close => true
    | _ => false
  uses_of_releases c h := by cases c <;> first | rfl | cases h

/-! ## What has been sent -/

def Call.send? : Call → Option SendCall
  | .send c => some c
  | _ => none

/-- The bytes that the calls have handed to the kernel. -/
def handedBy (calls : List Call) : List UInt8 := handed (calls.filterMap Call.send?)

variable {calls calls' : List Call} {sends : List SendCall} {path host : List UInt8}

theorem handedBy_append : handedBy (calls ++ calls') = handedBy calls ++ handedBy calls' := by
  rw [handedBy, List.filterMap_append, handed_append]
  rfl

@[simp] theorem handedBy_sends : handedBy (sends.map .send) = handed sends := by
  rw [handedBy, List.filterMap_map]
  exact congrArg handed (List.filterMap_some)

theorem handedBy_eq_nil (h : ∀ c ∈ calls, c.send? = none) : handedBy calls = [] := by
  rw [handedBy, List.filterMap_eq_nil_iff.2 h]
  rfl

theorem requestText_length :
    (requestText path host).length = 44 + path.length + host.length := by
  simp only [requestText, List.length_append, (by decide : (bytesOf "GET ").length = 4),
    (by decide : (bytesOf " HTTP/1.1\r\nHost: ").length = 17),
    (by decide : (bytesOf "\r\nConnection: close\r\n\r\n").length = 23)]
  omega

/-! ## The client that receives a response (06_receive_http_response.c)

The `Bool` of a result says whether the program ends with success, and not through
`on_func_failure`. -/

namespace ReceiveResponse

/-- `CPP_HOSTNAME`. -/
def cppHostname : List UInt8 := bytesOf "httpstat.us"

/-- `main` from its send loop on, with the calls before it. -/
def transfer (peer : Peer) (fuel : Nat) (httpRequest : List UInt8) (calls : List Call) :
    Option (List Call × Bool) := do
  let (sending, failed) ← loop (sendRound (· < 0) peer.send httpRequest) fuel ⟨[], 0⟩
  let calls := calls ++ sending.sends.map .send
  if failed then
    some (calls ++ [.close, .freeaddrinfo, .report (bytesOf "send() failed")], false)
  else do
    let receiving ← loop (recvRound messageSize peer.recv) fuel (.start messageSize)
    if receiving.count ≤ 0 then
      some (calls ++ (recvCalls receiving ++
        [.close, .freeaddrinfo, .report (bytesOf "recv() failed")]), false)
    else
      some (calls ++ (recvCalls receiving ++
        [.text messageSize (.string receiving.buffer), .close, .freeaddrinfo]), true)

/-- `main` with another request than its own. -/
def run (peer : Peer) (fuel : Nat) (httpRequest : List UInt8) : Option (List Call × Bool) :=
  if !peer.proto then some ([.report (bytesOf "TCP protocol is not available")], false)
  else
    match peer.service with
    | none => some ([.report (bytesOf "HTTP service is not available")], false)
    | some service =>
      let portBuffer := portText service
      let calls := [.text 6 (.store portBuffer.length),
        .getaddrinfo cppHostname portBuffer peer.resolves]
      if !peer.resolves then
        some (calls ++ [.report (bytesOf "Failed to resolve hostname")], false)
      else if !peer.opens then
        some (calls ++ [.socket false, .freeaddrinfo, .report (bytesOf "socket() failed")], false)
      else if !peer.connects then
        some (calls ++ [.socket true, .connect false, .freeaddrinfo,
          .report (bytesOf "connect() failed")], false)
      else
        transfer peer fuel httpRequest (calls ++ [.socket true, .connect true,
          .text messageSize (.store httpRequest.length)])

def main (peer : Peer) (fuel : Nat) : Option (List Call × Bool) :=
  run peer fuel (requestText (bytesOf "/200") cppHostname)

end ReceiveResponse

end LinuxNet.HttpClient
