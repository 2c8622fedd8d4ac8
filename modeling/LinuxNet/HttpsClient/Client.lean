-- SUMMARY: The HTTPS client (https_client.c).
import LinuxNet.Base.ReadLoop
import LinuxNet.HttpClient.Client

/-! # The HTTPS client

What `perform_https_request` does is a list of calls. What `print_sockaddr_info`
prints is left out. -/

namespace LinuxNet.HttpsClient

/-- `REQUEST_SIZE`. -/
def requestSize : Nat := 1024

/-- `RESPONSE_SIZE`. -/
def responseSize : Nat := 4096

/-- A call, with its result. `text` is a use of an array of `size` bytes. -/
inductive Call
  | report (message : List UInt8)
  | printErrors
  | print (text : List UInt8)
  | getaddrinfo (host port : List UInt8) (found : Bool)
  | socket (rc : Int)
  | connect (addr : List UInt8) (rc : Int)
  | contextNew (made : Bool)
  | sslNew (made : Bool)
  | setFd
  | sslConnect (rc : Int)
  | text (size : Nat) (a : Access)
  | sslWrite (bytes : List UInt8) (rc : Int)
  | sslRead (r : ReadCall)
  | freeaddrinfo
  | close
  | contextFree
  | shutdown
  | sslFree
  deriving DecidableEq, Repr

/-- How the system, the library and the server answer. Connects are numbered. -/
structure Peer where
  proto : Bool
  addresses : Option { l : List (List UInt8) // l ≠ [] }
  socket : Int
  connect : Nat → Int
  contextNew : Bool
  sslNew : Bool
  sslConnect : Int
  cipher : List UInt8
  sslWrite : Int
  sslRead : ReadSchedule

/-- The loop over the addresses from the `k`-th on, and what `rc` is after it. -/
def connectEach (connect : Nat → Int) : Nat → Int → List (List UInt8) → List Call × Int
  | _, rc, [] => ([], rc)
  | k, _, addr :: rest =>
    let rc := connect k
    if rc = 0 then ([.connect addr rc], rc)
    else
      let (calls, rest) := connectEach connect (k + 1) rc rest
      (.connect addr rc :: calls, rest)

/-- How a connection is given up. -/
def release : List Call := [.freeaddrinfo, .close, .contextFree, .shutdown, .sslFree]

/-- `perform_https_request` up to its receive loop, and whether it gets there. -/
def sendRequest (peer : Peer) (hostname port : List UInt8) : List Call × Bool :=
  if !peer.proto then ([.report (bytesOf "TCP protocol is not supported")], false)
  else
    let calls := [.getaddrinfo hostname port peer.addresses.isSome]
    match peer.addresses with
    | none => (calls ++ [.report (bytesOf "Resolve address failed")], false)
    | some addrServer =>
      let calls := calls ++ [.socket peer.socket]
      if peer.socket < 0 then (calls ++ [.report (bytesOf "socket() failed")], false)
      else
        let (connects, rc) := connectEach peer.connect 0 0 addrServer.1
        let calls := calls ++ connects
        if rc ≠ 0 then (calls ++ [.report (bytesOf "connect() failed")], false)
        else if !peer.contextNew then
          (calls ++ [.contextNew false, .report (bytesOf "Unable to create SSL context"),
            .freeaddrinfo, .close], false)
        else if !peer.sslNew then
          (calls ++ [.contextNew true, .sslNew false, .report (bytesOf "SSL_new() failed"),
            .freeaddrinfo, .close, .contextFree], false)
        else
          let calls := calls ++ [.contextNew true, .sslNew true, .setFd,
            .sslConnect peer.sslConnect]
          if peer.sslConnect ≤ 0 then
            (calls ++ [.report (bytesOf "SSL_connect() failed"), .printErrors] ++ release, false)
          else
            let httpRequest := HttpClient.requestText (bytesOf "/") hostname
            let calls := calls ++ [.print (bytesOf "SSL connection is done with cipher suite " ++
              peer.cipher ++ bytesOf "\n"), .text requestSize (.store httpRequest.length),
              .sslWrite httpRequest peer.sslWrite]
            if peer.sslWrite ≤ 0 then
              (calls ++ [.report (bytesOf "SSL_write() failed"), .printErrors] ++ release, false)
            else (calls, true)

/-- The array `http_response` is cleared but for its last byte, filled, and
terminated; `stale` is what it holds before. -/
def readResponse (sslRead : ReadSchedule) (stale : Vector UInt8 (responseSize + 1)) (fuel : Nat) :
    Option Reading := do
  let httpResponse := storeAt stale.toList 0 (List.replicate responseSize 0)
  let s ← loop (readRound responseSize sslRead) fuel ⟨httpResponse, 0, []⟩
  some { s with array := s.array.set s.total.toNat 0 }

/-- A read in the loop, which is reported if it has returned something. -/
def readCalls (r : ReadCall) : List Call :=
  if r.rc > 0 then
    [.sslRead r, .print (bytesOf "Received " ++ decimal r.rc.toNat ++ bytesOf " bytes\n")]
  else [.sslRead r]

/-- What is done with the response. -/
def responseCalls (s : Reading) : List Call :=
  s.reads.flatMap readCalls ++
    [.text (responseSize + 1) (.store s.total.toNat), .text (responseSize + 1) (.string s.array),
      .print (cString s.array ++ bytesOf "\n")]

def performHttpsRequest (peer : Peer) (stale : Vector UInt8 (responseSize + 1)) (fuel : Nat)
    (hostname port : List UInt8) : Option (List Call) :=
  let (calls, sent) := sendRequest peer hostname port
  if !sent then some calls
  else do
    let s ← readResponse peer.sslRead stale fuel
    some (calls ++ responseCalls s ++ release)

end LinuxNet.HttpsClient
