-- SUMMARY: The HTTP client that follows redirections (07_http_redirection.c).
import LinuxNet.Base.Substring
import LinuxNet.HttpClient.Client

/-! # The client that follows redirections

`perform_http_request` sends one request, receives the response, and calls itself
if that is a redirection. One such exchange is a hop. The texts that the client
builds are taken to have the room they need; whether they do is said by the uses
of arrays among the calls of a hop. -/

namespace LinuxNet.HttpClient

/-- `MAX_REDIRECTION`. -/
def maxRedirection : Nat := 5

/-- `HTTP_RESULT`: -1 and the status codes 200, 301 and 404. -/
inductive HttpResult
  | unknown
  | successful
  | redirect
  | notFound
  deriving DecidableEq, Repr

/-- A hop: the arguments it was called with, what it has done, `http_sent_bytes`,
and what it has received, if it got that far. -/
structure Hop where
  host : List UInt8
  path : List UInt8
  calls : List Call
  sent : Nat
  received : Option Receiving
  deriving DecidableEq, Repr

/-- What a call of `perform_http_request` returns, what the buffer `response` of its
caller holds, if there is one, and its hops. -/
structure Outcome where
  result : HttpResult
  response : Option (List UInt8)
  hops : List Hop
  deriving DecidableEq, Repr

def failedToResolve : List UInt8 := bytesOf "Failed to resolve hostname: "

/-- A hop up to the end of its receive loop. -/
def exchange (peer : Peer) (fuel : Nat) (hostName path : List UInt8) : Option Hop :=
  let failed (calls : List Call) (sent : Nat) : Hop := ⟨hostName, path, calls, sent, none⟩
  if !peer.proto then some (failed [.report (bytesOf "TCP protocol is not supported")] 0)
  else
    match peer.service with
    | none => some (failed [.report (bytesOf "HTTP service is not available")] 0)
    | some servicePort =>
      let httpPort := portText servicePort
      let calls := [.text 6 (.store httpPort.length),
        .getaddrinfo hostName httpPort peer.resolves]
      if !peer.resolves then
        let httpTemp := failedToResolve ++ hostName
        some (failed (calls ++ [.text messageSize (.store httpTemp.length), .report httpTemp]) 0)
      else if !peer.opens then
        some (failed (calls ++ [.socket false, .report (bytesOf "socket() failed"),
          .freeaddrinfo]) 0)
      else if !peer.connects then
        some (failed (calls ++ [.socket true, .connect false,
          .report (bytesOf "connect() failed"), .freeaddrinfo, .close]) 0)
      else do
        let httpRequest := requestText path hostName
        let calls := calls ++ [.socket true, .connect true,
          .text messageSize (.store httpRequest.length)]
        let (sending, _) ← loop (sendRound (· ≤ 0) peer.send httpRequest) fuel ⟨[], 0⟩
        let calls := calls ++ sending.sends.map .send
        if sending.count < httpRequest.length then
          some (failed (calls ++ [.report (bytesOf "Can not send a complete http request"),
            .freeaddrinfo, .close]) sending.count)
        else do
          let receiving ← loop (recvRound messageSize peer.recv) fuel (.start messageSize)
          some ⟨hostName, path, calls ++ recvCalls receiving, sending.count, some receiving⟩

def movedPermanently : List UInt8 := bytesOf "301 Moved Permanently"

def location : List UInt8 := bytesOf "Location: "

def crlf : List UInt8 := bytesOf "\r\n"

/-- The host that a response redirects to, if it does, and the uses of arrays
until that is known. -/
def redirection (httpResponse : List UInt8) : List Access × Option (List UInt8) :=
  if strstr httpResponse movedPermanently then
    match splitFirst location (cString httpResponse) with
    | none => ([.string httpResponse, .string httpResponse], none)
    | some (before, locationStart) =>
      let accesses := [.string httpResponse, .string httpResponse,
        .string (httpResponse.drop (before.length + location.length))]
      match splitFirst crlf locationStart with
      | none => (accesses, none)
      | some (newHttpHost, _) => (accesses ++ [.store newHttpHost.length], some newHttpHost)
  else ([.string httpResponse], none)

/-- More calls of a hop. -/
def Hop.andThen (h : Hop) (calls : List Call) : Hop := { h with calls := h.calls ++ calls }

theorem Hop.andThen_nil (h : Hop) : h.andThen [] = h := by
  rw [Hop.andThen, List.append_nil]

theorem Hop.andThen_andThen (h : Hop) (calls calls' : List Call) :
    (h.andThen calls).andThen calls' = h.andThen (calls ++ calls') := by
  simp only [Hop.andThen, List.append_assoc]

/-- `perform_http_request`, where `env` are the system and the server of each hop. -/
def performHttpRequest (env : Nat → Peer) : Nat → List UInt8 → List UInt8 →
    Option (List UInt8) → Nat → Option Outcome
  | 0, _, _, _, _ => none
  | fuel + 1, hostName, path, response, redirectCount =>
    if redirectCount > maxRedirection then some ⟨.notFound, response, []⟩
    else do
      let hop ← exchange (env redirectCount) fuel hostName path
      match hop.received with
      | none => some ⟨.unknown, response, [hop]⟩
      | some receiving =>
        let httpResponse := receiving.buffer
        let response := response.map (storeAt · 0 (httpResponse.take receiving.count))
        let (accesses, target) := redirection httpResponse
        let hop := hop.andThen (accesses.map (.text messageSize))
        match target with
        | some newHttpHost => do
          -- the address list and the socket of this hop are still there
          let rest ← performHttpRequest env fuel newHttpHost (bytesOf "/") response
            (redirectCount + 1)
          some { rest with hops := hop :: rest.hops }
        | none => some ⟨.successful, response, [hop.andThen [.freeaddrinfo, .close]]⟩

end LinuxNet.HttpClient
