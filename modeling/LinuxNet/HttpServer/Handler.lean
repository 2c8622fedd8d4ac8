-- SUMMARY: The connection handler of the HTTP server (http_connection_handler.cpp): one receive, one response.
import LinuxNet.Base.Socket
import LinuxNet.HttpServer.Router
import LinuxNet.HttpServer.Server

/-! # HTTPConnectionHandler::handle_client -/

namespace LinuxNet.HttpServer

open UnixPath (Dir)

/-- `MESSAGE_SIZE`. -/
def messageSize : Nat := 1024

/-- The exceptions that leave `handle_client`. -/
inductive HandlerException
  | std (e : StdException)
  | filesystem (errno : Errno)
  deriving DecidableEq

/-- What the handler reads and sends with. -/
structure Environment where
  limits : StringLimits
  fs : FileSystem
  cwd : Dir
  send : Bytes → SendResult

/-- The response to a string of bytes. -/
def respond (env : Environment) (rawRequest : Bytes) : Except HandlerException Bytes := do
  let request ← (parse env.limits rawRequest).mapError .std
  let response ← (route env.fs env.cwd request).mapError .filesystem
  pure response.toBytes

/-- `handle_client`, with what it passes to `send`. The buffer is read as a C
string; after `MESSAGE_SIZE` bytes it has no terminator. -/
def handleClient (env : Environment) :
    RecvResult messageSize → Except HandlerException (ClientActivity × Option Bytes)
  | .fail _ => .ok (.disconnect, none)
  | .data bytes _ =>
    if bytes = [] then .ok (.disconnect, none)
    else do
      let response ← respond env (cString (filled messageSize bytes))
      match env.send response with
      | .fail _ => pure (.disconnect, some response)
      | .sent n => pure (if 0 < n then .completed else .disconnect, some response)

/-- What a client is sent for what it is received from, one receive after the
other: the server calls the handler again as long as it returns `WAITING`. -/
def answers (env : Environment) : List (RecvResult messageSize) →
    Except HandlerException (List Bytes)
  | [] => .ok []
  | result :: rest => do
    let (activity, sent) ← handleClient env result
    if activity ≠ .waiting then pure sent.toList
    else do
      let more ← answers env rest
      pure (sent.toList ++ more)

variable {env : Environment} {rest : List (RecvResult messageSize)}

/-- The handler answers the first receive, and the server closes the connection. -/
theorem answers_cons (p : Piece messageSize) : answers env (p.result :: rest) =
    (respond env (cString (filled messageSize p.1))).map fun response => [response] := by
  obtain ⟨bytes, hne, hle⟩ := p
  simp only [answers, handleClient, Piece.result, if_neg hne]
  cases respond env (cString (filled messageSize bytes)) with
  | error e => rfl
  | ok response =>
    simp only [Except.bind_ok]
    cases env.send response with
    | fail e => rfl
    | sent n =>
      dsimp only
      split <;> rfl

end LinuxNet.HttpServer
