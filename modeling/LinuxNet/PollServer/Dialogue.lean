-- SUMMARY: The interactive client and the poll server, joined by two streams: when the two never wait for each other.
import LinuxNet.Base.IStream
import LinuxNet.Base.Socket
import LinuxNet.Base.Stoi
import LinuxNet.Base.Transition
import LinuxNet.PollServer.Server

/-! # The client and the server

`run_client` asks and waits for an answer; `run_server` waits for a request and
answers it. Between them are the bytes in flight. No call fails. -/

namespace LinuxNet.PollServer

/-! ## What the client sends -/

/-- `fgets` into a buffer of `MESSAGE_SIZE` bytes: what it stores, and what is
left to be read. It waits for the end of a line that fits. -/
def fgets (stdin : List UInt8) : Option (List UInt8 × List UInt8) :=
  let first := stdin.take (messageSize - 1)
  let line := first.takeWhile (· ≠ newline)
  if line.length < first.length then some (line ++ [newline], stdin.drop (line.length + 1))
  else if first.length = messageSize - 1 then some (first, stdin.drop (messageSize - 1))
  else none

/-- `request_buffer[strcspn(request_buffer, "\r\n")] = 0` -/
def requestOf (buffer : List UInt8) : List UInt8 :=
  (cString buffer).takeWhile fun b => b ≠ carriageReturn && b ≠ newline

/-- Whether the client stops after a request. -/
def isLast (request : List UInt8) : Bool :=
  request = bytesOf "exit" || request = bytesOf "quit" || request = bytesOf "shutdown"

/-- The response to every request. -/
def serverTime (time : Nat) : List UInt8 := bytesOf "Server time: " ++ decimal time

/-! ## The two parties -/

/-- Where `run_client` is in its loop: in `fgets`, before `send`, or in `recv`. -/
inductive ClientPc
  | reading
  | sending (request : List UInt8)
  | receiving (request : List UInt8)
  | finished
  deriving DecidableEq

/-- Where `run_server` is with this client. -/
inductive ServerPc
  | polling
  | answering (request : List UInt8)
  | closing
  | closed
  deriving DecidableEq

structure Dialogue where
  stdin : List UInt8
  client : ClientPc
  toServer : List UInt8
  toClient : List UInt8
  server : ServerPc

/-- What happens next. A receive takes `n` bytes, or none where the other side
has closed the connection. -/
inductive Label
  | type (line : List UInt8)
  | clientRead
  | clientSend
  | clientRecv (n : Nat)
  | serverRecv (n : Nat)
  | serverSend (time : Nat)
  | serverClose

def clientStep (d : Dialogue) : Label → Option Dialogue
  | .clientRead =>
    if d.client = .reading then
      (fgets d.stdin).map fun (buffer, rest) =>
        { d with stdin := rest, client := .sending (requestOf buffer) }
    else none
  | .clientSend =>
    match d.client with
    | .sending request =>
      -- `send` returns the length of the request, 0 for an empty one
      some { d with toServer := d.toServer ++ request, client := .receiving request }
    | _ => none
  | .clientRecv n =>
    match d.client with
    | .receiving request =>
      if Receives messageSize d.toClient (d.server = .closed) n then
        some { d with
          toClient := d.toClient.drop n
          client := if isLast request then .finished else .reading }
      else none
    | _ => none
  | _ => none

def serverStep (d : Dialogue) : Label → Option Dialogue
  | .serverRecv n =>
    if d.server = .polling ∧ Receives messageSize d.toServer (d.client = .finished) n then
      some { d with
        toServer := d.toServer.drop n
        server := if n = 0 then .closing else .answering (d.toServer.take n) }
    else none
  | .serverSend time =>
    match d.server with
    | .answering request =>
      some { d with
        toClient := d.toClient ++ serverTime time
        server := if isQuit (filled messageSize request) then .closing else .polling }
    | _ => none
  | .serverClose => if d.server = .closing then some { d with server := .closed } else none
  | _ => none

/-- One step of the user, the client or the server. A line is shorter than
`MESSAGE_SIZE`. -/
def step (d : Dialogue) (l : Label) : Option Dialogue :=
  match l with
  | .type line =>
    if line.length < messageSize ∧ newline ∉ line then
      some { d with stdin := d.stdin ++ (line ++ [newline]) }
    else none
  | .clientRead | .clientSend | .clientRecv _ => clientStep d l
  | .serverRecv _ | .serverSend _ | .serverClose => serverStep d l

def Step (d : Dialogue) (l : Label) (d' : Dialogue) : Prop := step d l = some d'

/-- The connection has been accepted. -/
def connected : Dialogue := ⟨[], .reading, [], [], .polling⟩

variable {d d' : Dialogue} {l : Label} {ls : List Label} {request : List UInt8} {inp : RoundInput}
  {i n : Nat} {s : Server}

/-- The server of the dialogue is that of the loop: a client that it reads from is
answered, and then closed if the request is to quit. -/
theorem serveClient_answers {bytes : List UInt8} {hb : bytes.length ≤ messageSize}
    (hready : (s.fds i).revents.has pollIn) (hrecv : inp.recv (s.fds i).fd = .data bytes hb)
    (hne : bytes ≠ []) (hsend : inp.send (s.fds i).fd = .sent (n + 1)) :
    (serveClient inp i s).1.calls = s.calls ++
        [.recv (s.fds i).fd, .terminate bytes.length, .send (s.fds i).fd] ++
        (if isQuit (filled messageSize bytes) then [.close (s.fds i).fd] else []) ∧
      (serveClient inp i s).2 = isQuit (filled messageSize bytes) := by
  unfold serveClient
  rw [if_pos hready]
  dsimp only
  rw [hrecv, hsend]
  cases hquit : isQuit (filled messageSize bytes) <;>
    simp [hne, hquit, SendResult.failed, Server.record, Server.dropClient]

/-! ## Waiting -/

namespace Dialogue

/-- The client is in `recv`. -/
def Waits (d : Dialogue) : Prop := ∃ request, d.client = .receiving request

/-- There is something that `recv` of the client or of the server returns, or
something that the server is about to do. -/
def Live (d : Dialogue) : Prop :=
  d.toServer ≠ [] ∨ d.toClient ≠ [] ∨ (∃ request, d.server = .answering request) ∨
    d.server = .closing ∨ d.server = .closed

/-- The two do not wait for each other. -/
def Goes (d : Dialogue) : Prop := d.Waits → d.Live

/-- A request that the client sends is not empty, or something of an earlier
exchange is left. -/
def AsksSomething (d : Dialogue) (l : Label) : Prop :=
  l = .clientSend → d.client = .sending [] → d.Live

/-- Whatever the server does, there is something left to do for a side. -/
theorem live_of_serverStep (hstep : serverStep d l = some d') : d'.Live := by
  cases l with
  | serverRecv n =>
    obtain ⟨-, hstep⟩ := Option.ite_none_right_eq_some.1 hstep
    obtain rfl := Option.some.inj hstep
    dsimp only [Live]
    split
    · exact .inr (.inr (.inr (.inl rfl)))
    · exact .inr (.inr (.inl ⟨_, rfl⟩))
  | serverSend time =>
    unfold serverStep at hstep
    dsimp only at hstep
    split at hstep
    · obtain rfl := Option.some.inj hstep
      refine .inr (.inl (List.append_ne_nil_of_right_ne_nil _ ?_))
      exact List.append_ne_nil_of_right_ne_nil _ (decimal_ne_nil time)
    · cases hstep
  | serverClose =>
    obtain ⟨-, hstep⟩ := Option.ite_none_right_eq_some.1 hstep
    obtain rfl := Option.some.inj hstep
    exact .inr (.inr (.inr (.inr rfl)))
  | _ => cases hstep

theorem live_send : Live { d with
    toServer := d.toServer ++ request, client := .receiving request } ↔
      request ≠ [] ∨ d.Live := by
  simp only [Live, ne_eq, List.append_eq_nil_iff, not_and_or]
  tauto

/-- While the two do not wait for each other, a step keeps it so if and only if
the client does not send an empty request with nothing else left to do. -/
theorem asksSomething_iff (hd : d.Goes) (h : Step d l d') : d.AsksSomething l ↔ d'.Goes := by
  cases l with
  | type line =>
    obtain ⟨-, h⟩ := Option.ite_none_right_eq_some.1 h
    obtain rfl := Option.some.inj h
    exact ⟨fun _ => hd, fun _ he => nomatch he⟩
  | clientRead =>
    obtain ⟨-, h⟩ := Option.ite_none_right_eq_some.1 h
    obtain ⟨r, -, rfl⟩ := Option.map_eq_some_iff.1 h
    exact ⟨fun _ ⟨_, he⟩ => (nomatch he), fun _ he => nomatch he⟩
  | clientSend =>
    replace h : clientStep d .clientSend = some d' := h
    unfold clientStep at h
    dsimp only at h
    split at h
    · rename_i request hsending
      obtain rfl := Option.some.inj h
      have hgoes : Goes { d with
          toServer := d.toServer ++ request, client := .receiving request } ↔
            request ≠ [] ∨ d.Live :=
        ⟨fun hgo => live_send.1 (hgo ⟨request, rfl⟩), fun hor _ => live_send.2 hor⟩
      rw [hgoes, AsksSomething, hsending]
      by_cases hempty : request = []
      · simp [hempty]
      · simp [hempty]
    · cases h
  | clientRecv n =>
    replace h : clientStep d (.clientRecv n) = some d' := h
    unfold clientStep at h
    dsimp only at h
    split at h
    · obtain ⟨-, h⟩ := Option.ite_none_right_eq_some.1 h
      obtain rfl := Option.some.inj h
      refine ⟨fun _ ⟨request, he⟩ => ?_, fun _ he => nomatch he⟩
      dsimp only at he
      split at he <;> cases he
    · cases h
  | serverRecv n =>
    have hserver : serverStep d (.serverRecv n) = some d' := h
    exact ⟨fun _ _ => live_of_serverStep hserver, fun _ he => nomatch he⟩
  | serverSend time =>
    have hserver : serverStep d (.serverSend time) = some d' := h
    exact ⟨fun _ _ => live_of_serverStep hserver, fun _ he => nomatch he⟩
  | serverClose =>
    have hserver : serverStep d .serverClose = some d' := h
    exact ⟨fun _ _ => live_of_serverStep hserver, fun _ he => nomatch he⟩

end Dialogue

/-- The runs in which the client and the server never wait for each other are
those in which every request that the client sends is not empty, unless
something of an earlier exchange is left. -/
theorem goes_iff_asksSomething :
    Run (fun d l d' => Step d l d' ∧ d'.Goes) connected ls d ↔
      Run (fun d l d' => Step d l d' ∧ d.AsksSomething l) connected ls d :=
  Run.iff_of_invariant (I := Dialogue.Goes)
    (fun _ _ _ hd hstep => (Dialogue.asksSomething_iff hd hstep).symm)
    (fun _ _ _ _ _ hgoes => hgoes) fun ⟨_, he⟩ => nomatch he

/-- An empty line: the client sends nothing and waits for an answer to it. -/
theorem emptyLine_waits : ¬ ∀ ls d, Run Step connected ls d → d.Goes := by
  intro hall
  have hrun : Run Step connected [.type [], .clientRead, .clientSend]
      ⟨[], .receiving [], [], [], .polling⟩ := Run.foldlM_iff.2 rfl
  rcases hall _ _ hrun ⟨[], rfl⟩ with h | h | ⟨_, h⟩ | h | h
  · exact h rfl
  · exact h rfl
  · cases h
  · cases h
  · cases h

end LinuxNet.PollServer
