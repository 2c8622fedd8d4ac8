-- SUMMARY: A client and the handler of its connection: when each command is answered by the reply to it.
import LinuxNet.Base.Socket
import LinuxNet.Base.Transition
import LinuxNet.CommandServer.Handler

/-! # Commands and replies

The client of `run_client` and the loop of the handler, with the bytes in flight
between them. Neither marks where a message ends. No call fails. -/

namespace LinuxNet.CommandServer

/-- What the client can send: a string that is not empty, and that fits into its buffer. -/
def IsCommand (command : List UInt8) : Prop :=
  command ≠ [] ∧ command.length < messageSize ∧ 0 ∉ command

instance (command : List UInt8) : Decidable (IsCommand command) := by
  unfold IsCommand
  infer_instance

/-- Where the client is in its loop: in `fgets`, or in `recv` after a command. -/
inductive ClientPc
  | reading
  | receiving (command : List UInt8)
  | finished
  deriving DecidableEq

/-- Where the handler is: in `recv`, before `send`, or behind its loop. -/
inductive ServerPc
  | receiving
  | answering (request : List UInt8)
  | ended
  deriving DecidableEq

def ClientPc.waits : ClientPc → Bool
  | .receiving _ => true
  | _ => false

/-- The two parties and what is in flight. `commands` are those sent so far;
`answered` what the handler took for requests, each with the text of its reply;
`printed` what the client has printed after each command, if recv returned
something. -/
structure Exchange where
  client : ClientPc
  toServer : List UInt8
  toClient : List UInt8
  server : ServerPc
  commands : List (List UInt8)
  answered : List (List UInt8 × List UInt8)
  printed : List (Option (List UInt8))

/-- What happens next. A receive takes `n` bytes. -/
inductive Label
  | clientSend (command : List UInt8)
  | clientRecv (n : Nat)
  | serverRecv (n : Nat)
  | serverSend (time : Int)

namespace Exchange

/-- The client sends a command. -/
def send (command : List UInt8) (d : Exchange) : Exchange :=
  { d with
    client := .receiving command
    toServer := d.toServer ++ command
    commands := d.commands ++ [command] }

/-- The client receives `n` bytes after a command, and prints the string in its buffer. -/
def print (command : List UInt8) (n : Nat) (d : Exchange) : Exchange :=
  let response := cString (filled messageSize (d.toClient.take n))
  { d with
    client := if isLast command then .finished else .reading
    toClient := d.toClient.drop n
    printed := d.printed ++ [if n = 0 then none else some response] }

/-- The handler receives `n` bytes. -/
def take (n : Nat) (d : Exchange) : Exchange :=
  { d with
    toServer := d.toServer.drop n
    server := if n = 0 then .ended else .answering (requestIn (d.toServer.take n)) }

/-- The handler answers a request. -/
def answer (request : List UInt8) (time : Int) (d : Exchange) : Exchange :=
  { d with
    toClient := d.toClient ++ reply request time
    server := if isLast request then .ended else .receiving
    answered := d.answered ++ [(request, response request time)] }

end Exchange

def clientStep (d : Exchange) : Label → Option Exchange
  | .clientSend command =>
    if d.client = .reading ∧ IsCommand command then some (d.send command) else none
  | .clientRecv n =>
    match d.client with
    | .receiving command =>
      if Receives messageSize d.toClient (d.server = .ended) n then some (d.print command n)
      else none
    | _ => none
  | _ => none

def serverStep (d : Exchange) : Label → Option Exchange
  | .serverRecv n =>
    if d.server = .receiving ∧ Receives messageSize d.toServer (d.client = .finished) n then
      some (d.take n)
    else none
  | .serverSend time =>
    match d.server with
    | .answering request => some (d.answer request time)
    | _ => none
  | _ => none

def step (d : Exchange) (l : Label) : Option Exchange :=
  match l with
  | .clientSend _ | .clientRecv _ => clientStep d l
  | .serverRecv _ | .serverSend _ => serverStep d l

def Step (d : Exchange) (l : Label) (d' : Exchange) : Prop := step d l = some d'

/-- The client has connected, and the handler has been started. -/
def connected : Exchange := ⟨.reading, [], [], .receiving, [], [], []⟩

/-! ## Steps -/

/-- What a step does. -/
inductive Moves (d : Exchange) : Label → Exchange → Prop
  | clientSend {command : List UInt8} (hclient : d.client = .reading)
    (hcommand : IsCommand command) : Moves d (.clientSend command) (d.send command)
  | clientRecv {command : List UInt8} {n : Nat} (hclient : d.client = .receiving command)
    (hn : Receives messageSize d.toClient (d.server = .ended) n) :
    Moves d (.clientRecv n) (d.print command n)
  | serverRecv {n : Nat} (hserver : d.server = .receiving)
    (hn : Receives messageSize d.toServer (d.client = .finished) n) :
    Moves d (.serverRecv n) (d.take n)
  | serverSend {request : List UInt8} (time : Int) (hserver : d.server = .answering request) :
    Moves d (.serverSend time) (d.answer request time)

variable {d d' : Exchange} {l : Label}

theorem clientStep_moves (h : clientStep d l = some d') : Moves d l d' := by
  unfold clientStep at h
  split at h
  · obtain ⟨⟨hclient, hcommand⟩, h⟩ := Option.ite_none_right_eq_some.1 h
    obtain rfl := Option.some.inj h
    exact .clientSend hclient hcommand
  · split at h
    · obtain ⟨hn, h⟩ := Option.ite_none_right_eq_some.1 h
      obtain rfl := Option.some.inj h
      exact .clientRecv ‹_› hn
    · cases h
  · cases h

theorem serverStep_moves (h : serverStep d l = some d') : Moves d l d' := by
  unfold serverStep at h
  split at h
  · obtain ⟨⟨hserver, hn⟩, h⟩ := Option.ite_none_right_eq_some.1 h
    obtain rfl := Option.some.inj h
    exact .serverRecv hserver hn
  · split at h
    · obtain rfl := Option.some.inj h
      exact .serverSend _ ‹_›
    · cases h
  · cases h

theorem Step.moves (h : Step d l d') : Moves d l d' := by
  cases l with
  | clientSend command => exact clientStep_moves h
  | clientRecv n => exact clientStep_moves h
  | serverRecv n => exact serverStep_moves h
  | serverSend time => exact serverStep_moves h

namespace Exchange

/-- Nothing that has been sent, answered or printed is taken back. -/
theorem history_prefix (h : Moves d l d') : d.commands <+: d'.commands ∧
    d.answered <+: d'.answered ∧ d.printed <+: d'.printed := by
  cases h with
  | clientSend => exact ⟨List.prefix_append _ _, List.prefix_rfl, List.prefix_rfl⟩
  | clientRecv => exact ⟨List.prefix_rfl, List.prefix_rfl, List.prefix_append _ _⟩
  | serverRecv => exact ⟨List.prefix_rfl, List.prefix_rfl, List.prefix_rfl⟩
  | serverSend => exact ⟨List.prefix_rfl, List.prefix_append _ _, List.prefix_rfl⟩

/-- Every answer has a text, and the client prints once for each command. -/
structure Counted (d : Exchange) : Prop where
  texts : ∀ exchange ∈ d.answered, exchange.2 ≠ []
  printed : d.printed.length + d.client.waits.toNat = d.commands.length

theorem connected_counted : connected.Counted := ⟨by simp [connected], rfl⟩

theorem Counted.next (hd : d.Counted) (h : Moves d l d') : d'.Counted := by
  obtain ⟨htexts, hprinted⟩ := hd
  cases h with
  | clientSend hclient =>
    rw [hclient] at hprinted
    refine ⟨htexts, ?_⟩
    rw [send, List.length_append, ← hprinted]
    rfl
  | @clientRecv command _ hclient =>
    rw [hclient] at hprinted
    refine ⟨htexts, ?_⟩
    have hwaits : (if isLast command then ClientPc.finished else .reading).waits =
        false := by
      split <;> rfl
    rw [print, List.length_append, ← hprinted, hwaits]
    rfl
  | serverRecv => exact ⟨htexts, hprinted⟩
  | serverSend time =>
    refine ⟨fun exchange hmem => ?_, hprinted⟩
    rcases List.mem_append.1 hmem with hmem | hmem
    · exact htexts exchange hmem
    · rw [List.mem_singleton.1 hmem]
      exact (response_isText _ time).2.1

end Exchange

end LinuxNet.CommandServer
