-- SUMMARY: The server that answers every datagram and the client that asks it for the time (10_peer_to_peer_client_server.c).
import LinuxNet.Base.Answering
import LinuxNet.PeerServer
import LinuxNet.PollServer.Dialogue

/-! # Requests over UDP

`run_server` and `run_client` once their sockets are set up. There is one server,
and clients at some of the other addresses. -/

namespace LinuxNet.Peer

open LinuxNet.PeerServer (messageSize response)
open LinuxNet.PollServer (requestOf isLast)

variable {A : Type*}

abbrev Call (A : Type*) := Action A (List UInt8)

/-! ## run_client -/

/-- Where the client is: before `sendto`, or in `recvfrom`. The target is what is
stored in `addr_server->ai_addr`. -/
inductive Client (A : Type*)
  | prompting (target : A)
  | waiting (target : A) (request : List UInt8)
  | finished
  deriving DecidableEq, Repr

/-- After a `recvfrom` that does not fail. It has stored the address of the sender. -/
def Client.received (source : A) (request payload : List UInt8) : Client A :=
  let receivedBytes := (payload.take messageSize).length
  if receivedBytes ≤ 0 then .prompting source
  else if isLast request then .finished
  else .prompting source

/-- The calls of the client. `line` is what `fgets` has left in the buffer. -/
inductive Client.Does : Client A → Call A → Client A → Prop
  | send (target : A) (line : List UInt8) (h : line.length < messageSize) :
      Does (.prompting target) (.send target (requestOf line)) (.waiting target (requestOf line))
  | sendFail (target : A) (line : List UInt8) (h : line.length < messageSize) :
      Does (.prompting target) (.sendFail target (requestOf line)) (.prompting target)
  | recv (target : A) (request : List UInt8) (source : A) (payload : List UInt8) :
      Does (.waiting target request) (.recv source payload) (.received source request payload)
  | recvFail (target : A) (request : List UInt8) :
      Does (.waiting target request) .recvFail (.prompting target)

/-! ## run_server -/

/-- Where the server is: in `recvfrom`, or before `sendto`. -/
inductive Server (A : Type*)
  | receiving
  | answering (client : A)
  deriving DecidableEq, Repr

/-- The server has received something. -/
def asks (payload : List UInt8) : Bool := (payload.take messageSize).length > 0

/-- The calls of the server. -/
inductive Server.Does : Server A → Call A → Server A → Prop
  | recv (source : A) (payload : List UInt8) :
      Does .receiving (.recv source payload)
        (if asks payload then .answering source else .receiving)
  | recvFail : Does .receiving .recvFail .receiving
  | send (client : A) (time : Int) :
      Does (.answering client) (.send client (response time)) .receiving
  | sendFail (client : A) (time : Int) :
      Does (.answering client) (.sendFail client (response time)) .receiving

/-! ## All of them -/

/-- What is behind an address. Nothing is known of what the others do. -/
inductive Party (A : Type*)
  | client (c : Client A)
  | server (s : Server A)
  | other

inductive Party.Does : Party A → Call A → Party A → Prop
  | client {c call c'} (h : Client.Does c call c') : Does (.client c) call (.client c')
  | server {s call s'} (h : Server.Does s call s') : Does (.server s) call (.server s')
  | other (call) : Does .other call .other

def system : Processes A (List UInt8) (Party A) where
  Does _ := Party.Does
  reach target := {target}

variable [DecidableEq A]

/-- The clients know the address of the server. -/
def start (server : A) (isClient : A → Bool) : Config A (List UInt8) (Party A) where
  state a :=
    if a = server then .server .receiving
    else if isClient a then .client (.prompting server)
    else .other
  flight := 0

omit [DecidableEq A]

/-! ## What they refine -/

/-- What the server is about to do. -/
def duty : Party A → Option (Duty A)
  | .server .receiving => some .receiving
  | .server (.answering client) => some (.answering client)
  | _ => none

/-- The client is in `recvfrom`. -/
def waits : Party A → Bool
  | .client (.waiting _ _) => true
  | _ => false

theorem serves (a : A) : Serves (system.Does a) asks duty where
  step := by
    intro p call p' r hdoes hduty
    cases hdoes with
    | client h => cases hduty
    | other => cases hduty
    | server h =>
      cases h with
      | recv source payload =>
        obtain rfl := Option.some.inj hduty
        refine ⟨_, ?_, .recv source payload⟩
        split <;> rfl
      | recvFail =>
        obtain rfl := Option.some.inj hduty
        exact ⟨_, rfl, .recvFail (.inl rfl)⟩
      | send client time =>
        obtain rfl := Option.some.inj hduty
        exact ⟨_, rfl, .send _ _⟩
      | sendFail client time =>
        obtain rfl := Option.some.inj hduty
        exact ⟨_, rfl, .sendFail _ _ (.inl rfl)⟩
  recv := by
    rintro (c | (_ | client) | _) hduty source payload <;> cases hduty
    exact ⟨_, .server (.recv source payload)⟩
  send := by
    rintro (c | (_ | client) | _) b hduty <;> cases hduty
    exact ⟨_, _, .server (.send client 0)⟩

theorem awaits (a : A) : Awaits (system.Does a) (waits · = true) where
  call := by
    rintro p call p' hwaits hdoes
    cases hdoes with
    | other => cases hwaits
    | server h => cases hwaits
    | client h =>
      cases h with
      | send | sendFail => cases hwaits
      | recv target request source payload => exact .inl ⟨source, payload, rfl⟩
      | recvFail => exact .inr rfl
  recv := by
    rintro ((target | ⟨target, request⟩ | _) | s | _) hwaits source payload <;> cases hwaits
    refine ⟨_, .client (.recv target request source payload), ?_⟩
    unfold Client.received
    dsimp only
    split
    · exact Bool.noConfusion
    · split <;> exact Bool.noConfusion

theorem reach_eq (target : A) : system.reach target = {target} := rfl

theorem asks_iff {payload : List UInt8} :
    asks payload = true ↔ payload.take messageSize ≠ [] :=
  decide_eq_true_iff.trans List.length_pos_iff

/-- A receive of the server and its answer are a round of its loop. -/
theorem server_round (a source client : A) (payload answer : List UInt8) :
    Run (system.Does a) (.server .receiving)
        [.recv source payload, .send client answer] (.server .receiving) ↔
      client = source ∧ ∃ time, .sendto answer ∈ PeerServer.round
        ⟨.data (payload.take messageSize) (List.length_take_le _ _), time⟩ := by
  have hround (time : Int) : .sendto answer ∈ PeerServer.round
      ⟨.data (payload.take messageSize) (List.length_take_le _ _), time⟩ ↔
        asks payload = true ∧ answer = response time := by
    rw [asks_iff]
    by_cases hnil : payload.take messageSize = [] <;> simp [PeerServer.round, hnil]
  simp only [hround]
  constructor
  · intro h
    have hsplit : Run (system.Does a) (.server .receiving)
      (([] ++ [.recv source payload]) ++ [.send client answer]) (.server .receiving) := h
    obtain ⟨p, hfirst, hsend⟩ := Run.concat_iff.1 hsplit
    obtain ⟨p', hnil, hrecv⟩ := Run.concat_iff.1 hfirst
    obtain rfl := Run.nil_iff.1 hnil
    cases hrecv with
    | server hrecv =>
      cases hsend with
      | server hsend =>
        cases hrecv
        by_cases hasks : asks payload = true
        · rw [if_pos hasks] at hsend
          cases hsend with
          | send _ time => exact ⟨rfl, time, hasks, rfl⟩
        · rw [if_neg hasks] at hsend
          cases hsend
  · rintro ⟨rfl, time, hasks, rfl⟩
    have hrecv : system.Does a (.server .receiving) (.recv client payload)
        (.server (.answering client)) :=
      .server (by simpa [hasks] using Server.Does.recv client payload)
    exact (Run.single hrecv).snoc (.server (.send client time))

end LinuxNet.Peer
