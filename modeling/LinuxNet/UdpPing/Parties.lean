-- SUMMARY: The client and the server that exchange "ping" and "pong" as datagrams (simple_udp_client_server/client.c, server.c).
import LinuxNet.Base.Answering
import LinuxNet.Base.Search

/-! # Ping and pong over UDP

Both programs once their sockets are set up, as processes known by their calls
of `sendto` and `recvfrom`. -/

namespace LinuxNet.UdpPing

/-- A `struct sockaddr_in`. -/
structure Address where
  host : BitVec 32
  port : BitVec 16
  deriving DecidableEq, Repr

def loopback : BitVec 32 := 0x7F000001#32

/-- Where the client is bound. -/
def clientAddr : Address := ⟨loopback, 9043#16⟩

/-- `receiver_addr` of the client, where the server is bound. -/
def serverAddr : Address := ⟨loopback, 3490#16⟩

def bufferSize : Nat := 1024

abbrev Call := Action Address (List UInt8)

/-! ## client.c -/

/-- `msg` in iteration `i`. -/
def message (i : Nat) : List UInt8 :=
  if i % 2 = 1 then bytesOf "ping" else bytesOf "Hello, World!"

/-- Where the client is in iteration `i`: before `sendto`, or before `recvfrom`. -/
inductive Client
  | sending (i : Nat)
  | receiving (i : Nat)
  | exited
  deriving DecidableEq, Repr

/-- After `sendto`, whose result is kept in a `uint32_t`. -/
def Client.afterSend (i : Nat) (rc : Int) : Client :=
  let sentBytes : BitVec 32 := .ofInt 32 rc
  let continued : Client := if i % 2 = 1 then .receiving i else .sending (i + 1)
  if sentBytes > 0 then continued
  else if sentBytes = 0 then continued
  else .exited

/-- After `recvfrom`, whose result is kept in a `uint32_t` too. -/
def Client.afterRecv (i : Nat) (rc : Int) : Client :=
  let receivedBytes : BitVec 32 := .ofInt 32 rc
  if receivedBytes > 0 then .sending (i + 1)
  else if receivedBytes = 0 then .sending (i + 1)
  else .exited

/-- The client after a call, if this is the call it makes. The sender of what it
receives is not asked for. -/
def Client.after : Client → Call → Option Client
  | .sending i, .send target payload =>
    if target = serverAddr ∧ payload = message i then some (.afterSend i payload.length) else none
  | .sending i, .sendFail target payload =>
    if target = serverAddr ∧ payload = message i then some (.afterSend i (-1)) else none
  | .receiving i, .recv _ payload => some (.afterRecv i (payload.take (bufferSize - 1)).length)
  | .receiving i, .recvFail => some (.afterRecv i (-1))
  | _, _ => none

/-! ## server.c -/

/-- Where the server is: before `recvfrom`, or before `sendto`. -/
inductive Server
  | receiving
  | answering (sender : Address)
  | exited
  deriving DecidableEq, Repr

/-- The server answers what it has received. -/
def asks (payload : List UInt8) : Bool :=
  strstr (filled bufferSize (payload.take (bufferSize - 1))) (bytesOf "ping")

/-- After `recvfrom`, whose result is kept in an `int32_t`. -/
def Server.afterRecv (sender : Address) (payload : List UInt8) : Server :=
  let receivedBytes : Int := (payload.take (bufferSize - 1)).length
  if receivedBytes > 0 then
    if asks payload then .answering sender else .receiving
  else if receivedBytes = 0 then .receiving
  else .exited

/-- After `sendto`. -/
def Server.afterSend (rc : Int) : Server :=
  if rc > 0 then .receiving else if rc = 0 then .receiving else .exited

/-- The server after a call, if this is the call it makes. -/
def Server.after : Server → Call → Option Server
  | .receiving, .recv source payload => some (.afterRecv source payload)
  | .receiving, .recvFail => some .exited
  | .answering sender, .send target payload =>
    if target = sender ∧ payload = bytesOf "pong" then some (.afterSend payload.length) else none
  | .answering sender, .sendFail target payload =>
    if target = sender ∧ payload = bytesOf "pong" then some (.afterSend (-1)) else none
  | _, _ => none

/-! ## Both, and everybody else -/

/-- What is behind an address. Nothing is known of what the others do. -/
inductive Party
  | client (c : Client)
  | server (s : Server)
  | other
  deriving DecidableEq, Repr

def Party.after : Party → Call → Option Party
  | .client c, call => (c.after call).map .client
  | .server s, call => (s.after call).map .server
  | .other, _ => some .other

def system : Processes Address (List UInt8) Party where
  Does _ p call p' := p.after call = some p'
  reach target := {target}

def start : Config Address (List UInt8) Party where
  state a :=
    if a = clientAddr then .client (.sending 1)
    else if a = serverAddr then .server .receiving
    else .other
  flight := 0

variable {c c' : Client} {s s' : Server} {call : Call} {i : Nat} {rc : Int} {sender : Address}
  {payload : List UInt8}

/-! ## What each call leads to -/

/-- No result makes the client leave. -/
theorem Client.afterSend_eq (i : Nat) (rc : Int) :
    Client.afterSend i rc = if i % 2 = 1 then .receiving i else .sending (i + 1) := by
  unfold Client.afterSend
  dsimp only
  split
  · rfl
  · rename_i hpos
    exact if_pos (by bv_omega)

theorem Client.afterRecv_eq (i : Nat) (rc : Int) : Client.afterRecv i rc = .sending (i + 1) := by
  unfold Client.afterRecv
  dsimp only
  split
  · rfl
  · rename_i hpos
    exact if_pos (by bv_omega)

theorem asks_eq : asks payload = strstr (payload.take (bufferSize - 1)) (bytesOf "ping") :=
  strstr_filled

theorem Server.afterRecv_eq (sender : Address) (payload : List UInt8) :
    Server.afterRecv sender payload = if asks payload then .answering sender else .receiving := by
  unfold Server.afterRecv
  dsimp only
  split
  · rfl
  · rename_i hpos
    have hnil : payload.take (bufferSize - 1) = [] :=
      List.length_eq_zero_iff.1 (by omega)
    have hasks : asks payload = false := by
      rw [asks_eq, hnil]
      decide
    rw [hasks, hnil]
    rfl

/-- What the client does in its loop. -/
theorem Client.after_cases (h : c.after call = some c') :
    (∃ i, c = .sending i ∧
      (call = .send serverAddr (message i) ∨ call = .sendFail serverAddr (message i)) ∧
      c' = if i % 2 = 1 then .receiving i else .sending (i + 1)) ∨
    ∃ i, c = .receiving i ∧ ((∃ source payload, call = .recv source payload) ∨ call = .recvFail) ∧
      c' = .sending (i + 1) := by
  unfold Client.after at h
  split at h
  · rename_i i target payload
    obtain ⟨⟨rfl, rfl⟩, hafter⟩ := Option.ite_none_right_eq_some.1 h
    cases hafter
    exact .inl ⟨i, rfl, .inl rfl, Client.afterSend_eq _ _⟩
  · rename_i i target payload
    obtain ⟨⟨rfl, rfl⟩, hafter⟩ := Option.ite_none_right_eq_some.1 h
    cases hafter
    exact .inl ⟨i, rfl, .inr rfl, Client.afterSend_eq _ _⟩
  · cases h
    exact .inr ⟨_, rfl, .inl ⟨_, _, rfl⟩, Client.afterRecv_eq _ _⟩
  · cases h
    exact .inr ⟨_, rfl, .inr rfl, Client.afterRecv_eq _ _⟩
  · cases h

/-- What the server does in its loop. -/
theorem Server.after_cases (h : s.after call = some s') :
    (∃ source payload, s = .receiving ∧ call = .recv source payload ∧
      s' = if asks payload then .answering source else .receiving) ∨
    (s = .receiving ∧ call = .recvFail ∧ s' = .exited) ∨
    (∃ sender, s = .answering sender ∧ call = .send sender (bytesOf "pong") ∧ s' = .receiving) ∨
    ∃ sender, s = .answering sender ∧ call = .sendFail sender (bytesOf "pong") ∧ s' = .exited := by
  unfold Server.after at h
  split at h
  · cases h
    exact .inl ⟨_, _, rfl, rfl, Server.afterRecv_eq _ _⟩
  · cases h
    exact .inr (.inl ⟨rfl, rfl, rfl⟩)
  · rename_i sender target payload
    obtain ⟨⟨rfl, rfl⟩, hafter⟩ := Option.ite_none_right_eq_some.1 h
    cases hafter
    exact .inr (.inr (.inl ⟨target, rfl, rfl, rfl⟩))
  · rename_i sender target payload
    obtain ⟨⟨rfl, rfl⟩, hafter⟩ := Option.ite_none_right_eq_some.1 h
    cases hafter
    exact .inr (.inr (.inr ⟨target, rfl, rfl, rfl⟩))
  · cases h

/-! ## What they refine -/

/-- What the server is about to do. -/
def duty : Party → Option (Duty Address)
  | .server .receiving => some .receiving
  | .server (.answering sender) => some (.answering sender)
  | .server .exited => some .stopped
  | _ => none

/-- The client is in `recvfrom`. -/
def waits : Party → Bool
  | .client (.receiving _) => true
  | _ => false

theorem serves (a : Address) : Serves (system.Does a) asks duty where
  step := by
    intro p call p' r hdoes hduty
    cases p with
    | client c => cases hduty
    | other => cases hduty
    | server s =>
      obtain ⟨s', hafter, rfl⟩ := Option.map_eq_some_iff.1 (show Option.map _ _ = _ from hdoes)
      rcases Server.after_cases hafter with ⟨source, payload, rfl, rfl, rfl⟩ | ⟨rfl, rfl, rfl⟩ |
        ⟨sender, rfl, rfl, rfl⟩ | ⟨sender, rfl, rfl, rfl⟩
      · obtain rfl := Option.some.inj hduty
        refine ⟨_, ?_, .recv source payload⟩
        split <;> rfl
      · obtain rfl := Option.some.inj hduty
        exact ⟨_, rfl, .recvFail (.inr rfl)⟩
      · obtain rfl := Option.some.inj hduty
        exact ⟨_, rfl, .send _ _⟩
      · obtain rfl := Option.some.inj hduty
        exact ⟨_, rfl, .sendFail _ _ (.inr rfl)⟩
  recv := by
    rintro (c | (_ | sender | _) | _) hduty source payload <;> cases hduty
    exact ⟨_, rfl⟩
  send := by
    rintro (c | (_ | sender | _) | _) b hduty <;> cases hduty
    exact ⟨bytesOf "pong", .server .receiving, by
      simp [system, Party.after, Server.after, Server.afterSend]⟩

theorem awaits (a : Address) : Awaits (system.Does a) (waits · = true) where
  call := by
    rintro ((i | i | _) | s | _) call p' hwaits hdoes <;> cases hwaits
    obtain ⟨c', hafter, -⟩ := Option.map_eq_some_iff.1 (show Option.map _ _ = _ from hdoes)
    rcases Client.after_cases hafter with ⟨_, hi, -⟩ | ⟨_, -, hcall, -⟩
    · cases hi
    · exact hcall
  recv := by
    rintro ((i | i | _) | s | _) hwaits source payload <;> cases hwaits
    exact ⟨.client (.sending (i + 1)),
      congrArg (fun c => some (Party.client c)) (Client.afterRecv_eq _ _), Bool.noConfusion⟩

theorem reach_eq (target : Address) : system.reach target = {target} := rfl

theorem clientAddr_ne : clientAddr ≠ serverAddr := by decide

end LinuxNet.UdpPing
