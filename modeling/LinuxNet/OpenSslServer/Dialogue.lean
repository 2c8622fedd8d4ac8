-- SUMMARY: The interactive TLS client and the server, which serves others as well: they take turns until a request comes in pieces.
import LinuxNet.OpenSslServer.Reported
import LinuxNet.PollServer.Dialogue

/-! # The TLS client and the server

`run_client` is one of the clients of the server. It reads its requests as the client of
the poll server does. The others do what they like. On the session of the client the
network breaks nothing, and its calls fail only where the server has freed the session. -/

namespace LinuxNet.OpenSslServer

open Tls (Conn Record)
open PollServer (fgets requestOf isLast serverTime)

/-- Where `run_client` is: before its session, in `fgets`, in SSL_write, in SSL_read, or
behind its loop. -/
inductive ClientPc
  | connecting
  | prompting
  | writing (request : List UInt8)
  | reading (request : List UInt8)
  | finished
  deriving DecidableEq

/-- The server with its connections, the client, and the responses on their way to it. -/
structure Dialogue where
  world : World
  stdin : List UInt8
  client : ClientPc
  responses : List (List UInt8)

/-- What happens next. SSL_write makes a record where it succeeds, and `time` is what the
server takes the time to be. -/
inductive Act
  | type (bytes : List UInt8)
  | connect
  | prompt
  | write (record : Option Record)
  | read (success : Bool)
  | server (l : Label) (time : Nat)

namespace Dialogue

/-- What the others and the network may do: only the client writes on its session, and
only the client closes it, behind its loop. -/
def Allows (x : Session) (d : Dialogue) : Label → Prop
  | .write y _ => y ≠ x
  | .close y => y = x → d.client = .finished ∧ (d.world.conn x).closed = false
  | .reset y => y ≠ x
  | _ => True

instance (x : Session) (d : Dialogue) (l : Label) : Decidable (d.Allows x l) := by
  unfold Allows
  split <;> infer_instance

end Dialogue

/-- A step of the user, of the client with its session `x`, or of anybody else. -/
def dialogueStep (x : Session) (d : Dialogue) : Act → Option Dialogue
  | .type bytes => some { d with stdin := d.stdin ++ bytes }
  | .connect =>
    if d.client = .connecting ∧ d.world.IsClient x then some { d with client := .prompting }
    else none
  | .prompt =>
    if d.client = .prompting then
      (fgets d.stdin).map fun (buffer, rest) =>
        let request := requestOf buffer
        { d with
          stdin := rest
          client := if isLast request then .finished else .writing request }
    else none
  | .write (some r) =>
    match d.client with
    | .writing request =>
      if r.payload = request ∧ request ≠ [] then
        -- what is written to a session that has been freed goes nowhere
        some { d with
          world := (step d.world (.write x r)).getD d.world
          client := .reading request }
      else none
    | _ => none
  | .write none =>
    match d.client with
    | .writing request =>
      if request = [] ∨ x ∉ d.world.server.sessions.live then
        some { d with client := .prompting }
      else none
    | _ => none
  | .read true =>
    match d.client, d.responses with
    | .reading _, _ :: rest => some { d with client := .prompting, responses := rest }
    | _, _ => none
  | .read false =>
    match d.client with
    | .reading _ =>
      if x ∉ d.world.server.sessions.live then some { d with client := .prompting } else none
    | _ => none
  | .server l time =>
    if d.Allows x l then
      (step d.world l).map fun world =>
        { d with
          world := world
          responses := d.responses ++
            ((d.world.written world).filter (· = x)).map fun _ => serverTime time }
    else none

def DialogueStep (x : Session) (d : Dialogue) (a : Act) (d' : Dialogue) : Prop :=
  dialogueStep x d a = some d'

/-- The server has started, and the client is about to connect. -/
def connecting (sockServer : Nat) (openFds : Finset Int) : Dialogue :=
  ⟨start sockServer openFds, [], .connecting, []⟩

/-! ## Turns -/

/-- What is seen of a session: a request that is written, one that the server prints and
its response, a response that the client prints, the end of the client, and that the
server frees the session. -/
inductive Event
  | asked (request : List UInt8)
  | answered (request response : List UInt8)
  | told (response : List UInt8)
  | left
  | dropped
  deriving DecidableEq

/-- Whose turn it is. A session may end with a request lost. -/
inductive Turn
  | idle
  | asked (request : List UInt8)
  | answered (response : List UInt8)
  | left
  | ended (lost : Option (List UInt8))
  deriving DecidableEq

/-- The two take turns. The session ends when the client has left, or instead of an
answer. -/
def Turn.take : Turn → Event → Option Turn
  | .idle, .asked request => if request ≠ [] then some (.asked request) else none
  | .asked request, .answered request' response =>
    if request' = request then some (.answered response) else none
  | .answered response, .told response' => if response' = response then some .idle else none
  | .idle, .left => some .left
  | .asked request, .dropped => some (.ended (some request))
  | .left, .dropped => some (.ended none)
  | _, _ => none

def Take (a : Turn) (e : Event) (b : Turn) : Prop := a.take e = some b

/-! ## What has been said -/

namespace Event

/-- The requests that the client has written. -/
def requests (es : List Event) : List (List UInt8) :=
  es.filterMap fun
    | .asked request => some request
    | _ => none

/-- The requests that the server has printed, and the responses to them. -/
def exchanges (es : List Event) : List (List UInt8 × List UInt8) :=
  es.filterMap fun
    | .answered request response => some (request, response)
    | _ => none

/-- The responses that the client has printed. -/
def responses (es : List Event) : List (List UInt8) :=
  es.filterMap fun
    | .told response => some response
    | _ => none

end Event

/-- The request that has no answer. -/
def Turn.unanswered : Turn → List (List UInt8)
  | .asked request => [request]
  | .ended (some request) => [request]
  | _ => []

/-- The response that has not been read. -/
def Turn.unread : Turn → List (List UInt8)
  | .answered response => [response]
  | _ => []

theorem Take.said {a b : Turn} {e : Event} (h : Take a e b) :
    a.unanswered ++ Event.requests [e] = (Event.exchanges [e]).map Prod.fst ++ b.unanswered ∧
      a.unread ++ (Event.exchanges [e]).map Prod.snd = Event.responses [e] ++ b.unread := by
  unfold Take Turn.take at h
  split at h
  · obtain ⟨-, rfl⟩ := Option.ite_some_none_eq_some.1 h
    exact ⟨rfl, rfl⟩
  · obtain ⟨hsame, rfl⟩ := Option.ite_some_none_eq_some.1 h
    subst hsame
    exact ⟨rfl, rfl⟩
  · obtain ⟨hsame, rfl⟩ := Option.ite_some_none_eq_some.1 h
    subst hsame
    exact ⟨rfl, rfl⟩
  · obtain rfl := Option.some.inj h
    exact ⟨rfl, rfl⟩
  · obtain rfl := Option.some.inj h
    exact ⟨rfl, rfl⟩
  · obtain rfl := Option.some.inj h
    exact ⟨rfl, rfl⟩
  · cases h

/-- Each request but the last has been answered, and each response but the last been read,
in the order that they were written in. -/
theorem take_said {es : List Event} {a : Turn} (h : Run Take .idle es a) :
    Event.requests es = (Event.exchanges es).map Prod.fst ++ a.unanswered ∧
      (Event.exchanges es).map Prod.snd = Event.responses es ++ a.unread := by
  induction h with
  | nil => exact ⟨rfl, rfl⟩
  | @snoc a b es e _ htake ih =>
    obtain ⟨hrequests, hresponses⟩ := ih
    obtain ⟨hrequest, hresponse⟩ := htake.said
    simp only [Event.requests, Event.exchanges, Event.responses] at *
    constructor
    · rw [List.filterMap_append, List.filterMap_append, hrequests, List.append_assoc, hrequest,
        List.map_append, List.append_assoc]
    · rw [List.filterMap_append, List.filterMap_append, List.map_append, hresponses,
        List.append_assoc, hresponse, List.append_assoc]

/-- What a step shows on the session `x`. The server prints the string in its buffer. -/
def events (x : Session) (d : Dialogue) : Act → List Event
  | .write (some _) =>
    match d.client with
    | .writing request => if x ∈ d.world.server.sessions.live then [.asked request] else []
    | _ => []
  | .read true => (d.responses.head?.map Event.told).toList
  | .server (.close y) _ => if y = x then [.left] else []
  | .server (.visit _ _) time =>
    if d.world.reading = some x then
      if disconnects ((d.world.conn x).read messageSize) then [.dropped]
      else [.answered (cString (request (d.world.conn x))) (serverTime time)]
    else []
  | _ => []

variable {d d' : Dialogue} {w w' : World} {l : Label} {act : Act} {acts : List Act} {a b : Turn}
  {x : Session} {r : Record} {n time : Nat} {stdin buffer rest response : List UInt8}
  {sockServer : Nat} {openFds : Finset Int}

/-! ## Requests -/

/-- A request that the client sends. It fits into the buffer of the server, which does not
take it for a request to quit. -/
structure Plain (request : List UInt8) : Prop where
  length : request.length < messageSize
  zero : 0 ∉ request
  stays : isLast request = false

theorem requestOf_length_lt (h : fgets stdin = some (buffer, rest)) :
    (requestOf buffer).length < messageSize := by
  have hle : (requestOf buffer).length ≤ buffer.length :=
    ((List.takeWhile_prefix _).trans (List.takeWhile_prefix _)).length_le
  refine hle.trans_lt ?_
  have hfirst : (stdin.take (PollServer.messageSize - 1)).length < messageSize :=
    (List.length_take_le _ _).trans_lt (by decide)
  unfold fgets at h
  dsimp only at h
  split at h
  · rename_i hlt
    obtain ⟨rfl, -⟩ := Prod.ext_iff.1 (Option.some.inj h)
    dsimp only
    rw [List.length_append, List.length_singleton]
    omega
  · split at h
    · obtain ⟨rfl, -⟩ := Prod.ext_iff.1 (Option.some.inj h)
      exact hfirst
    · cases h

theorem plain_requestOf (h : fgets stdin = some (buffer, rest))
    (hstays : isLast (requestOf buffer) = false) : Plain (requestOf buffer) := by
  refine ⟨requestOf_length_lt h, fun hmem => ?_, hstays⟩
  exact zero_not_mem_cString ((List.takeWhile_prefix _).subset hmem)

theorem Plain.not_isQuit {request : List UInt8} (h : Plain request) : isQuit request = false := by
  have hstays := h.stays
  unfold isLast at hstays
  simp only [Bool.or_eq_false_iff] at hstays
  rw [isQuit, cString_eq_self h.zero, hstays.1.1, hstays.1.2]
  rfl

/-! ## The connection of the client -/

/-- A connection with one record, of which `n` bytes have arrived. -/
def carrying (r : Record) (n : Nat) : Conn := ⟨[r], 0, n, [], false, false⟩

theorem carrying_incoming (hne : r.payload ≠ []) :
    (carrying r n).incoming = if r.wire ≤ n then r.payload else [] := by
  by_cases hwhole : r.wire ≤ n
  · simp [carrying, Conn.incoming, Tls.decrypt, hwhole, hne]
  · simp [carrying, Conn.incoming, Tls.decrypt, hwhole]

theorem carrying_afterRead (hne : r.payload ≠ []) (hlength : r.payload.length ≤ messageSize) :
    (carrying r r.wire).afterRead messageSize = .new := by
  simp [carrying, Conn.afterRead, Tls.decrypt, hne, hlength, Conn.new]

theorem Plain.disconnects_iff (h : Plain r.payload) (hne : r.payload ≠ []) :
    disconnects ((carrying r n).read messageSize) = true ↔ n < r.wire := by
  rw [OpenSslServer.disconnects_iff, GivesUp, carrying_incoming hne]
  by_cases hwhole : r.wire ≤ n
  · simp [hwhole, hne, h.not_isQuit]
  · simpa [hwhole] using Nat.lt_of_not_le hwhole

theorem Plain.request_eq (h : Plain r.payload) (hne : r.payload ≠ []) :
    cString (request (carrying r r.wire)) = r.payload := by
  rw [request, cString_filled, carrying_incoming hne, if_pos le_rfl,
    List.take_of_length_le h.length.le, cString_eq_self h.zero]

/-! ## Where the two are -/

/-- The turn of a dialogue. After the session has been freed, nothing is on its way to
the client. -/
inductive Dialogue.At (x : Session) (d : Dialogue) : Turn → Prop
  | connecting (hpc : d.client = .connecting) (hconn : d.world.conn x = .new)
      (hnone : d.responses = []) : At x d .idle
  | idle (hlive : x ∈ d.world.server.sessions.live)
      (hpc : d.client = .prompting ∨ (∃ request, d.client = .writing request ∧ Plain request) ∨
        d.client = .finished)
      (hconn : d.world.conn x = .new) (hnone : d.responses = []) : At x d .idle
  | asked {r : Record} {n : Nat} (hlive : x ∈ d.world.server.sessions.live)
      (hpc : d.client = .reading r.payload)
      (hplain : Plain r.payload) (hne : r.payload ≠ []) (hn : n ≤ r.wire)
      (hconn : d.world.conn x = carrying r n) (hnone : d.responses = []) : At x d (.asked r.payload)
  | answered {request response : List UInt8} (hlive : x ∈ d.world.server.sessions.live)
      (hpc : d.client = .reading request) (hconn : d.world.conn x = .new)
      (hone : d.responses = [response]) : At x d (.answered response)
  | left (hlive : x ∈ d.world.server.sessions.live) (hpc : d.client = .finished)
      (hconn : d.world.conn x = Conn.new.close) (hnone : d.responses = []) : At x d .left
  | ended {lost : Option (List UInt8)} (hgranted : x ∈ d.world.server.sessions.granted)
      (hgone : x ∉ d.world.server.sessions.live) (hpc : d.client ≠ .connecting)
      (hnone : d.responses = []) : At x d (.ended lost)

/-! ## The steps of the client -/

namespace Dialogue.At

/-- Between its calls, the client has nothing on its way. -/
theorem between (hat : d.At x a)
    (hpc : d.client = .prompting ∨ ∃ request, d.client = .writing request) :
    d.responses = [] ∧
      (a = .idle ∧ x ∈ d.world.server.sessions.live ∧ d.world.conn x = .new ∧
          (∀ request, d.client = .writing request → Plain request) ∨
        (∃ lost, a = .ended lost) ∧ x ∈ d.world.server.sessions.granted ∧
          x ∉ d.world.server.sessions.live) := by
  have hother : ∀ pc, d.client = pc → pc ≠ .prompting → (∀ request, pc ≠ .writing request) →
      False := by
    rintro pc rfl hprompting hwriting
    exact hpc.elim hprompting fun ⟨request, h⟩ => hwriting request h
  cases hat with
  | connecting h => exact (hother _ h nofun nofun).elim
  | idle hlive h hconn hnone =>
    refine ⟨hnone, .inl ⟨rfl, hlive, hconn, fun request hwriting => ?_⟩⟩
    rw [hwriting] at h
    rcases h with h | ⟨_, h, hplain⟩ | h
    · cases h
    · cases h
      exact hplain
    · cases h
  | asked _ h => exact (hother _ h nofun nofun).elim
  | answered _ h => exact (hother _ h nofun nofun).elim
  | left _ h => exact (hother _ h nofun nofun).elim
  | ended hgranted hgone _ hnone => exact ⟨hnone, .inr ⟨⟨_, rfl⟩, hgranted, hgone⟩⟩

/-- In SSL_read, the client has a request or a response on its way, unless the session
has been freed. -/
theorem reading {request : List UInt8} (hat : d.At x a) (hpc : d.client = .reading request) :
    (a = .asked request ∧ x ∈ d.world.server.sessions.live ∧ d.responses = [] ∧
        Plain request ∧ request ≠ [] ∧ ∃ r n, r.payload = request ∧ n ≤ r.wire ∧
          d.world.conn x = carrying r n) ∨
      (∃ response, a = .answered response ∧ x ∈ d.world.server.sessions.live ∧
        d.world.conn x = .new ∧ d.responses = [response]) ∨
      (∃ lost, a = .ended lost) ∧ x ∈ d.world.server.sessions.granted ∧
        x ∉ d.world.server.sessions.live ∧ d.responses = [] := by
  cases hat with
  | connecting h => exact nomatch hpc.symm.trans h
  | idle _ h =>
    rw [hpc] at h
    rcases h with h | ⟨_, h, _⟩ | h <;> cases h
  | @asked r n hlive h hplain hne hn hconn hnone =>
    obtain rfl := ClientPc.reading.inj (hpc.symm.trans h)
    exact .inl ⟨rfl, hlive, hnone, hplain, hne, r, n, rfl, hn, hconn⟩
  | answered hlive _ hconn hone => exact .inr (.inl ⟨_, rfl, hlive, hconn, hone⟩)
  | left _ h => exact nomatch hpc.symm.trans h
  | ended hgranted hgone _ hnone => exact .inr (.inr ⟨⟨_, rfl⟩, hgranted, hgone, hnone⟩)

theorem type (bytes : List UInt8) (hat : d.At x a) :
    At x { d with stdin := d.stdin ++ bytes } a := by
  cases hat with
  | connecting hpc hconn hnone => exact .connecting hpc hconn hnone
  | idle hlive hpc hconn hnone => exact .idle hlive hpc hconn hnone
  | asked hlive hpc hplain hne hn hconn hnone => exact .asked hlive hpc hplain hne hn hconn hnone
  | answered hlive hpc hconn hone => exact .answered hlive hpc hconn hone
  | left hlive hpc hconn hnone => exact .left hlive hpc hconn hnone
  | ended hgranted hgone hpc hnone => exact .ended hgranted hgone hpc hnone

theorem connect (hat : d.At x a) (h : dialogueStep x d .connect = some d') : d'.At x a := by
  obtain ⟨⟨hpc, hclient⟩, rfl⟩ := Option.ite_some_none_eq_some.1 h
  cases hat with
  | connecting _ hconn hnone => exact .idle hclient.1 (.inl rfl) hconn hnone
  | idle _ h =>
    rw [hpc] at h
    rcases h with h | ⟨_, h, _⟩ | h <;> cases h
  | asked _ h => exact nomatch hpc.symm.trans h
  | answered _ h => exact nomatch hpc.symm.trans h
  | left _ h => exact nomatch hpc.symm.trans h
  | ended _ _ h => exact absurd hpc h

theorem prompt (hat : d.At x a) (h : dialogueStep x d .prompt = some d') : d'.At x a := by
  obtain ⟨hpc, h⟩ := Option.ite_none_right_eq_some.1 h
  obtain ⟨⟨buffer, rest⟩, hread, rfl⟩ := Option.map_eq_some_iff.1 h
  obtain ⟨hnone, ⟨rfl, hlive, hconn, -⟩ | ⟨⟨lost, rfl⟩, hgranted, hgone⟩⟩ := hat.between (.inl hpc)
  · refine .idle hlive ?_ hconn hnone
    cases hlast : isLast (requestOf buffer) with
    | true => exact .inr (.inr (if_pos hlast))
    | false => exact .inr (.inl ⟨_, if_neg (by simp [hlast]), plain_requestOf hread hlast⟩)
  · refine .ended hgranted hgone ?_ hnone
    dsimp only
    split <;> exact nofun

/-- A request that is not empty goes to the server, unless the session has been freed. -/
theorem write (hfd : x.fd ≠ d.world.server.sockServer) (hat : d.At x a)
    (h : dialogueStep x d (.write (some r)) = some d') :
    ∃ b, Run Take a (events x d (.write (some r))) b ∧ d'.At x b := by
  unfold dialogueStep at h
  dsimp only at h
  split at h
  · rename_i request hpc
    obtain ⟨⟨hpayload, hne⟩, rfl⟩ := Option.ite_some_none_eq_some.1 h
    subst hpayload
    obtain ⟨hnone, ⟨rfl, hlive, hconn, hplain⟩ | ⟨⟨lost, rfl⟩, hgranted, hgone⟩⟩ :=
      hat.between (.inr ⟨_, hpc⟩)
    · have hstep : step d.world (.write x r) = some (d.world.setConn x (carrying r 0)) := by
        have hopen : d.world.IsClient x ∧ (d.world.conn x).Alive := by
          rw [hconn]
          exact ⟨⟨hlive, hfd⟩, rfl, rfl⟩
        exact (if_pos hopen).trans (by rw [hconn]; rfl)
      refine ⟨.asked r.payload, ?_, ?_⟩
      · simp only [events, hpc, if_pos hlive]
        exact .single (if_pos hne)
      · rw [hstep]
        refine .asked hlive rfl (hplain _ hpc) hne (Nat.zero_le _) ?_ hnone
        exact Function.update_self ..
    · have hstep : step d.world (.write x r) = none := if_neg fun hor => hgone hor.1.1
      refine ⟨.ended lost, ?_, ?_⟩
      · simp only [events, hpc, if_neg hgone]
        exact .nil
      · rw [hstep]
        exact .ended hgranted hgone nofun hnone
  · cases h

theorem writeFails (hat : d.At x a) (h : dialogueStep x d (.write none) = some d') :
    d'.At x a := by
  unfold dialogueStep at h
  dsimp only at h
  split at h
  · rename_i request hpc
    obtain ⟨-, rfl⟩ := Option.ite_some_none_eq_some.1 h
    obtain ⟨hnone, ⟨rfl, hlive, hconn, -⟩ | ⟨⟨lost, rfl⟩, hgranted, hgone⟩⟩ :=
      hat.between (.inr ⟨_, hpc⟩)
    · exact .idle hlive (.inl rfl) hconn hnone
    · exact .ended hgranted hgone nofun hnone
  · cases h

theorem read (hat : d.At x a) (h : dialogueStep x d (.read true) = some d') :
    ∃ b, Run Take a (events x d (.read true)) b ∧ d'.At x b := by
  unfold dialogueStep at h
  dsimp only at h
  split at h
  · rename_i request response rest hpc hresponses
    obtain rfl := Option.some.inj h
    rcases hat.reading hpc with ⟨-, -, hnone, -⟩ | ⟨first, rfl, hlive, hconn, hone⟩ |
      ⟨-, -, -, hnone⟩
    · rw [hresponses] at hnone
      cases hnone
    · rw [hresponses] at hone
      obtain ⟨rfl, rfl⟩ := List.cons.inj hone
      refine ⟨.idle, ?_, .idle hlive (.inl rfl) hconn rfl⟩
      simp only [events, hresponses]
      exact .single (if_pos rfl)
    · rw [hresponses] at hnone
      cases hnone
  · cases h

theorem readFails (hat : d.At x a) (h : dialogueStep x d (.read false) = some d') :
    d'.At x a := by
  unfold dialogueStep at h
  dsimp only at h
  split at h
  · rename_i request hpc
    obtain ⟨hgone, rfl⟩ := Option.ite_some_none_eq_some.1 h
    rcases hat.reading hpc with ⟨-, hlive, -⟩ | ⟨-, -, hlive, -⟩ | ⟨⟨lost, rfl⟩, hgranted, -, hnone⟩
    · exact absurd hlive hgone
    · exact absurd hlive hgone
    · exact .ended hgranted hgone nofun hnone
  · cases h

/-! ## The steps of the others -/

/-- What leaves the session as it is. -/
theorem keep (hat : d.At x a) (hclient : d'.client = d.client)
    (hresponses : d'.responses = d.responses)
    (hconn : x ∈ d.world.server.sessions.live ∨ d.world.conn x = .new →
      d'.world.conn x = d.world.conn x)
    (hlive : x ∈ d.world.server.sessions.live → x ∈ d'.world.server.sessions.live)
    (hgone : x ∈ d.world.server.sessions.granted → x ∉ d.world.server.sessions.live →
      x ∈ d'.world.server.sessions.granted ∧ x ∉ d'.world.server.sessions.live) : d'.At x a := by
  cases hat with
  | connecting hpc hnew hnone =>
    exact .connecting (hclient.trans hpc) ((hconn (.inr hnew)).trans hnew) (hresponses.trans hnone)
  | idle hin hpc hnew hnone =>
    exact .idle (hlive hin) (hclient.symm ▸ hpc) ((hconn (.inl hin)).trans hnew)
      (hresponses.trans hnone)
  | asked hin hpc hplain hne hn hcarry hnone =>
    exact .asked (hlive hin) (hclient.trans hpc) hplain hne hn ((hconn (.inl hin)).trans hcarry)
      (hresponses.trans hnone)
  | answered hin hpc hnew hone =>
    exact .answered (hlive hin) (hclient.trans hpc) ((hconn (.inl hin)).trans hnew)
      (hresponses.trans hone)
  | left hin hpc hclosed hnone =>
    exact .left (hlive hin) (hclient.trans hpc) ((hconn (.inl hin)).trans hclosed)
      (hresponses.trans hnone)
  | ended hgranted hout hpc hnone =>
    obtain ⟨hgranted', hout'⟩ := hgone hgranted hout
    exact .ended hgranted' hout' (hclient.symm ▸ hpc) (hresponses.trans hnone)

/-- A part of the request of the client arrives. -/
theorem arrive (hat : d.At x a) (hlive : x ∈ d.world.server.sessions.live)
    (hn : n ≤ (d.world.conn x).inFlight) :
    At x { d with world := d.world.setConn x ((d.world.conn x).arrive n) } a := by
  have hset : ∀ c, (d.world.setConn x c).conn x = c := fun c => Function.update_self ..
  have hquiet : ∀ c : Conn, d.world.conn x = c → c.inFlight = 0 →
      (d.world.setConn x ((d.world.conn x).arrive n)).conn x = c := by
    rintro c rfl hzero
    obtain rfl : n = 0 := Nat.le_zero.1 (hn.trans hzero.le)
    exact hset _
  cases hat with
  | connecting hpc hconn hnone => exact .connecting hpc (hquiet _ hconn rfl) hnone
  | idle _ hpc hconn hnone => exact .idle hlive hpc (hquiet _ hconn rfl) hnone
  | @asked r k _ hpc hplain hne hk hconn hnone =>
    have hflight : (carrying r k).inFlight = r.wire - k := by simp [carrying, Conn.inFlight]
    rw [hconn, hflight] at hn
    refine .asked hlive hpc hplain hne (by omega : k + n ≤ r.wire) ?_ hnone
    rw [hset, hconn]
    rfl
  | answered _ hpc hconn hone => exact .answered hlive hpc (hquiet _ hconn rfl) hone
  | left _ hpc hconn hnone => exact .left hlive hpc (hquiet _ hconn rfl) hnone
  | ended _ hgone => exact absurd hlive hgone

/-- The end of the client arrives. -/
theorem close (hat : d.At x a) (hlive : x ∈ d.world.server.sessions.live)
    (hpc : d.client = .finished) (hopen : (d.world.conn x).closed = false) :
    a = .idle ∧ At x { d with world := d.world.setConn x (d.world.conn x).close } .left := by
  cases hat with
  | connecting h => exact nomatch hpc.symm.trans h
  | idle _ _ hconn hnone =>
    refine ⟨rfl, .left hlive hpc ?_ hnone⟩
    rw [hconn]
    exact Function.update_self ..
  | asked _ h => exact nomatch hpc.symm.trans h
  | answered _ h => exact nomatch hpc.symm.trans h
  | left _ _ hconn =>
    rw [hconn] at hopen
    cases hopen
  | ended _ hgone => exact absurd hlive hgone

end Dialogue.At

/-- The responses that a visit writes to the client. -/
theorem filter_answered (w : World) (x : Session) : w.answered.filter (· = x) =
    if w.reading = some x ∧ disconnects ((w.conn x).read messageSize) = false then [x] else [] := by
  unfold World.answered
  cases hread : w.reading with
  | none => simp
  | some y =>
    by_cases hy : y = x
    · subst hy
      cases hdrop : disconnects ((w.conn y).read messageSize) <;> simp [hdrop]
    · cases hdrop : disconnects ((w.conn y).read messageSize) <;> simp [hdrop, hy]

/-- A visit that gives the client up frees its session, and writes nothing to it. -/
theorem World.Valid.visit_drops {accept : Option Nat} {sslAccept : Bool} (hw : w.Valid)
    (hread : w.reading = some x) (hstep : Step w (.visit accept sslAccept) w')
    (hdrop : disconnects ((w.conn x).read messageSize) = true) :
    x ∈ w'.server.sessions.granted ∧ x ∉ w'.server.sessions.live ∧
      w.answered.filter (· = x) = [] := by
  have hlive := hw.reading_mem hread
  have hgone := (hw.not_live_iff hstep hlive).2 ⟨rfl, hread, disconnects_iff.1 hdrop⟩
  have hgranted : x ∈ w.server.sessions.granted := by
    rw [hw.paired.lease.balance]
    exact Multiset.mem_add.2 (.inl hlive)
  refine ⟨(hw.granted_step hstep hgranted).1, hgone, ?_⟩
  rw [filter_answered, hdrop]
  simp

/-- Any other visit of the client writes to its session. -/
theorem World.Valid.visit_keeps {accept : Option Nat} {sslAccept : Bool} (hw : w.Valid)
    (hread : w.reading = some x) (hstep : Step w (.visit accept sslAccept) w')
    (hkeep : disconnects ((w.conn x).read messageSize) = false) :
    x ∈ w'.server.sessions.live ∧ w.answered.filter (· = x) = [x] := by
  refine ⟨?_, (filter_answered w x).trans (if_pos ⟨hread, hkeep⟩)⟩
  by_contra hgone
  have hgives := ((hw.not_live_iff hstep (hw.reading_mem hread)).1 hgone).2.2
  exact Bool.false_ne_true (hkeep.symm.trans (disconnects_iff.2 hgives))

/-- A step of the server or of somebody else. -/
theorem dialogueStep_server (hw : d.world.InOrder)
    (h : dialogueStep x d (.server l time) = some d') : d.Allows x l ∧
      ∃ w, Step d.world l w ∧ d' = { d with
        world := w
        responses := d.responses ++ ((if l.isVisit then d.world.answered else []).filter
          (· = x)).map fun _ => serverTime time } := by
  obtain ⟨hallows, h⟩ := Option.ite_none_right_eq_some.1 h
  obtain ⟨w, hstep, rfl⟩ := Option.map_eq_some_iff.1 h
  exact ⟨hallows, w, hstep, by rw [(hw.valid.step_writes hstep).2]⟩

/-- The visit of another client, or of the listening socket. -/
theorem Dialogue.At.other {accept : Option Nat} {sslAccept : Bool} (hw : d.world.InOrder)
    (hread : d.world.reading ≠ some x) (hat : d.At x a)
    (hstep : Step d.world (.visit accept sslAccept) w) : At x { d with world := w } a := by
  have hconn : w.conn = d.world.afterVisit := (hw.valid.visits hstep rfl).1
  refine hat.keep rfl rfl (fun hor => ?_) (fun hlive => ?_) fun hgranted hgone =>
    (hw.valid.granted_step hstep hgranted).imp_right fun hkeep => hkeep hgone
  · dsimp only
    rw [hconn, World.afterVisit, if_neg hread]
    split
    · rfl
    · exact (hor.resolve_left ‹_›).symm
  · by_contra hgone
    exact hread ((hw.valid.not_live_iff hstep hlive).1 hgone).2.1

/-- The visit of the client. It finds a request, or the client has left. -/
theorem Dialogue.At.visit {accept : Option Nat} {sslAccept : Bool} (hw : d.world.InOrder)
    (hread : d.world.reading = some x) (hat : d.At x a)
    (hstep : Step d.world (.visit accept sslAccept) w) :
    ∃ b, Run Take a (events x d (.server (.visit accept sslAccept) time)) b ∧
      At x { d with
        world := w
        responses := d.responses ++ (d.world.answered.filter (· = x)).map fun _ =>
          serverTime time } b := by
  have hlive := hw.valid.reading_mem hread
  have hreadable := hw.valid.readable hw.reported hread
  have hconn : w.conn x = (d.world.conn x).afterRead messageSize := by
    rw [(hw.valid.visits hstep rfl).1, World.afterVisit, if_pos hlive, if_pos hread]
  have hidle : d.world.conn x ≠ .new := fun hnew => by
    rw [hnew] at hreadable
    exact absurd hreadable (by decide)
  rw [events, if_pos hread]
  cases hat with
  | connecting _ hnew => exact absurd hnew hidle
  | idle _ _ hnew => exact absurd hnew hidle
  | @asked r n _ hpc hplain hne hn hcarry hnone =>
    by_cases hcut : n < r.wire
    · have hdrop : disconnects ((d.world.conn x).read messageSize) = true := by
        rw [hcarry]
        exact (hplain.disconnects_iff hne).2 hcut
      obtain ⟨hgranted, hgone, hfilter⟩ := hw.valid.visit_drops hread hstep hdrop
      rw [if_pos hdrop, hfilter, hnone]
      refine ⟨.ended (some r.payload), .single rfl, .ended hgranted hgone ?_ rfl⟩
      intro h
      cases hpc.symm.trans h
    · obtain rfl : n = r.wire := by omega
      have hkeep : disconnects ((d.world.conn x).read messageSize) = false := by
        rw [hcarry]
        exact Bool.eq_false_iff.2 fun hdrop => hcut ((hplain.disconnects_iff hne).1 hdrop)
      obtain ⟨hstays, hfilter⟩ := hw.valid.visit_keeps hread hstep hkeep
      rw [if_neg (by simp [hkeep]), hcarry, hplain.request_eq hne, hfilter, hnone]
      refine ⟨.answered (serverTime time), .single (if_pos rfl), .answered hstays hpc ?_ rfl⟩
      rw [hconn, hcarry, carrying_afterRead hne hplain.length.le]
  | answered _ _ hnew => exact absurd hnew hidle
  | left _ hpc hclosed hnone =>
    have hdrop : disconnects ((d.world.conn x).read messageSize) = true := by
      rw [hclosed]
      decide
    obtain ⟨hgranted, hgone, hfilter⟩ := hw.valid.visit_drops hread hstep hdrop
    rw [if_pos hdrop, hfilter, hnone]
    refine ⟨.ended none, .single rfl, .ended hgranted hgone ?_ rfl⟩
    intro h
    cases hpc.symm.trans h
  | ended _ hgone => exact absurd hlive hgone

theorem Dialogue.At.server (hw : d.world.InOrder) (hat : d.At x a)
    (h : dialogueStep x d (.server l time) = some d') :
    ∃ b, Run Take a (events x d (.server l time)) b ∧ d'.At x b := by
  obtain ⟨hallows, w, hstep, rfl⟩ := dialogueStep_server hw h
  have hquiet : ∀ y c, y ≠ x → At x { d with world := d.world.setConn y c } a := fun y c hy =>
    hat.keep rfl rfl (fun _ => Function.update_of_ne hy.symm _ _) id fun hgranted hgone =>
      ⟨hgranted, hgone⟩
  cases l with
  | write y r =>
    obtain ⟨-, rfl⟩ := Option.ite_some_none_eq_some.1 hstep
    exact ⟨a, .nil, by simpa [Label.isVisit] using hquiet y _ hallows⟩
  | arrive y n =>
    obtain ⟨⟨hclient, hn⟩, rfl⟩ := Option.ite_some_none_eq_some.1 hstep
    refine ⟨a, .nil, ?_⟩
    by_cases hy : y = x
    · subst hy
      simpa [Label.isVisit] using hat.arrive hclient.1 hn
    · simpa [Label.isVisit] using hquiet y _ hy
  | close y =>
    obtain ⟨⟨hclient, -⟩, rfl⟩ := Option.ite_some_none_eq_some.1 hstep
    by_cases hy : y = x
    · subst hy
      obtain ⟨hpc, hopen⟩ := hallows rfl
      obtain ⟨rfl, hleft⟩ := hat.close hclient.1 hpc hopen
      rw [events, if_pos rfl]
      exact ⟨.left, .single rfl, by simpa [Label.isVisit] using hleft⟩
    · rw [events, if_neg hy]
      exact ⟨a, .nil, by simpa [Label.isVisit] using hquiet y _ hy⟩
  | reset y =>
    obtain ⟨-, rfl⟩ := Option.ite_some_none_eq_some.1 hstep
    exact ⟨a, .nil, by simpa [Label.isVisit] using hquiet y _ hallows⟩
  | poll waiting =>
    obtain ⟨-, rfl⟩ := Option.ite_some_none_eq_some.1 hstep
    have hpolled : At x { d with world := { d.world with
        server := d.world.server.poll (d.world.revents waiting)
        slot := slotFrom 0 (d.world.server.poll (d.world.revents waiting)) } } a :=
      hat.keep rfl rfl (fun _ => rfl) id fun hgranted hgone => ⟨hgranted, hgone⟩
    exact ⟨a, .nil, by simpa [Label.isVisit] using hpolled⟩
  | visit accept sslAccept =>
    by_cases hread : d.world.reading = some x
    · exact hat.visit hw hread hstep
    · have hnone : d.world.answered.filter (· = x) = [] :=
        (filter_answered d.world x).trans (if_neg fun hor => hread hor.1)
      rw [events, if_neg hread]
      exact ⟨a, .nil, by simpa [Label.isVisit, hnone] using hat.other hw hread hstep⟩

/-! ## Runs -/

/-- What a dialogue keeps, apart from the turns: the session is not that of the listening
socket. -/
structure Dialogue.InOrder (x : Session) (d : Dialogue) : Prop where
  world : d.world.InOrder
  client : x.fd ≠ d.world.server.sockServer

theorem Dialogue.InOrder.congr {w : World} (hd : d.InOrder x)
    (hworld : w = d.world ∨ ∃ l, Step d.world l w) (hw : d'.world = w) : d'.InOrder x := by
  subst hw
  rcases hworld with hsame | ⟨l, hstep⟩
  · exact ⟨hsame ▸ hd.world, hsame ▸ hd.client⟩
  · exact ⟨hd.world.step hstep, (hd.world.valid.step_writes hstep).1 ▸ hd.client⟩

theorem Dialogue.InOrder.step (hd : d.InOrder x) (h : DialogueStep x d act d') :
    d'.InOrder x := by
  unfold DialogueStep dialogueStep at h
  split at h
  · obtain rfl := Option.some.inj h
    exact hd.congr (.inl rfl) rfl
  · obtain ⟨-, rfl⟩ := Option.ite_some_none_eq_some.1 h
    exact hd.congr (.inl rfl) rfl
  · obtain ⟨-, h⟩ := Option.ite_none_right_eq_some.1 h
    obtain ⟨line, -, rfl⟩ := Option.map_eq_some_iff.1 h
    exact hd.congr (.inl rfl) rfl
  · rename_i r
    split at h
    · obtain ⟨-, rfl⟩ := Option.ite_some_none_eq_some.1 h
      refine hd.congr ?_ rfl
      cases hstep : OpenSslServer.step d.world (.write x r) with
      | none => exact .inl rfl
      | some w => exact .inr ⟨_, hstep⟩
    · cases h
  · split at h
    · obtain ⟨-, rfl⟩ := Option.ite_some_none_eq_some.1 h
      exact hd.congr (.inl rfl) rfl
    · cases h
  · split at h
    · obtain rfl := Option.some.inj h
      exact hd.congr (.inl rfl) rfl
    · cases h
  · split at h
    · obtain ⟨-, rfl⟩ := Option.ite_some_none_eq_some.1 h
      exact hd.congr (.inl rfl) rfl
    · cases h
  · obtain ⟨-, h⟩ := Option.ite_none_right_eq_some.1 h
    obtain ⟨w, hstep, rfl⟩ := Option.map_eq_some_iff.1 h
    exact hd.congr (.inr ⟨_, hstep⟩) rfl

/-- Every step is a turn, several or none. -/
theorem Dialogue.At.step (hd : d.InOrder x) (hat : d.At x a) (h : dialogueStep x d act = some d') :
    ∃ b, Run Take a (events x d act) b ∧ d'.At x b := by
  match act with
  | .type bytes =>
    obtain rfl := Option.some.inj h
    exact ⟨a, .nil, hat.type bytes⟩
  | .connect => exact ⟨a, .nil, hat.connect h⟩
  | .prompt => exact ⟨a, .nil, hat.prompt h⟩
  | .write (some r) => exact hat.write hd.client h
  | .write none => exact ⟨a, .nil, hat.writeFails h⟩
  | .read true => exact hat.read h
  | .read false => exact ⟨a, .nil, hat.readFails h⟩
  | .server l time => exact hat.server hd.world h

/-- A run from a dialogue in order takes the turns along. -/
theorem Dialogue.At.run (hd : d.InOrder x) (hat : d.At x a)
    (h : Run (DialogueStep x) d acts d') :
    ∃ b, Run Take a (Run.shown (dialogueStep x) (events x) d acts) b ∧ d'.At x b := by
  have hsim : ∀ d act d' a, d.InOrder x ∧ d.At x a → dialogueStep x d act = some d' →
      ∃ b, Run Take a (events x d act) b ∧ d'.InOrder x ∧ d'.At x b := by
    intro d act d' a hd hstep
    obtain ⟨b, hrun, hat⟩ := hd.2.step hd.1 hstep
    exact ⟨b, hrun, hd.1.step hstep, hat⟩
  obtain ⟨b, hrun, -, hat⟩ := h.simulation_shown hsim ⟨hd, hat⟩
  exact ⟨b, hrun, hat⟩

theorem connecting_inOrder (hlisten : (sockServer : Int) ∈ openFds) (hx : x.fd ≠ sockServer) :
    (connecting sockServer openFds).InOrder x ∧ (connecting sockServer openFds).At x .idle :=
  ⟨⟨World.InOrder.start hlisten, hx⟩, .connecting rfl rfl rfl⟩

/-- In every run, whatever the user types, whoever else is served, and in whatever pieces
the requests arrive, the client and the server take turns on the session. It ends when the
client has left, or while a request is in pieces, which is lost then. -/
theorem takes_turns (hlisten : (sockServer : Int) ∈ openFds) (hx : x.fd ≠ sockServer)
    (h : Run (DialogueStep x) (connecting sockServer openFds) acts d) :
    ∃ a, Run Take .idle
      (Run.shown (dialogueStep x) (events x) (connecting sockServer openFds) acts) a ∧
        d.At x a := by
  obtain ⟨hd, hat⟩ := connecting_inOrder hlisten hx
  exact hat.run hd h

/-- The client connects, and sends a request, which arrives and is answered. -/
def oneExchange : List Act :=
  [.server (.poll true) 0, .server (.visit (some 4) true) 0, .server (.visit none true) 0,
    .connect, .type [0x61, 0x0a], .prompt, .write (some smallRecord),
    .server (.arrive client 23) 0, .server (.poll false) 0, .server (.visit none true) 0,
    .server (.visit none true) 5, .read true]

theorem oneExchange_shown :
    Run.shown (dialogueStep client) (events client) (connecting 3 {3}) oneExchange =
      [.asked [0x61], .answered [0x61] (serverTime 5), .told (serverTime 5)] := by
  decide +kernel

theorem oneExchange_run : ∃ d, Run (DialogueStep client) (connecting 3 {3}) oneExchange d ∧
    d.client = .prompting ∧ client ∈ d.world.server.sessions.live := by
  have hrun : (oneExchange.foldlM (dialogueStep client) (connecting 3 {3})).map (fun d =>
      decide (d.client = .prompting ∧ client ∈ d.world.server.sessions.live)) = some true := by
    decide +kernel
  obtain ⟨d, hd, hfacts⟩ := Option.map_eq_some_iff.1 hrun
  exact ⟨d, Run.foldlM_iff.2 hd, of_decide_eq_true hfacts⟩

theorem takes_turns_exchange : ∃ (d : Dialogue) (a : Turn), d.At client a ∧ Run Take .idle
    [.asked [0x61], .answered [0x61] (serverTime 5), .told (serverTime 5)] a := by
  obtain ⟨d, hrun, -⟩ := oneExchange_run
  obtain ⟨a, htake, hat⟩ := takes_turns (by decide) (by decide) hrun
  exact ⟨d, a, hat, oneExchange_shown ▸ htake⟩

/-- The requests that the server has printed are those that the client has written, but at
most the last, and the responses that the client has printed are those to them, but at most
the last, in order. When the client prompts for a request and its session lives, nothing is
left out. -/
theorem requests_answered (hlisten : (sockServer : Int) ∈ openFds) (hx : x.fd ≠ sockServer)
    (h : Run (DialogueStep x) (connecting sockServer openFds) acts d) (es : List Event)
    (hes : es = Run.shown (dialogueStep x) (events x) (connecting sockServer openFds) acts) :
    (∃ last, last.length ≤ 1 ∧
      Event.requests es = (Event.exchanges es).map Prod.fst ++ last ∧
      (d.client = .prompting → x ∈ d.world.server.sessions.live → last = [])) ∧
    ∃ last, last.length ≤ 1 ∧
      (Event.exchanges es).map Prod.snd = Event.responses es ++ last ∧
      (d.client = .prompting → last = []) := by
  obtain ⟨hd, hat⟩ := connecting_inOrder hlisten hx
  obtain ⟨a, hrun, hat⟩ := hat.run hd h
  rw [← hes] at hrun
  obtain ⟨hrequests, hresponses⟩ := take_said hrun
  refine ⟨⟨a.unanswered, ?_, hrequests, fun hpc hlive => ?_⟩,
    a.unread, ?_, hresponses, fun hpc => ?_⟩
  · unfold Turn.unanswered
    split <;> simp
  · obtain ⟨-, ⟨rfl, -⟩ | ⟨-, -, hgone⟩⟩ := hat.between (.inl hpc)
    · rfl
    · exact absurd hlive hgone
  · unfold Turn.unread
    split <;> simp
  · obtain ⟨-, ⟨rfl, -⟩ | ⟨⟨lost, rfl⟩, -⟩⟩ := hat.between (.inl hpc)
    · rfl
    · rfl

theorem requests_answered_exchange : ∃ last : List (List UInt8), last = [] ∧
    Event.requests [.asked [0x61], .answered [0x61] (serverTime 5), .told (serverTime 5)] =
      [[0x61]] ++ last := by
  obtain ⟨d, hrun, hpc, hlive⟩ := oneExchange_run
  obtain ⟨⟨last, -, hrequests, hnone⟩, -⟩ :=
    requests_answered (by decide) (by decide) hrun _ oneExchange_shown.symm
  exact ⟨last, hnone hpc hlive, hrequests⟩

/-- The client never waits in SSL_read for something that does not come: a response is
there, or its request, which the server has not read, or the server has freed the session,
and SSL_read fails. -/
theorem reading_ends (hlisten : (sockServer : Int) ∈ openFds) (hx : x.fd ≠ sockServer)
    (h : Run (DialogueStep x) (connecting sockServer openFds) acts d) {request : List UInt8}
    (hpc : d.client = .reading request) :
    (∃ response, d.responses = [response] ∧ x ∈ d.world.server.sessions.live) ∨
      (∃ r n, r.payload = request ∧ n ≤ r.wire ∧ d.world.conn x = carrying r n ∧
        d.responses = [] ∧ x ∈ d.world.server.sessions.live) ∨
      (d.responses = [] ∧ x ∉ d.world.server.sessions.live) := by
  obtain ⟨hd, hat⟩ := connecting_inOrder hlisten hx
  obtain ⟨a, -, hat⟩ := hat.run hd h
  rcases hat.reading hpc with ⟨-, hlive, hnone, -, -, r, n, hr, hn, hconn⟩ |
    ⟨response, -, hlive, -, hone⟩ | ⟨-, -, hgone, hnone⟩
  · exact .inr (.inl ⟨r, n, hr, hn, hconn, hnone, hlive⟩)
  · exact .inl ⟨response, hone, hlive⟩
  · exact .inr (.inr ⟨hnone, hgone⟩)

/-- The request of the client is on its way. -/
theorem reading_ends_asked : ∃ d : Dialogue, d.client = .reading [0x61] ∧
    ((∃ response, d.responses = [response] ∧ client ∈ d.world.server.sessions.live) ∨
      (∃ r n, r.payload = [0x61] ∧ n ≤ r.wire ∧ d.world.conn client = carrying r n ∧
        d.responses = [] ∧ client ∈ d.world.server.sessions.live) ∨
      (d.responses = [] ∧ client ∉ d.world.server.sessions.live)) := by
  have hrun : ((oneExchange.take 7).foldlM (dialogueStep client) (connecting 3 {3})).map (fun d =>
      decide (d.client = .reading [0x61])) = some true := by
    decide +kernel
  obtain ⟨d, hd, hfacts⟩ := Option.map_eq_some_iff.1 hrun
  have hpc : d.client = .reading [0x61] := of_decide_eq_true hfacts
  exact ⟨d, hpc, reading_ends (by decide) (by decide) (Run.foldlM_iff.2 hd) hpc⟩

end LinuxNet.OpenSslServer
