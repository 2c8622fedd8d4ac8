-- SUMMARY: The client that sends "ping" over TCP and the server that answers it: the two wait for each other only once TCP has cut a "ping" (simple_tcp_client_server).
import LinuxNet.Base.Socket
import LinuxNet.PongServer.Server

/-! # The client and the server

`ping_client.c` sends "ping" and waits for an answer, then "Hello, World!", and so
on. Between the two are the bytes in flight. No call fails. -/

namespace LinuxNet.PongServer

/-- `msg` in iteration `i`. -/
def message (i : Nat) : List UInt8 :=
  if i % 2 = 1 then bytesOf "ping" else bytesOf "Hello, World!"

/-- Where the client is in iteration `i`: before `send`, or in `recv`. -/
inductive ClientPc
  | sending (i : Nat)
  | receiving (i : Nat)
  deriving DecidableEq, Repr

/-- Where the server is with this client: in `recv`, before `send`, or before `close`. -/
inductive ServerPc
  | receiving
  | answering (piece : List UInt8)
  | closing
  | closed
  deriving DecidableEq, Repr

structure Dialogue where
  client : ClientPc
  toServer : List UInt8
  toClient : List UInt8
  server : ServerPc
  deriving DecidableEq, Repr

/-- What happens next. A receive takes `n` bytes. -/
inductive Event
  | clientSend
  | clientRecv (n : Nat)
  | serverRecv (n : Nat)
  | serverSend
  | serverClose
  deriving DecidableEq, Repr

/-- Where the server goes at the end of a pass. -/
def afterPass (piece : List UInt8) : ServerPc :=
  match condition (filled bufferSize piece) with
  | .again => .receiving
  | _ => .closing

/-- Where the server goes with what it has received. -/
def afterRecv (piece : List UInt8) : ServerPc :=
  if piece = [] then .closing
  else if strstr (filled bufferSize piece) (bytesOf "ping") then .answering piece
  else afterPass piece

def Dialogue.step (d : Dialogue) : Event → Option Dialogue
  | .clientSend =>
    match d.client with
    | .sending i =>
      some { d with
        toServer := d.toServer ++ message i
        client := if i % 2 = 1 then .receiving i else .sending (i + 1) }
    | .receiving _ => none
  | .clientRecv n =>
    match d.client with
    | .receiving i =>
      -- the client goes on with any bytes, and at the end of the stream too
      if Receives (bufferSize - 1) d.toClient (d.server = .closed) n then
        some { d with toClient := d.toClient.drop n, client := .sending (i + 1) }
      else none
    | .sending _ => none
  | .serverRecv n =>
    if d.server = .receiving ∧ Receives (bufferSize - 1) d.toServer false n then
      some { d with
        toServer := d.toServer.drop n
        server := afterRecv (d.toServer.take n) }
    else none
  | .serverSend =>
    match d.server with
    | .answering piece =>
      some { d with
        toClient := d.toClient ++ bytesOf "pong"
        server := afterPass piece }
    | _ => none
  | .serverClose => if d.server = .closing then some { d with server := .closed } else none

def DialogueStep (d : Dialogue) (e : Event) (d' : Dialogue) : Prop := d.step e = some d'

/-- The server has accepted the connection. -/
def connected : Dialogue := ⟨.sending 1, [], [], .receiving⟩

/-- The client is in `recv`. -/
def Dialogue.Waits (d : Dialogue) : Prop := ∃ i, d.client = .receiving i

/-- There is something to receive, or something that the server is about to do. -/
def Dialogue.Live (d : Dialogue) : Prop :=
  d.toServer ≠ [] ∨ d.toClient ≠ [] ∨ d.server ≠ .receiving

/-- The two do not wait for each other. -/
def Dialogue.Goes (d : Dialogue) : Prop := d.Waits → d.Live

/-- If nothing is left for the client that waits, the server takes the last of what
has been sent with a "ping" that is whole. -/
def TakesPing (d : Dialogue) (e : Event) : Prop :=
  d.Waits → d.toClient = [] → e = .serverRecv d.toServer.length →
    (bytesOf "ping").length ≤ d.toServer.length

/-- What the client sends never makes the server leave, and ends with a "ping"
where the client waits. -/
structure Dialogue.Orderly (d : Dialogue) : Prop where
  plain : ∀ b ∈ d.toServer, b ∈ bytesOf "ping" ++ bytesOf "Hello, World!"
  ping : d.Waits → ∃ sent, d.toServer <:+ sent ++ bytesOf "ping"
  serves : d.server = .receiving ∨ ∃ piece, d.server = .answering piece ∧
    ∀ b ∈ piece, b ∈ bytesOf "ping" ++ bytesOf "Hello, World!"

variable {d d' : Dialogue} {e : Event} {es : List Event} {piece : List UInt8}

/-- There is no "quit" in what the client sends. -/
theorem afterPass_plain (h : ∀ b ∈ piece, b ∈ bytesOf "ping" ++ bytesOf "Hello, World!") :
    afterPass piece = .receiving := by
  have hquit : strstr (filled bufferSize piece) (bytesOf "quit") = false := by
    rw [strstr_filled, ← Bool.not_eq_true, strstr_iff_contained]
    intro hcontained
    have hmem := (hcontained.trans (List.takeWhile_prefix _).isInfix).subset
      (show (113 : UInt8) ∈ bytesOf "quit" by decide)
    exact absurd (h 113 hmem) (by decide)
  rw [afterPass, condition, hquit]
  rfl

theorem message_plain (i : Nat) : ∀ b ∈ message i, b ∈ bytesOf "ping" ++ bytesOf "Hello, World!" := by
  unfold message
  split
  · exact fun b hb => List.mem_append_left _ hb
  · exact fun b hb => List.mem_append_right _ hb

/-- The server receives something while the connection is open. -/
theorem take_ne_nil {stream : List UInt8} {n : Nat} (h : Receives (bufferSize - 1) stream false n) :
    stream.take n ≠ [] := by
  unfold Receives at h
  split at h
  · cases h.1
  · rename_i hne
    rw [← List.length_pos_iff, List.length_take]
    omega

/-- What a step does. -/
theorem dialogue_cases (h : DialogueStep d e d') :
    (∃ i, e = .clientSend ∧ d.client = .sending i ∧ d' = { d with
      toServer := d.toServer ++ message i
      client := if i % 2 = 1 then .receiving i else .sending (i + 1) }) ∨
    (∃ i n, e = .clientRecv n ∧ d.client = .receiving i ∧
      d' = { d with toClient := d.toClient.drop n, client := .sending (i + 1) }) ∨
    (∃ n, e = .serverRecv n ∧ d.server = .receiving ∧
      Receives (bufferSize - 1) d.toServer false n ∧ d' = { d with
        toServer := d.toServer.drop n
        server := afterRecv (d.toServer.take n) }) ∨
    (∃ piece, e = .serverSend ∧ d.server = .answering piece ∧
      d' = { d with toClient := d.toClient ++ bytesOf "pong", server := afterPass piece }) ∨
    (e = .serverClose ∧ d.server = .closing) := by
  unfold DialogueStep Dialogue.step at h
  cases e with
  | clientSend =>
    dsimp only at h
    split at h
    · exact .inl ⟨_, rfl, ‹_›, (Option.some.inj h).symm⟩
    · cases h
  | clientRecv n =>
    dsimp only at h
    split at h
    · obtain ⟨-, h⟩ := Option.ite_none_right_eq_some.1 h
      exact .inr (.inl ⟨_, n, rfl, ‹_›, (Option.some.inj h).symm⟩)
    · cases h
  | serverRecv n =>
    obtain ⟨⟨hserver, hreceives⟩, h⟩ := Option.ite_none_right_eq_some.1 h
    exact .inr (.inr (.inl ⟨n, rfl, hserver, hreceives, (Option.some.inj h).symm⟩))
  | serverSend =>
    dsimp only at h
    split at h
    · exact .inr (.inr (.inr (.inl ⟨_, rfl, ‹_›, (Option.some.inj h).symm⟩)))
    · cases h
  | serverClose =>
    obtain ⟨hclosing, -⟩ := Option.ite_none_right_eq_some.1 h
    exact .inr (.inr (.inr (.inr ⟨rfl, hclosing⟩)))

theorem Dialogue.Orderly.not_closing (hd : d.Orderly) : d.server ≠ .closing := fun hclosing => by
  rcases hd.serves with hserver | ⟨piece, hserver, -⟩ <;> rw [hserver] at hclosing <;> cases hclosing

/-- After a receive of what the client sends, the server answers, or receives again. -/
theorem afterRecv_plain (hne : piece ≠ [])
    (h : ∀ b ∈ piece, b ∈ bytesOf "ping" ++ bytesOf "Hello, World!") : afterRecv piece =
      if strstr (filled bufferSize piece) (bytesOf "ping") then .answering piece
      else .receiving := by
  rw [afterRecv, if_neg hne, afterPass_plain h]

theorem orderly_step (hd : d.Orderly) (h : DialogueStep d e d') : d'.Orderly := by
  rcases dialogue_cases h with ⟨i, -, hclient, rfl⟩ | ⟨i, n, -, hclient, rfl⟩ |
    ⟨n, -, hserver, hreceives, rfl⟩ | ⟨piece, -, hserver, rfl⟩ | ⟨-, hclosing⟩
  · refine ⟨List.forall_mem_append.2 ⟨hd.plain, message_plain i⟩, ?_, hd.serves⟩
    rintro ⟨j, hj⟩
    dsimp only at hj ⊢
    split at hj
    · rename_i hodd
      exact ⟨d.toServer, by rw [message, if_pos hodd]⟩
    · cases hj
  · exact ⟨hd.plain, fun ⟨j, hj⟩ => (nomatch hj), hd.serves⟩
  · have hpiece : ∀ b ∈ d.toServer.take n, b ∈ bytesOf "ping" ++ bytesOf "Hello, World!" :=
      fun b hb => hd.plain b (List.mem_of_mem_take hb)
    refine ⟨fun b hb => hd.plain b (List.mem_of_mem_drop hb), fun hwaits => ?_, ?_⟩
    · obtain ⟨sent, hsuffix⟩ := hd.ping hwaits
      exact ⟨sent, (List.drop_suffix n d.toServer).trans hsuffix⟩
    · dsimp only
      rw [afterRecv_plain (take_ne_nil hreceives) hpiece]
      split
      · exact .inr ⟨_, rfl, hpiece⟩
      · exact .inl rfl
  · refine ⟨hd.plain, hd.ping, .inl (afterPass_plain ?_)⟩
    rcases hd.serves with hserver' | ⟨piece', hserver', hpiece⟩
    · rw [hserver] at hserver'
      cases hserver'
    · rw [hserver] at hserver'
      exact ServerPc.answering.inj hserver' ▸ hpiece
  · exact absurd hclosing hd.not_closing

/-- Of what the client has sent before it waits, the server finds a "ping" in the last
part exactly if it is long enough. -/
theorem strstr_last {stream sent : List UInt8} (hsuffix : stream <:+ sent ++ bytesOf "ping")
    (hplain : ∀ b ∈ stream, b ∈ bytesOf "ping" ++ bytesOf "Hello, World!") :
    strstr (filled bufferSize stream) (bytesOf "ping") = true ↔
      (bytesOf "ping").length ≤ stream.length := by
  have hzero : 0 ∉ stream := fun hmem => absurd (hplain 0 hmem) (by decide)
  rw [strstr_filled, strstr_iff_contained, cString_eq_self hzero]
  constructor
  · exact fun hcontained => hcontained.length_le
  · exact fun hle => (List.suffix_of_suffix_length_le (List.suffix_append _ _) hsuffix hle).isInfix

/-- A step leads to where the two do not wait for each other exactly if it does not
take the last part of a "ping" that has been cut. -/
theorem takesPing_iff (hd : d.Orderly) (h : DialogueStep d e d') :
    TakesPing d e ↔ d'.Goes := by
  rcases dialogue_cases h with ⟨i, rfl, hclient, rfl⟩ | ⟨i, n, rfl, hclient, rfl⟩ |
    ⟨n, rfl, hserver, hreceives, rfl⟩ | ⟨piece, rfl, hserver, rfl⟩ | ⟨-, hclosing⟩
  · refine iff_of_true (fun _ _ he => nomatch he) fun _ => .inl ?_
    refine List.append_ne_nil_of_right_ne_nil _ ?_
    unfold message
    split <;> decide
  · exact iff_of_true (fun _ _ he => nomatch he) fun ⟨j, hj⟩ => nomatch hj
  · by_cases hwaits : d.Waits
    · by_cases hall : n = d.toServer.length
      · -- the server takes all that is left
        subst hall
        obtain ⟨sent, hsuffix⟩ := hd.ping hwaits
        have hne := take_ne_nil hreceives
        have hlast := strstr_last hsuffix hd.plain
        rw [List.take_length] at hne
        unfold TakesPing Dialogue.Goes Dialogue.Live
        simp only [List.drop_length, List.take_length, afterRecv_plain hne hd.plain]
        by_cases hping : strstr (filled bufferSize d.toServer) (bytesOf "ping") = true
        · rw [if_pos hping]
          exact iff_of_true (fun _ _ _ => hlast.1 hping) fun _ => .inr (.inr nofun)
        · rw [if_neg hping]
          constructor
          · intro htakes _
            refine .inr (.inl fun hnone => ?_)
            exact hping (hlast.2 (htakes hwaits hnone trivial))
          · intro hgoes _ hnone _
            rcases hgoes hwaits with h | h | h
            · exact absurd rfl h
            · exact absurd hnone h
            · exact absurd rfl h
      · refine iff_of_true (fun _ _ he => absurd (Event.serverRecv.inj he) hall) fun _ => .inl ?_
        have hle : n ≤ d.toServer.length := by
          unfold Receives at hreceives
          split at hreceives
          · cases hreceives.1
          · exact hreceives.2.2
        rw [← List.length_pos_iff, List.length_drop]
        omega
    · exact iff_of_true (fun hwaits' => absurd hwaits' hwaits) fun hwaits' => absurd hwaits' hwaits
  · refine iff_of_true (fun _ _ he => nomatch he) fun _ => .inr (.inl ?_)
    exact List.append_ne_nil_of_right_ne_nil _ (by decide)
  · exact absurd hclosing hd.not_closing

/-- The runs in which the two never wait for each other are those in which the server
always takes the last of what has been sent to it with the whole of the "ping", unless
there is an answer that the client has not received. -/
theorem goes_iff_takesPing :
    Run (fun d e d' => DialogueStep d e d' ∧ d'.Goes) connected es d ↔
      Run (fun d e d' => DialogueStep d e d' ∧ TakesPing d e) connected es d :=
  Run.iff_of_invariant (I := Dialogue.Orderly)
    (fun _ _ _ hd hstep => (takesPing_iff hd hstep).symm)
    (fun _ _ _ hd hstep _ => orderly_step hd hstep)
    ⟨List.forall_mem_nil _, fun ⟨_, he⟩ => (nomatch he), .inl rfl⟩

/-- A "ping" in two pieces: neither has the word, and the two wait for ever. -/
theorem cutPing_waits : ∃ d, Run DialogueStep connected
    [.clientSend, .serverRecv 2, .serverRecv 2] d ∧ ∀ e d', ¬ DialogueStep d e d' := by
  refine ⟨⟨.receiving 1, [], [], .receiving⟩, Run.foldlM_iff.2 ?_, fun e d' h => ?_⟩
  · decide
  · cases e <;> cases h

end LinuxNet.PongServer
