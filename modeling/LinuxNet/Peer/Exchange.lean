-- SUMMARY: Where the client sends its requests, what answers it gets, and when it waits for ever.
import LinuxNet.Peer.Parties

/-! # Requests and answers

The client hands `recvfrom` the address that it sends to, so whoever answers gets
the next request. -/

namespace LinuxNet.Peer

open LinuxNet.PeerServer (messageSize response)
open LinuxNet.PollServer (requestOf isLast)

variable {A : Type*}

/-! ## Where the requests go -/

/-- The sender of the last datagram received, or the server if there has been none. -/
def lastSource (server : A) (calls : List (Call A)) : A :=
  calls.foldl (fun target call =>
    match call with
    | .recv source _ => source
    | _ => target) server

/-- Where a request goes, also one that cannot be sent. -/
def requested : Call A → Option A
  | .send target _ | .sendFail target _ => some target
  | _ => none

/-- What `addr_server->ai_addr` holds. -/
def Client.target : Client A → Option A
  | .prompting target | .waiting target _ => some target
  | .finished => none

variable {server a b : A} {isClient : A → Bool} {calls : List (Call A)} {call : Call A}
  {p p' : Party A} {c c' : Client A} {es : List (Event A (List UInt8))}
  {s : Config A (List UInt8) (Party A)}

theorem lastSource_append (calls : List (Call A)) (call : Call A) :
    lastSource server (calls ++ [call]) =
      match call with
      | .recv source _ => source
      | _ => lastSource server calls :=
  List.foldl_append

theorem Client.received_cases (source : A) (request payload : List UInt8) :
    Client.received source request payload =
      if isLast request = true ∧ asks payload = true then .finished else .prompting source := by
  unfold Client.received asks
  dsimp only
  by_cases hnil : (payload.take messageSize).length ≤ 0
  · rw [if_pos hnil, if_neg (by simp only [decide_eq_true_eq]; omega)]
  · rw [if_neg hnil]
    by_cases hlast : isLast request = true
    · rw [if_pos hlast, if_pos ⟨hlast, decide_eq_true (by omega)⟩]
    · rw [if_neg hlast, if_neg fun h => hlast h.1]

/-- A client keeps the address of whoever it has last heard of. -/
theorem client_run (h : Run (system.Does a) (.client (.prompting server)) calls p) :
    ∃ c, p = .client c ∧ ∀ target ∈ c.target, target = lastSource server calls := by
  induction h with
  | nil => exact ⟨_, rfl, fun target h => (Option.some.inj h).symm⟩
  | @snoc p p' calls call _ hstep ih =>
    obtain ⟨c, rfl, htarget⟩ := ih
    cases hstep with
    | client hdoes =>
      refine ⟨_, rfl, fun target hmem => ?_⟩
      rw [lastSource_append]
      cases hdoes with
      | send _ line | sendFail _ line | recvFail => exact htarget target hmem
      | recv _ request source payload =>
        rw [Client.received_cases] at hmem
        split at hmem
        · cases hmem
        · exact (Option.some.inj hmem).symm

/-- A client at an address other than that of the server. -/
theorem start_client [DecidableEq A] (ha : isClient a = true) (hne : a ≠ server) :
    (start server isClient).state a = .client (.prompting server) := by
  simp [start, ha, hne]

/-- Each request goes to where the last datagram has come from. -/
theorem client_requests (h : Run (system.Does a) (.client (.prompting server)) calls p)
    {before : List (Call A)} (hcall : before ++ [call] <+: calls) :
    ∀ target ∈ requested call, target = lastSource server before := by
  obtain ⟨p, p', hrun, hstep⟩ := h.of_prefix hcall
  obtain ⟨c, rfl, htarget⟩ := client_run hrun
  intro target hrequested
  cases hstep with
  | client hdoes =>
    cases hdoes with
    | send _ line | sendFail _ line =>
      obtain rfl := Option.some.inj hrequested
      exact htarget _ rfl
    | recv | recvFail => cases hrequested

/-- What follows a receive is a request. -/
theorem client_after_recv (h : Run (system.Does a) (.client (.prompting server)) calls p)
    {before : List (Call A)} {source : A} {payload : List UInt8}
    (hcall : before ++ [.recv source payload, call] <+: calls) : requested call = some source := by
  have hcall' : (before ++ [.recv source payload]) ++ [call] <+: calls := by
    rw [List.append_assoc]
    exact hcall
  obtain ⟨p, p', hrun, hstep⟩ := h.of_prefix hcall'
  obtain ⟨q, hbefore, hrecv⟩ := Run.concat_iff.1 hrun
  obtain ⟨c, rfl, -⟩ := client_run hbefore
  cases hrecv with
  | client hdoes =>
    cases hdoes with
    | recv target request source payload =>
      rw [Client.received_cases] at hstep
      split at hstep
      · cases hstep with
        | client hdoes => cases hdoes
      · cases hstep with
        | client hdoes => cases hdoes <;> rfl

theorem lastSource_eq (h : ∀ before source payload call,
    before ++ [.recv source payload, call] <+: calls → source = server) {before : List (Call A)}
    (hcall : before ++ [call] <+: calls) : lastSource server before = server := by
  induction before using List.reverseRecOn generalizing call with
  | nil => rfl
  | append_singleton before call' ih =>
    rw [lastSource_append]
    split
    · rename_i source payload
      rw [List.append_assoc] at hcall
      exact h before source payload call hcall
    · exact ih ((List.prefix_append _ _).trans hcall)

/-- Each request of a client goes to where the last datagram it has received came
from, and to the server before the first one. So all of them go to the server exactly
if whatever the client receives before another request is from the server. -/
theorem requests_follow_sender [DecidableEq A]
    (h : Run system.Step (start server isClient) es s) (ha : isClient a = true)
    (hne : a ≠ server) :
    (∀ before call, before ++ [call] <+: callsOf a es → ∀ target ∈ requested call,
      target = lastSource server before) ∧
    ((∀ call ∈ callsOf a es, ∀ target ∈ requested call, target = server) ↔
      ∀ before source payload call, before ++ [.recv source payload, call] <+: callsOf a es →
        source = server) := by
  have hrun := Processes.project h a
  rw [start_client ha hne] at hrun
  refine ⟨fun before call hcall => client_requests hrun hcall, fun hall => ?_, fun hall => ?_⟩
  · intro before source payload call hcall
    exact hall call (hcall.subset (by simp)) source (client_after_recv hrun hcall)
  · intro call hmem target htarget
    obtain ⟨before, after, hsplit⟩ := List.append_of_mem hmem
    have hcall : before ++ [call] <+: callsOf a es := ⟨after, by rw [hsplit]; simp⟩
    rw [client_requests hrun hcall target htarget, lastSource_eq hall hcall]

/-! ## How the client leaves -/

theorem waiting_run (h : Run (system.Does a) (.client (.prompting server)) calls (.client c))
    {target : A} {request : List UInt8} (hc : c = .waiting target request) :
    ∃ before, calls = before ++ [.send target request] := by
  generalize hp : Party.client c = p at h
  cases h with
  | nil =>
    obtain rfl := Party.client.inj hp
    cases hc
  | @snoc _ _ before _ _ hstep =>
    cases hstep with
    | server | other => cases hp
    | client hdoes =>
      obtain rfl := Party.client.inj hp
      cases hdoes with
      | send _ line =>
        obtain ⟨rfl, rfl⟩ := Client.waiting.inj hc
        exact ⟨before, rfl⟩
      | sendFail | recvFail => cases hc
      | recv _ _ source payload =>
        rw [Client.received_cases] at hc
        split at hc <;> cases hc

theorem finished_run (h : Run (system.Does a) (.client (.prompting server)) calls (.client c)) :
    c = .finished ↔ ∃ before target request source payload,
      calls = before ++ [.send target request, .recv source payload] ∧
        isLast request = true ∧ asks payload = true := by
  constructor
  · intro hc
    generalize hp : Party.client c = p at h
    cases h with
    | nil =>
      obtain rfl := Party.client.inj hp
      cases hc
    | snoc hrun hstep =>
      cases hstep with
      | server | other => cases hp
      | client hdoes =>
        obtain rfl := Party.client.inj hp
        cases hdoes with
        | send | sendFail | recvFail => cases hc
        | recv target request source payload =>
          rw [Client.received_cases] at hc
          split at hc
          · rename_i hboth
            obtain ⟨before, rfl⟩ := waiting_run hrun rfl
            exact ⟨before, target, request, source, payload, by simp, hboth⟩
          · cases hc
  · rintro ⟨before, target, request, source, payload, rfl, hlast, hasks⟩
    rw [show before ++ [.send target request, .recv source payload] =
      (before ++ [.send target request]) ++ [.recv source payload] by simp] at h
    obtain ⟨q, hsent, hrecv⟩ := Run.concat_iff.1 h
    obtain ⟨q', -, hsend⟩ := Run.concat_iff.1 hsent
    generalize hp : Party.client c = p at hrecv
    cases hsend with
    | other => cases hrecv; cases hp
    | server hdoes =>
      cases hrecv with
      | server => cases hp
    | client hdoes =>
      cases hdoes with
      | send _ line =>
        cases hrecv with
        | client hdoes =>
          obtain rfl := Party.client.inj hp
          cases hdoes
          rw [Client.received_cases, if_pos ⟨hlast, hasks⟩]

/-- A client has left exactly if its last two calls are a request to leave and a
receive that is not empty. -/
theorem finished_iff [DecidableEq A] (h : Run system.Step (start server isClient) es s)
    (ha : isClient a = true) (hne : a ≠ server) :
    s.state a = .client .finished ↔ ∃ before target request source payload,
      callsOf a es = before ++ [.send target request, .recv source payload] ∧
        isLast request = true ∧ asks payload = true := by
  have hrun := Processes.project h a
  rw [start_client ha hne] at hrun
  obtain ⟨c, hc, -⟩ := client_run hrun
  rw [hc] at hrun ⊢
  rw [← finished_run hrun, Party.client.injEq]

/-! ## The answers -/

theorem server_sends_response [DecidableEq A] (h : Run system.Step (start server isClient) es s)
    {target : A} {payload : List UInt8} (hmem : .send target payload ∈ callsOf server es) :
    ∃ time, payload = response time := by
  have hrun := Processes.project h server
  have hstart : (start server isClient).state server = .server .receiving := by simp [start]
  rw [hstart] at hrun
  have hall := (hrun.forall_label (I := fun p => ∃ x, p = .server x) (Q := fun call =>
    ∀ target payload, call = .send target payload → ∃ time, payload = response time) ?_ ⟨_, rfl⟩).2
  · exact hall _ hmem target payload rfl
  · rintro p call p' ⟨x, rfl⟩ hdoes
    cases hdoes with
    | server hdoes =>
      refine ⟨⟨_, rfl⟩, fun target payload hcall => ?_⟩
      cases hdoes with
      | send client time => exact ⟨time, (Action.send.inj hcall).2.symm⟩
      | recv | recvFail | sendFail => cases hcall

/-- The server answers every datagram that is not empty, to its sender, and no other. -/
theorem server_answers_requests [DecidableEq A] (h : Run system.Step (start server isClient) es s) (b : A) :
    (callsOf server es).countP (Action.answers b) + Duty.owes b (duty (s.state server)) =
        (callsOf server es).countP (Action.receives asks b) ∧
      ∀ target payload, .send target payload ∈ callsOf server es →
        ∃ time, payload = response time := by
  have hstart : (start server isClient).state server = .server .receiving := by simp [start]
  have hanswers := (serves server).answers_eq (Processes.project h server) (hstart ▸ rfl) b
  exact ⟨hanswers.2, fun _ _ => server_sends_response h⟩

/-- Without copies, each datagram that a client receives from the server is one of
its own that the server has sent, for one request of the client that was not empty. -/
theorem answers_for_requests [DecidableEq A] (h : Run system.Step (start server isClient) es s)
    (hcopy : CopyFree es) (a : A) :
    (callsOf a es).countP (Action.receives (fun _ => true) server) ≤
        (callsOf server es).countP (system.sends (fun _ => true) a) ∧
      (callsOf server es).countP (system.sends (fun _ => true) a) ≤
        (callsOf server es).countP (Action.receives asks a) ∧
      (callsOf server es).countP (Action.receives asks a) ≤
        (callsOf a es).countP (system.sends asks server) ∧
      ∀ payload, .recv server payload ∈ callsOf a es → ∃ time, payload = response time := by
  have hstart : (start server isClient).state server = .server .receiving := by simp [start]
  obtain ⟨hreceived, hsent, hasked⟩ :=
    (serves server).answered reach_eq h rfl (hstart ▸ rfl) hcopy a
  refine ⟨hreceived, hsent, hasked, fun payload hmem => ?_⟩
  refine (Processes.genuine (fun d => d.source = server → ∃ time, d.payload = response time) h
    (fun d hd => absurd hd (Multiset.notMem_zero d)) ?_).2 a server payload (mem_callsOf.1 hmem) rfl
  rintro b target payload hsend c - rfl
  exact server_sends_response h (mem_callsOf.2 hsend)

/-! ## Waiting for ever -/

theorem server_duty [DecidableEq A] (h : Run system.Step (start server isClient) es s) :
    ∃ r, duty (s.state server) = some r := by
  have hstart : (start server isClient).state server = .server .receiving := by simp [start]
  exact ((serves server).answers_eq (Processes.project h server) (hstart ▸ rfl) server).1

/-- A client stays in `recvfrom`, in every continuation where its calls do not fail
and only the server sends to it, exactly if nothing is outstanding. -/
theorem request_waits_forever_iff [DecidableEq A] (h : Run system.Step (start server isClient) es s)
    (hne : a ≠ server) (hwaits : waits (s.state a) = true) :
    (∀ es' t, Run system.Step s es' t → Steady a server es' → t.state a = s.state a) ↔
      ¬ Outstanding asks duty a server s := by
  obtain ⟨r, hr⟩ := server_duty h
  exact (serves server).stays_iff (awaits a) reach_eq hne hwaits hr

/-- An empty request, where nothing is outstanding: the server does not answer it. -/
theorem empty_request_waits [DecidableEq A] {t : Config A (List UInt8) (Party A)}
    (h : Run system.Step (start server isClient) es s) (hne : a ≠ server)
    (hclient : ∃ target, s.state a = .client (.prompting target))
    (hnone : ¬ Outstanding asks duty a server s)
    (hstep : system.Step s (.call a (.send server [])) t) :
    ∀ es' u, Run system.Step t es' u → Steady a server es' →
      u.state a = .client (.waiting server []) := by
  obtain ⟨target, hclient⟩ := hclient
  have hdoes := hstep.1.1
  rw [hclient] at hdoes
  have ht : t.state a = .client (.waiting server []) := by
    generalize hcall : Action.send server [] = call at hdoes
    generalize t.state a = p at hdoes ⊢
    cases hdoes with
    | client hdoes =>
      cases hdoes with
      | send _ line =>
        obtain ⟨rfl, hline⟩ := Action.send.inj hcall
        rw [← hline]
      | sendFail => cases hcall
  obtain ⟨r, hr⟩ := server_duty (h.snoc hstep)
  rw [← ht]
  refine ((serves server).stays_iff (awaits a) reach_eq hne (by rw [ht]; rfl) hr).2 ?_
  have hserver : t.state server = s.state server := hstep.1.2 server (Ne.symm hne)
  unfold Outstanding at hnone ⊢
  rw [hserver]
  rintro (⟨d, hd, htarget⟩ | hanswering | ⟨halive, d, hd, hsource, htarget, hasks⟩)
  · rcases Processes.mem_flight hstep hd with hd | ⟨target, he, hreach⟩
    · exact hnone (.inl ⟨d, hd, htarget⟩)
    · obtain ⟨hserver', -⟩ := Action.send.inj (Event.call.inj he).2
      exact hne (htarget.symm.trans ((Multiset.mem_singleton.1 hreach).trans hserver'.symm))
  · exact hnone (.inr (.inl hanswering))
  · rcases Processes.mem_flight hstep hd with hd | ⟨target, he, -⟩
    · exact hnone (.inr (.inr ⟨halive, d, hd, hsource, htarget, hasks⟩))
    · rw [← (Action.send.inj (Event.call.inj he).2).2] at hasks
      cases hasks

/-! ## A round -/

/-- The server at 0, and a client at 1 that leaves at once. -/
def farewell : List (Event Nat (List UInt8)) :=
  [.call 1 (.send 0 (bytesOf "exit")), .call 0 (.recv 1 (bytesOf "exit")),
    .call 0 (.send 1 (response 0)), .call 1 (.recv 0 (response 0))]

theorem asks_response (time : Int) : asks (response time) = true := by
  rw [asks_iff]
  simp [response, PeerServer.response, bytesOf, messageSize, PeerServer.messageSize]

/-- The request of the client is on its way. -/
theorem farewell_sent : ∃ s, Run system.Step (start 0 (· = 1)) (farewell.take 1) s ∧
    s.state 1 = .client (.waiting 0 (bytesOf "exit")) ∧ s.state 0 = .server .receiving ∧
    s.flight = {⟨1, 0, bytesOf "exit"⟩} := by
  have hrequest : requestOf (bytesOf "exit") = bytesOf "exit" := by decide
  have hdoes : system.Does 1 ((start 0 (· = 1)).state 1) (.send 0 (bytesOf "exit"))
      (.client (.waiting 0 (bytesOf "exit"))) := by
    have hsend := Client.Does.send (0 : Nat) (bytesOf "exit") (by decide)
    rw [hrequest] at hsend
    exact .client hsend
  obtain ⟨s, hsend, hclient, hother, hflight⟩ := Processes.step_call hdoes (zero_add 0).symm
  exact ⟨s, .single hsend, hclient, hother 0 (by decide), hflight⟩

theorem farewell_run : ∃ s, Run system.Step (start 0 (· = 1)) farewell s ∧
    s.state 1 = .client .finished := by
  obtain ⟨s₁, hsend, hclient, hserver, hflight⟩ := farewell_sent
  have hd : ⟨1, 0, bytesOf "exit"⟩ ∈ s₁.flight := hflight ▸ Multiset.mem_singleton_self _
  have hdoes : system.Does 0 (s₁.state 0) (.recv 1 (bytesOf "exit")) (.server (.answering 1)) :=
    hserver.symm ▸ .server (.recv 1 (bytesOf "exit"))
  obtain ⟨s₂, hrecv, hserver₂, hother₂⟩ := Processes.step_recv hd hdoes
  have hdoes₂ : system.Does 0 (s₂.state 0) (.send 1 (response 0)) (.server .receiving) :=
    hserver₂.symm ▸ .server (.send 1 0)
  obtain ⟨s₃, hanswer, -, hother₃, hflight₃⟩ := Processes.step_call hdoes₂ (zero_add _).symm
  have hd₃ : ⟨0, 1, response 0⟩ ∈ s₃.flight := by
    rw [hflight₃]
    exact Multiset.mem_add.2 (.inr (Multiset.mem_singleton_self _))
  have hwaiting : s₃.state 1 = .client (.waiting 0 (bytesOf "exit")) := by
    rw [hother₃ 1 (by decide), hother₂ 1 (by decide), hclient]
  have hdoes₃ : system.Does 1 (s₃.state 1) (.recv 0 (response 0)) (.client .finished) := by
    have hlast := Client.Does.recv (0 : Nat) (bytesOf "exit") 0 (response 0)
    rw [Client.received_cases, if_pos ⟨by decide, asks_response 0⟩] at hlast
    exact hwaiting.symm ▸ .client hlast
  obtain ⟨s₄, hlast, hfinished, -⟩ := Processes.step_recv hd₃ hdoes₃
  exact ⟨s₄, ((hsend.snoc hrecv).snoc hanswer).snoc hlast, hfinished⟩

/-- A datagram from 2 comes before the answer of the server. -/
def diverted : List (Event Nat (List UInt8)) :=
  [.call 1 (.send 0 [97]), .call 2 (.send 1 [98]), .call 1 (.recv 2 [98]), .call 1 (.send 2 [97])]

theorem diverted_run : ∃ s, Run system.Step (start 0 (· = 1)) diverted s := by
  have hdoes : system.Does 1 ((start 0 (· = 1)).state 1) (.send 0 [97])
      (.client (.waiting 0 [97])) :=
    .client (.send (0 : Nat) [97] (by decide))
  obtain ⟨s₁, hsend, hclient, hother, -⟩ := Processes.step_call hdoes (zero_add 0).symm
  have hdoes₂ : system.Does 2 (s₁.state 2) (.send 1 [98]) .other := by
    rw [hother 2 (by decide)]
    exact .other _
  obtain ⟨s₂, hstray, -, hother₂, hflight₂⟩ := Processes.step_call hdoes₂ (zero_add _).symm
  have hd₂ : ⟨2, 1, [98]⟩ ∈ s₂.flight := by
    rw [hflight₂]
    exact Multiset.mem_add.2 (.inr (Multiset.mem_singleton_self _))
  have hdoes₃ : system.Does 1 (s₂.state 1) (.recv 2 [98]) (.client (.prompting 2)) := by
    rw [hother₂ 1 (by decide), hclient]
    exact .client (.recv (0 : Nat) [97] 2 [98])
  obtain ⟨s₃, hrecv, hclient₃, -⟩ := Processes.step_recv hd₂ hdoes₃
  have hdoes₄ : system.Does 1 (s₃.state 1) (.send 2 [97]) (.client (.waiting 2 [97])) := by
    rw [hclient₃]
    exact .client (.send (2 : Nat) [97] (by decide))
  obtain ⟨s₄, hagain, -⟩ := Processes.step_call hdoes₄ (zero_add _).symm
  exact ⟨s₄, ((Run.single hsend).snoc hstray |>.snoc hrecv).snoc hagain⟩

theorem requests_follow_sender_diverted :
    callsOf 1 diverted = [.send 0 [97], .recv 2 [98], .send 2 [97]] ∧
      (∀ target ∈ requested (.send 2 [97] : Call Nat),
        target = lastSource 0 [.send 0 [97], .recv 2 [98]]) ∧
      ¬ ∀ call ∈ callsOf 1 diverted, ∀ target ∈ requested call, target = 0 := by
  obtain ⟨s, hrun⟩ := diverted_run
  obtain ⟨hlast, hserver⟩ := requests_follow_sender (a := 1) hrun (by decide) (by decide)
  refine ⟨rfl, hlast [.send 0 [97], .recv 2 [98]] _ (List.prefix_refl _), fun hall => ?_⟩
  have hsource := hserver.1 hall [.send 0 [97]] 2 [98] (.send 2 [97]) (List.prefix_refl _)
  exact absurd hsource (by decide)

theorem finished_iff_farewell : ∃ before target request source payload,
    callsOf 1 farewell = before ++ [.send target request, .recv source payload] ∧
      isLast request = true ∧ asks payload = true := by
  obtain ⟨s, hrun, hfinished⟩ := farewell_run
  exact (finished_iff hrun (by decide) (by decide)).1 hfinished

theorem server_answers_requests_farewell :
    (callsOf 0 farewell).countP (Action.answers 1) ≤
      (callsOf 0 farewell).countP (Action.receives asks 1) := by
  obtain ⟨s, hrun, -⟩ := farewell_run
  exact Nat.le.intro (server_answers_requests hrun 1).1

theorem answers_for_requests_farewell :
    (callsOf 1 farewell).countP (Action.receives (fun _ => true) 0) ≤
      (callsOf 0 farewell).countP (system.sends (fun _ => true) 1) := by
  obtain ⟨s, hrun, -⟩ := farewell_run
  exact (answers_for_requests hrun (by simp [CopyFree, farewell]) 1).1

/-- The request has been lost. -/
theorem request_waits_forever_farewell : ∃ s : Config Nat (List UInt8) (Party Nat),
    ∀ es t, Run system.Step s es t → Steady 1 0 es →
      t.state 1 = .client (.waiting 0 (bytesOf "exit")) := by
  obtain ⟨s, hrun, hclient, hserver, hflight⟩ := farewell_sent
  obtain ⟨s', hstep, hstate, hrest⟩ := Processes.step_lose (N := system)
    (hflight ▸ Multiset.mem_singleton_self _)
  have hnone : s'.flight = 0 := by
    rw [hflight] at hrest
    simpa using hrest
  have hclient' : s'.state 1 = .client (.waiting 0 (bytesOf "exit")) := by rw [hstate, hclient]
  have hout : ¬ Outstanding asks duty 1 0 s' := by
    unfold Outstanding
    rw [hnone, hstate, hserver]
    simp [duty]
  refine ⟨s', fun es t hrun' hsteady => ?_⟩
  rw [← hclient']
  exact (request_waits_forever_iff (hrun.snoc hstep) (by decide) (by rw [hclient']; rfl)).2 hout
    es t hrun' hsteady

/-- The first request is empty. -/
theorem empty_request_waits_first : ∃ t : Config Nat (List UInt8) (Party Nat),
    ∀ es u, Run system.Step t es u → Steady 1 0 es → u.state 1 = .client (.waiting 0 []) := by
  have hdoes : system.Does 1 ((start 0 (· = 1)).state 1) (.send 0 []) (.client (.waiting 0 [])) :=
    .client (.send (0 : Nat) [] (by decide))
  obtain ⟨t, hstep, -⟩ := Processes.step_call hdoes (zero_add 0).symm
  refine ⟨t, empty_request_waits .nil (by decide) ⟨0, rfl⟩ ?_ hstep⟩
  rintro (⟨d, hd, -⟩ | h | ⟨-, d, hd, -⟩)
  · exact absurd hd (Multiset.notMem_zero d)
  · cases h
  · exact absurd hd (Multiset.notMem_zero d)

end LinuxNet.Peer
