-- SUMMARY: What the client and the server exchange: the client goes round whatever happens to its datagrams, and each "pong" it receives answers a "ping" of its own.
import LinuxNet.UdpPing.Parties

/-! # Pings and pongs

Each side is followed through its own calls; the network connects the two. -/

namespace LinuxNet.UdpPing

/-! ## The client -/

/-- Where the client is after `n` calls. -/
def Client.position (n : Nat) : Client :=
  match n % 3 with
  | 0 => .sending (2 * (n / 3) + 1)
  | 1 => .receiving (2 * (n / 3) + 1)
  | _ => .sending (2 * (n / 3) + 2)

/-- The calls that the client may make where it is, whatever comes of them. -/
def Client.Makes : Client → Call → Prop
  | .sending i, call =>
    call = .send serverAddr (message i) ∨ call = .sendFail serverAddr (message i)
  | .receiving _, call => (∃ source payload, call = .recv source payload) ∨ call = .recvFail
  | .exited, _ => False

variable {es : List (Event Address (List UInt8))} {s : Config Address (List UInt8) Party}
  {calls : List Call} {call : Call} {c c' : Client} {p : Party} {a b : Address} {n : Nat}

theorem Client.position_next (h : (Client.position n).after call = some c') :
    (Client.position n).Makes call ∧ c' = Client.position (n + 1) := by
  have hthree : n % 3 = 0 ∨ n % 3 = 1 ∨ n % 3 = 2 := by omega
  rcases Client.after_cases h with ⟨i, hi, hcall, rfl⟩ | ⟨i, hi, hcall, rfl⟩
  · refine ⟨by rw [hi]; exact hcall, ?_⟩
    rcases hthree with hmod | hmod | hmod
    · have hnext : (n + 1) % 3 = 1 ∧ (n + 1) / 3 = n / 3 := by omega
      simp only [Client.position, hmod, Client.sending.injEq] at hi
      simp only [Client.position, hnext, ← hi]
      exact if_pos (by omega)
    · simp [Client.position, hmod] at hi
    · have hnext : (n + 1) % 3 = 0 ∧ (n + 1) / 3 = n / 3 + 1 := by omega
      simp only [Client.position, hmod, Client.sending.injEq] at hi
      simp only [Client.position, hnext, ← hi]
      exact if_neg (by omega)
  · refine ⟨by rw [hi]; exact hcall, ?_⟩
    rcases hthree with hmod | hmod | hmod
    · simp [Client.position, hmod] at hi
    · have hnext : (n + 1) % 3 = 2 ∧ (n + 1) / 3 = n / 3 := by omega
      simp only [Client.position, hmod, Client.receiving.injEq] at hi
      simp only [Client.position, hnext, ← hi]
    · simp [Client.position, hmod] at hi

theorem Client.run_position (h : Run (system.Does a) (.client (.sending 1)) calls p) :
    p = .client (.position calls.length) ∧
      ∀ k call, calls[k]? = some call → (Client.position k).Makes call := by
  induction h with
  | nil => exact ⟨rfl, fun k call hcall => by cases hcall⟩
  | @snoc p p' calls call _ hlast ih =>
    obtain ⟨rfl, hmakes⟩ := ih
    obtain ⟨c', hafter, rfl⟩ := Option.map_eq_some_iff.1 (show Option.map _ _ = _ from hlast)
    obtain ⟨hcall, rfl⟩ := Client.position_next hafter
    refine ⟨by rw [List.length_append, List.length_singleton], fun k call' hk => ?_⟩
    rcases lt_or_ge k calls.length with hlt | hge
    · rw [List.getElem?_append_left hlt] at hk
      exact hmakes k call' hk
    · rw [List.getElem?_append_right hge, List.getElem?_singleton,
        Option.ite_none_right_eq_some] at hk
      obtain ⟨hzero, hk⟩ := hk
      rw [show k = calls.length by omega, ← Option.some.inj hk]
      exact hcall

/-- Whatever becomes of its datagrams, and whatever the others send, the number of
its calls says where the client is: it sends "ping", receives, sends "Hello, World!",
and goes on so for ever. -/
theorem client_goes_round (h : Run system.Step start es s) :
    s.state clientAddr = .client (.position (callsOf clientAddr es).length) ∧
      ∀ k call, (callsOf clientAddr es)[k]? = some call → (Client.position k).Makes call :=
  Client.run_position (Processes.project h clientAddr)

def isPing (payload : List UInt8) : Bool := payload = bytesOf "ping"

/-- An attempt to send a "ping". -/
def attempt : Call → Bool
  | .send target payload | .sendFail target payload => target = serverAddr && isPing payload
  | _ => false

/-- A call of `recvfrom`, whatever comes of it. -/
def receive : Call → Bool
  | .recv _ _ | .recvFail => true
  | _ => false

theorem message_isPing (i : Nat) : isPing (message i) = decide (i % 2 = 1) := by
  unfold message
  split
  · rename_i h
    rw [decide_eq_true h]
    decide
  · rename_i h
    rw [decide_eq_false h]
    decide

/-- For each call of `recvfrom` there has been one attempt to send a "ping", and
one more while the client waits. -/
theorem client_attempts (h : Run system.Step start es s) :
    (callsOf clientAddr es).countP receive + (waits (s.state clientAddr)).toNat =
      (callsOf clientAddr es).countP attempt := by
  refine ((Processes.project h clientAddr).count_balance (I := fun p => ∃ c, p = .client c)
    receive attempt (fun p => (waits p).toNat) ?_ ⟨_, rfl⟩).2
  rintro p call p' ⟨c, rfl⟩ hdoes
  obtain ⟨c', hafter, rfl⟩ := Option.map_eq_some_iff.1 (show Option.map _ _ = _ from hdoes)
  refine ⟨⟨c', rfl⟩, ?_⟩
  rcases Client.after_cases hafter with ⟨i, rfl, hcall, rfl⟩ | ⟨i, rfl, hcall, rfl⟩
  · by_cases hodd : i % 2 = 1 <;> rcases hcall with rfl | rfl <;>
      simp [receive, attempt, message_isPing, waits, hodd]
  · rcases hcall with ⟨source, payload, rfl⟩ | rfl <;> rfl

/-! ## The server -/

theorem server_sends_pong (h : Run system.Step start es s) {target : Address}
    {payload : List UInt8} (hmem : .send target payload ∈ callsOf serverAddr es) :
    payload = bytesOf "pong" := by
  have hrun := Processes.project h serverAddr
  have hall := (hrun.forall_label (I := fun p => ∃ x, p = .server x)
    (Q := fun call => ∀ target payload, call = .send target payload → payload = bytesOf "pong")
    ?_ ⟨_, rfl⟩).2
  · exact hall _ hmem target payload rfl
  · rintro p call p' ⟨x, rfl⟩ hdoes
    obtain ⟨x', hafter, rfl⟩ := Option.map_eq_some_iff.1 (show Option.map _ _ = _ from hdoes)
    refine ⟨⟨x', rfl⟩, ?_⟩
    rintro target payload rfl
    rcases Server.after_cases hafter with ⟨_, _, _, hcall, _⟩ | ⟨_, hcall, _⟩ | ⟨_, _, hcall, _⟩ |
      ⟨_, _, hcall, _⟩
    · cases hcall
    · cases hcall
    · exact (Action.send.inj hcall).2
    · cases hcall

/-- The server in a run: to every address it sends as many answers, counting those
that fail, as it has received datagrams with a "ping" from there, except for the one
it is about to answer. All of them are "pong". -/
theorem server_answers_pings (h : Run system.Step start es s) (b : Address) :
    (callsOf serverAddr es).countP (Action.answers b) + Duty.owes b (duty (s.state serverAddr)) =
        (callsOf serverAddr es).countP (Action.receives asks b) ∧
      ∀ target payload, .send target payload ∈ callsOf serverAddr es →
        payload = bytesOf "pong" := by
  have hrun := Processes.project h serverAddr
  exact ⟨((serves serverAddr).answers_eq hrun rfl b).2, fun _ _ => server_sends_pong h⟩

/-! ## Both -/

/-- Nobody but the server sends anything to the client. -/
def Undisturbed (es : List (Event Address (List UInt8))) : Prop :=
  ∀ a payload, .call a (.send clientAddr payload) ∈ es → a = serverAddr

/-- The calls of the client against those of the server. -/
structure Answered (client server : List Call) (waiting : Bool) : Prop where
  pong : ∀ source payload, .recv source payload ∈ client →
    source = serverAddr ∧ payload = bytesOf "pong"
  received_le : client.countP (Action.receives (fun _ => true) serverAddr) ≤
    server.countP (system.sends (fun _ => true) clientAddr)
  sent_le : server.countP (system.sends (fun _ => true) clientAddr) ≤
    server.countP (Action.receives asks clientAddr)
  asked_le : server.countP (Action.receives asks clientAddr) ≤
    client.countP (system.sends isPing serverAddr)
  pings_le : client.countP (system.sends isPing serverAddr) ≤
    client.countP (Action.receives (fun _ => true) serverAddr) + client.count .recvFail +
      waiting.toNat

theorem countP_receive (h : ∀ source payload, .recv source payload ∈ calls → source = serverAddr) :
    calls.countP receive =
      calls.countP (Action.receives (fun _ => true) serverAddr) + calls.count .recvFail := by
  induction calls with
  | nil => rfl
  | cons call calls ih =>
    rw [List.countP_cons, List.countP_cons, List.count_cons,
      ih fun source payload hmem => h source payload (List.mem_cons_of_mem _ hmem)]
    cases call with
    | recv source payload =>
      obtain rfl := h source payload List.mem_cons_self
      simp [receive, Action.receives, add_right_comm]
    | send | sendFail => rfl
    | recvFail => simp [receive, Action.receives, add_assoc]

theorem asks_message (i : Nat) : asks (message i) = isPing (message i) := by
  unfold message
  split <;> decide

/-- The client asks with its pings only. -/
theorem client_asks (h : Run system.Step start es s) :
    (callsOf clientAddr es).countP (system.sends asks serverAddr) =
      (callsOf clientAddr es).countP (system.sends isPing serverAddr) := by
  refine List.countP_congr fun call hcall => ?_
  obtain ⟨k, hk, hget⟩ := List.getElem_of_mem hcall
  have hmakes := (Client.run_position (Processes.project h clientAddr)).2 k _
    (List.getElem?_eq_some_iff.2 ⟨hk, hget⟩)
  revert hmakes
  cases Client.position k with
  | sending i => rintro (rfl | rfl) <;> simp only [Processes.sends, asks_message]
  | receiving i => rintro (⟨_, _, rfl⟩ | rfl) <;> exact Iff.rfl
  | exited => exact False.elim

/-- What arrives at the client, if nobody else sends anything to it. -/
theorem pong_of_recv (h : Run system.Step start es s) (hquiet : Undisturbed es) {source : Address}
    {payload : List UInt8} (hrecv : .call clientAddr (.recv source payload) ∈ es) :
    source = serverAddr ∧ payload = bytesOf "pong" := by
  refine (Processes.genuine
    (fun d => d.target = clientAddr → d.source = serverAddr ∧ d.payload = bytesOf "pong") h
    (fun d hd => absurd hd (Multiset.notMem_zero d)) ?_).2 clientAddr source payload hrecv rfl
  intro a target payload hsend b hb htarget
  obtain rfl := Multiset.mem_singleton.1 hb
  obtain rfl : b = clientAddr := htarget
  obtain rfl := hquiet a payload hsend
  exact ⟨rfl, server_sends_pong h (mem_callsOf.2 hsend)⟩

/-- If the network makes no copies and nobody else sends to the client, each "pong"
the client receives is a datagram of its own that the server has sent for one "ping"
of the client. Of the pings at most one is open for each receive that has failed, and
one while the client waits. -/
theorem pongs_answer_pings (h : Run system.Step start es s) (hcopy : CopyFree es)
    (hquiet : Undisturbed es) :
    Answered (callsOf clientAddr es) (callsOf serverAddr es) (waits (s.state clientAddr)) := by
  have hrecv : ∀ source payload, .recv source payload ∈ callsOf clientAddr es →
      source = serverAddr ∧ payload = bytesOf "pong" :=
    fun source payload hmem => pong_of_recv h hquiet (mem_callsOf.1 hmem)
  have hreceived := countP_receive fun source payload hmem => (hrecv source payload hmem).1
  have htried : (callsOf clientAddr es).countP (system.sends isPing serverAddr) ≤
      (callsOf clientAddr es).countP attempt := by
    refine List.countP_mono_left fun call _ hsends => ?_
    cases call with
    | send target payload =>
      have hboth : serverAddr = target ∧ isPing payload := by
        simpa [Processes.sends, system] using hsends
      simp [attempt, ← hboth.1, hboth.2]
    | sendFail | recv | recvFail => cases hsends
  obtain ⟨hreceivedLe, hsentLe, haskedLe⟩ := (serves serverAddr).answered reach_eq h rfl rfl hcopy
    clientAddr
  have hattempts := client_attempts h
  rw [client_asks h] at haskedLe
  exact ⟨hrecv, hreceivedLe, hsentLe, haskedLe, by omega⟩

/-! ## A round -/

/-- The first "ping" and its "pong". -/
def firstRound : List (Event Address (List UInt8)) :=
  [.call clientAddr (.send serverAddr (message 1)),
    .call serverAddr (.recv clientAddr (message 1)),
    .call serverAddr (.send clientAddr (bytesOf "pong")),
    .call clientAddr (.recv serverAddr (bytesOf "pong"))]

theorem first_ping : ∃ g, Run system.Step start (firstRound.take 1) g ∧
    g.state clientAddr = .client (.receiving 1) ∧ g.state serverAddr = .server .receiving ∧
    g.flight = {⟨clientAddr, serverAddr, message 1⟩} := by
  have hdoes : system.Does clientAddr (start.state clientAddr) (.send serverAddr (message 1))
      (.client (.receiving 1)) :=
    show Party.after _ _ = _ by decide
  obtain ⟨g, hstep, hclient, hother, hflight⟩ := Processes.step_call hdoes (zero_add 0).symm
  exact ⟨g, .single hstep, hclient, hother serverAddr clientAddr_ne.symm, hflight⟩

theorem firstRound_run : ∃ g, Run system.Step start firstRound g := by
  obtain ⟨g₁, hrun, hclient, hserver, hflight⟩ := first_ping
  obtain ⟨g₂, hrecv, hanswering, hother⟩ := Processes.step_recv (N := system)
    (x := .server (.answering clientAddr)) (hflight ▸ Multiset.mem_singleton_self _)
    (by rw [hserver]; show Party.after _ _ = _; decide)
  have hdoes : system.Does serverAddr (g₂.state serverAddr) (.send clientAddr (bytesOf "pong"))
      (.server .receiving) := by
    rw [hanswering]
    show Party.after _ _ = _
    decide
  obtain ⟨g₃, hsend, -, hother', hflight'⟩ := Processes.step_call hdoes (zero_add _).symm
  have hd : ⟨serverAddr, clientAddr, bytesOf "pong"⟩ ∈ g₃.flight := by
    rw [hflight']
    exact Multiset.mem_add.2 (.inr (Multiset.mem_singleton_self _))
  obtain ⟨g₄, hlast, -⟩ := Processes.step_recv (N := system) (x := .client (.sending 2)) hd
    (by
      rw [hother' clientAddr clientAddr_ne, hother clientAddr clientAddr_ne, hclient]
      show Party.after _ _ = _
      decide)
  exact ⟨g₄, ((hrun.snoc hrecv).snoc hsend).snoc hlast⟩

theorem client_goes_round_first : ∃ g : Config Address (List UInt8) Party,
    g.state clientAddr = .client (.sending 2) := by
  obtain ⟨g, hrun⟩ := firstRound_run
  exact ⟨g, (client_goes_round hrun).1⟩

theorem server_answers_pings_first :
    (callsOf serverAddr firstRound).countP (Action.answers clientAddr) ≤
      (callsOf serverAddr firstRound).countP (Action.receives asks clientAddr) := by
  obtain ⟨g, hrun⟩ := firstRound_run
  exact Nat.le.intro (server_answers_pings hrun clientAddr).1

theorem pongs_answer_pings_first : ∃ waiting,
    Answered (callsOf clientAddr firstRound) (callsOf serverAddr firstRound) waiting := by
  obtain ⟨g, hrun⟩ := firstRound_run
  refine ⟨_, pongs_answer_pings hrun (by simp [CopyFree, firstRound]) ?_⟩
  intro a payload hmem
  simp only [firstRound, List.mem_cons, List.not_mem_nil, or_false, Event.call.injEq,
    Action.send.injEq, reduceCtorEq, and_false, false_or] at hmem
  rcases hmem with ⟨-, htarget, -⟩ | ⟨ha, -⟩
  · exact absurd htarget clientAddr_ne
  · exact ha

/-! ## The client that waits

The client has no timeout and sends no "ping" twice. One that is lost, or whose
"pong" is lost, is not made up for. -/

/-- The client stays in `recvfrom`, in every continuation where its calls do not fail
and only the server sends to it, exactly if nothing is outstanding. -/
theorem ping_waits_forever_iff (h : Run system.Step start es s)
    (hwaits : waits (s.state clientAddr) = true) :
    (∀ es' t, Run system.Step s es' t → Steady clientAddr serverAddr es' →
        t.state clientAddr = s.state clientAddr) ↔
      ¬ Outstanding asks duty clientAddr serverAddr s := by
  obtain ⟨⟨r, hr⟩, -⟩ := (serves serverAddr).answers_eq (Processes.project h serverAddr) rfl
    clientAddr
  exact (serves serverAddr).stays_iff (awaits clientAddr) reach_eq clientAddr_ne hwaits hr

/-- The first "ping" has been lost. -/
theorem ping_waits_forever_lost : ∃ g : Config Address (List UInt8) Party,
    ∀ es t, Run system.Step g es t → Steady clientAddr serverAddr es →
      t.state clientAddr = .client (.receiving 1) := by
  obtain ⟨g, hrun, hclient, hserver, hflight⟩ := first_ping
  obtain ⟨g', hstep, hstate, hrest⟩ := Processes.step_lose (N := system)
    (hflight ▸ Multiset.mem_singleton_self _)
  have hnone : g'.flight = 0 := by
    rw [hflight] at hrest
    simpa using hrest
  have hclient' : g'.state clientAddr = .client (.receiving 1) := by rw [hstate, hclient]
  have hout : ¬ Outstanding asks duty clientAddr serverAddr g' := by
    unfold Outstanding
    rw [hnone, hstate, hserver]
    simp [duty]
  refine ⟨g', fun es t hrun' hsteady => ?_⟩
  rw [← hclient']
  exact (ping_waits_forever_iff (hrun.snoc hstep) (by rw [hclient']; rfl)).2 hout es t hrun' hsteady

end LinuxNet.UdpPing
