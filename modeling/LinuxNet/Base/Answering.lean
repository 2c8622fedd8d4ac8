-- SUMMARY: A server that answers one datagram at a time, and a client that waits for the answer: how many answers there are, and when the client waits for ever.
import LinuxNet.Base.Processes

/-! # Asking and answering

The server and the client are any processes that refine the two described here.
The client has no timeout, and the network loses datagrams. -/

namespace LinuxNet

variable {A M S : Type*}

/-- What a server is about to do. -/
inductive Duty (A : Type*)
  | receiving
  | answering (b : A)
  | stopped
  deriving DecidableEq, Repr

/-- The server answers the datagrams that ask for it, and no others, and sends the
answers to their senders. A call that fails may stop it. -/
inductive Duty.Step (asks : M → Bool) : Duty A → Action A M → Duty A → Prop
  | recv (source payload) : Step asks .receiving (.recv source payload)
      (if asks payload then .answering source else .receiving)
  | recvFail {next} (h : next = .receiving ∨ next = .stopped) :
      Step asks .receiving .recvFail next
  | send (b payload) : Step asks (.answering b) (.send b payload) .receiving
  | sendFail (b payload) {next} (h : next = .receiving ∨ next = .stopped) :
      Step asks (.answering b) (.sendFail b payload) next

/-- A process that is such a server, in the states that have a duty. -/
structure Serves (Does : S → Action A M → S → Prop) (asks : M → Bool)
    (duty : S → Option (Duty A)) : Prop where
  step : ∀ {s action s' r}, Does s action s' → duty s = some r →
    ∃ r', duty s' = some r' ∧ r.Step asks action r'
  recv : ∀ {s}, duty s = some .receiving → ∀ source payload, ∃ s', Does s (.recv source payload) s'
  send : ∀ {s b}, duty s = some (.answering b) → ∃ payload s', Does s (.send b payload) s'

/-- A process that, in the states where it waits, can only receive, and goes on with
whatever it receives. -/
structure Awaits (Does : S → Action A M → S → Prop) (waits : S → Prop) : Prop where
  call : ∀ {s action s'}, waits s → Does s action s' →
    (∃ source payload, action = .recv source payload) ∨ action = .recvFail
  recv : ∀ {s}, waits s → ∀ source payload, ∃ s', Does s (.recv source payload) s' ∧ ¬ waits s'

variable {Does : S → Action A M → S → Prop} {asks : M → Bool}
  {duty : S → Option (Duty A)} {waits : S → Prop} {N : Processes A M S} {s t : Config A M S}
  {e : Event A M} {es : List (Event A M)} {d : Datagram A M} {a b server : A} {r : Duty A}

/-! ## The answers -/

section Answers

variable [DecidableEq A]

/-- An answer to `b`, sent or not. -/
def Action.answers (b : A) : Action A M → Bool
  | .send target _ | .sendFail target _ => target = b
  | _ => false

def Duty.owes (b : A) (r : Option (Duty A)) : Nat :=
  if r = some (.answering b) then 1 else 0

/-- The server answers what asks for it, except for the one datagram it is at. -/
theorem Serves.answers_eq (hserves : Serves Does asks duty) {x y : S}
    {calls : List (Action A M)} (h : Run Does x calls y) (hx : duty x = some .receiving) (b : A) :
    (∃ r, duty y = some r) ∧ calls.countP (Action.answers b) + Duty.owes b (duty y) =
      calls.countP (Action.receives asks b) := by
  have hbalance := h.count_balance (I := fun x => ∃ r, duty x = some r) (Action.answers b)
    (Action.receives asks b) (fun x => Duty.owes b (duty x)) ?_ ⟨_, hx⟩
  · simpa [hx, Duty.owes] using hbalance
  · rintro x action y ⟨r, hr⟩ hdoes
    obtain ⟨r', hr', hstep⟩ := hserves.step hdoes hr
    refine ⟨⟨r', hr'⟩, ?_⟩
    rw [hr, hr']
    cases hstep with
    | recv source payload =>
      cases hasks : asks payload <;> by_cases hb : source = b <;>
        simp [Action.answers, Action.receives, Duty.owes, hasks, hb]
    | recvFail hnext =>
      rcases hnext with rfl | rfl <;> simp [Action.answers, Action.receives, Duty.owes]
    | send c payload =>
      by_cases hb : c = b <;> simp [Action.answers, Action.receives, Duty.owes, hb]
    | sendFail c payload hnext =>
      rcases hnext with rfl | rfl <;> by_cases hb : c = b <;>
        simp [Action.answers, Action.receives, Duty.owes, hb]

/-- If the network makes no copies, what a client receives from the server has been
sent by it, each for a datagram of the client that asked for it and is one of those
the client has sent. -/
theorem Serves.answered (hserves : Serves (N.Does server) asks duty)
    (hreach : ∀ target, N.reach target = {target}) (h : Run N.Step s es t) (hs : s.flight = 0)
    (hduty : duty (s.state server) = some .receiving) (hcopy : CopyFree es) (a : A) :
    (callsOf a es).countP (Action.receives (fun _ => true) server) ≤
        (callsOf server es).countP (N.sends (fun _ => true) a) ∧
      (callsOf server es).countP (N.sends (fun _ => true) a) ≤
        (callsOf server es).countP (Action.receives asks a) ∧
      (callsOf server es).countP (Action.receives asks a) ≤
        (callsOf a es).countP (N.sends asks server) := by
  have hnodup : ∀ target, (N.reach target).Nodup := fun target => by
    rw [hreach]
    exact Multiset.nodup_singleton target
  have hzero (p : M → Bool) (b c : A) : s.between p b c = 0 := by
    rw [Config.between, hs, Multiset.countP_zero]
  have hsends : (callsOf server es).countP (N.sends (fun _ => true) a) ≤
      (callsOf server es).countP (Action.answers a) := by
    refine List.countP_mono_left fun call _ hsend => ?_
    cases call with
    | send target payload =>
      have htarget : a = target := by simpa [Processes.sends, hreach] using hsend
      simp [Action.answers, htarget]
    | sendFail | recv | recvFail => cases hsend
  have hback := Processes.exchange (fun _ => true) hnodup h server a
  have hthere := Processes.exchange asks hnodup h a server
  rw [hzero, hcopy.countP_eq_zero] at hback hthere
  have hanswers := (hserves.answers_eq (Processes.project h server) hduty a).2
  exact ⟨by omega, by omega, by omega⟩

end Answers

/-! ## The client that waits -/

/-- Nobody but the server sends anything to the client, whose receives do not fail. -/
def Steady (a server : A) (es : List (Event A M)) : Prop :=
  (∀ b payload, .call b (.send a payload) ∈ es → b = server) ∧ .call a .recvFail ∉ es

/-- A datagram is on its way to the client, or the server is about to send one, or
it can still receive a datagram of the client that asks for it. -/
def Outstanding (asks : M → Bool) (duty : S → Option (Duty A)) (a server : A)
    (s : Config A M S) : Prop :=
  (∃ d ∈ s.flight, d.target = a) ∨ duty (s.state server) = some (.answering a) ∨
    (duty (s.state server) ≠ some .stopped ∧
      ∃ d ∈ s.flight, d.source = a ∧ d.target = server ∧ asks d.payload)

theorem steady_cons : Steady a server (e :: es) ↔
    Steady a server [e] ∧ Steady a server es := by
  unfold Steady
  simp only [List.mem_cons, List.not_mem_nil, or_false]
  constructor
  · rintro ⟨hsend, hfail⟩
    exact ⟨⟨fun b payload he => hsend b payload (.inl he), fun he => hfail (.inl he)⟩,
      fun b payload he => hsend b payload (.inr he), fun he => hfail (.inr he)⟩
  · rintro ⟨⟨hsend, hfail⟩, hsend', hfail'⟩
    exact ⟨fun b payload he => he.elim (hsend b payload) (hsend' b payload),
      fun he => he.elim hfail hfail'⟩

theorem Steady.of_append {es' : List (Event A M)} (h : Steady a server (es ++ es')) :
    Steady a server es ∧ Steady a server es' :=
  ⟨⟨fun b payload he => h.1 b payload (List.mem_append_left _ he),
      fun he => h.2 (List.mem_append_left _ he)⟩,
    fun b payload he => h.1 b payload (List.mem_append_right _ he),
      fun he => h.2 (List.mem_append_right _ he)⟩

theorem steady_recv {source : A} {payload : M} :
    Steady a server [Event.call b (.recv source payload)] := by
  constructor
  · intro c payload' h
    cases List.mem_singleton.1 h
  · intro h
    cases List.mem_singleton.1 h

theorem steady_send {payload : M} : Steady a server [Event.call server (.send b payload)] := by
  constructor
  · intro c payload' h
    cases List.mem_singleton.1 h
    rfl
  · intro h
    cases List.mem_singleton.1 h

/-! ### What can still happen -/

/-- A steady run leads from here to where the client no longer waits. -/
def GoesOn (N : Processes A M S) (waits : S → Prop) (a server : A) (s : Config A M S) : Prop :=
  ∃ es t, Run N.Step s es t ∧ Steady a server es ∧ ¬ waits (t.state a)

theorem GoesOn.step (h : GoesOn N waits a server t) (hstep : N.Step s e t)
    (he : Steady a server [e]) : GoesOn N waits a server s := by
  obtain ⟨es, u, hrun, hsteady, hu⟩ := h
  exact ⟨e :: es, u, hrun.cons hstep, steady_cons.2 ⟨he, hsteady⟩, hu⟩

section GoesOn

variable [DecidableEq A]

theorem Awaits.goesOn (hawaits : Awaits (N.Does a) waits) (hs : waits (s.state a))
    (hd : d ∈ s.flight) (htarget : d.target = a) : GoesOn N waits a server s := by
  subst htarget
  obtain ⟨x, hdoes, hx⟩ := hawaits.recv hs d.source d.payload
  obtain ⟨t, hstep, ht, -⟩ := Processes.step_recv hd hdoes
  exact ⟨_, t, .single hstep, steady_recv, ht ▸ hx⟩

theorem Serves.goesOn_answering (hserves : Serves (N.Does server) asks duty)
    (hawaits : Awaits (N.Does a) waits) (hreach : ∀ target, N.reach target = {target})
    (hne : a ≠ server) (hs : waits (s.state a))
    (hduty : duty (s.state server) = some (.answering a)) : GoesOn N waits a server s := by
  obtain ⟨payload, x, hdoes⟩ := hserves.send hduty
  obtain ⟨t, hstep, -, hother, hflight⟩ := Processes.step_call hdoes (zero_add _).symm
  have hd : ⟨server, a, payload⟩ ∈ t.flight := by
    rw [hflight, Processes.puts, hreach]
    simp
  exact (hawaits.goesOn (hother a hne ▸ hs) hd rfl).step hstep steady_send

theorem Serves.goesOn_receiving (hserves : Serves (N.Does server) asks duty)
    (hawaits : Awaits (N.Does a) waits) (hreach : ∀ target, N.reach target = {target})
    (hne : a ≠ server) (hs : waits (s.state a))
    (hduty : duty (s.state server) = some .receiving) (hd : d ∈ s.flight)
    (hsource : d.source = a) (htarget : d.target = server) (hasks : asks d.payload) :
    GoesOn N waits a server s := by
  subst hsource htarget
  obtain ⟨x, hdoes⟩ := hserves.recv hduty d.source d.payload
  obtain ⟨t, hstep, ht, hother⟩ := Processes.step_recv hd hdoes
  obtain ⟨r, hr, hduty'⟩ := hserves.step hdoes hduty
  cases hduty'
  rw [if_pos hasks, ← ht] at hr
  exact (hserves.goesOn_answering hawaits hreach hne (hother _ hne ▸ hs) hr).step hstep steady_recv

theorem Serves.goesOn (hserves : Serves (N.Does server) asks duty)
    (hawaits : Awaits (N.Does a) waits) (hreach : ∀ target, N.reach target = {target})
    (hne : a ≠ server) (hs : waits (s.state a)) (hduty : duty (s.state server) = some r)
    (h : Outstanding asks duty a server s) : GoesOn N waits a server s := by
  rcases h with ⟨d, hd, htarget⟩ | hanswering | ⟨halive, d, hd, hsource, htarget, hasks⟩
  · exact hawaits.goesOn hs hd htarget
  · exact hserves.goesOn_answering hawaits hreach hne hs hanswering
  · cases r with
    | receiving =>
      exact hserves.goesOn_receiving hawaits hreach hne hs hduty hd hsource htarget hasks
    | stopped => exact absurd hduty halive
    | answering b =>
      -- the server first answers somebody, maybe the client
      obtain ⟨payload, x, hdoes⟩ := hserves.send hduty
      obtain ⟨t, hstep, ht, hother, hflight⟩ := Processes.step_call hdoes (zero_add _).symm
      obtain ⟨r, hr, hduty'⟩ := hserves.step hdoes hduty
      cases hduty'
      rw [← ht] at hr
      have hd' : d ∈ t.flight := by
        rw [hflight]
        exact Multiset.mem_add.2 (.inl hd)
      exact (hserves.goesOn_receiving hawaits hreach hne (hother a hne ▸ hs) hr hd' hsource htarget
        hasks).step hstep steady_send

end GoesOn

/-! ### What cannot happen any more -/

/-- Where nothing is outstanding, the client that waits makes no call in a steady step. -/
theorem Awaits.no_call (hawaits : Awaits (N.Does a) waits) (hs : waits (s.state a))
    (h : ¬ Outstanding asks duty a server s) (hstep : N.Step s e t) (he : Steady a server [e])
    (action : Action A M) : e ≠ .call a action := by
  rintro rfl
  rcases hawaits.call hs hstep.1.1 with ⟨source, payload, rfl⟩ | rfl
  · exact h (.inl ⟨_, Processes.flight_of_recv hstep, rfl⟩)
  · exact he.2 List.mem_cons_self

/-- A step of a system is a step of the server, or leaves it alone. -/
theorem Serves.step_cases (hserves : Serves (N.Does server) asks duty)
    (hduty : duty (s.state server) = some r) (hstep : N.Step s e t) :
    ∃ r', duty (t.state server) = some r' ∧ (r' = r ∧ (∀ action, e ≠ .call server action) ∨
      ∃ action, e = .call server action ∧ r.Step asks action r') := by
  by_cases hcall : ∃ action, e = .call server action
  · obtain ⟨action, rfl⟩ := hcall
    obtain ⟨r', hr', hduty'⟩ := hserves.step hstep.1.1 hduty
    exact ⟨r', hr', .inr ⟨action, rfl, hduty'⟩⟩
  · have hother : ∀ action, e ≠ .call server action := fun action he => hcall ⟨action, he⟩
    exact ⟨r, by rw [Processes.state_eq hstep hother, hduty], .inl ⟨rfl, hother⟩⟩

/-- Where nothing is outstanding, a steady step leaves it so. -/
theorem Serves.not_outstanding_step (hserves : Serves (N.Does server) asks duty)
    (hawaits : Awaits (N.Does a) waits) (hreach : ∀ target, N.reach target = {target})
    (hs : waits (s.state a)) (hduty : duty (s.state server) = some r)
    (h : ¬ Outstanding asks duty a server s) (hstep : N.Step s e t) (he : Steady a server [e]) :
    ¬ Outstanding asks duty a server t := by
  have hclient := hawaits.no_call hs h hstep he
  obtain ⟨r', hr', hhow⟩ := hserves.step_cases hduty hstep
  rintro (⟨d, hd, htarget⟩ | hanswering | ⟨halive, d, hd, hsource, htarget, hasks⟩)
  · -- a datagram to the client is not a new one, as the server was not answering the client
    rcases Processes.mem_flight hstep hd with hd | ⟨target, rfl, htarget'⟩
    · exact h (.inl ⟨d, hd, htarget⟩)
    · rw [hreach, Multiset.mem_singleton] at htarget'
      obtain rfl : a = target := htarget.symm.trans htarget'
      have hsource := he.1 d.source d.payload List.mem_cons_self
      rcases hhow with ⟨-, hother⟩ | ⟨action, haction, hduty'⟩
      · exact hother (.send a d.payload) (by rw [hsource])
      · cases (Event.call.inj haction).2
        cases hduty'
        exact h (.inr (.inl hduty))
  · -- the server has not just received anything of the client that asks, as there was nothing
    rw [hr'] at hanswering
    obtain rfl := Option.some.inj hanswering
    rcases hhow with ⟨rfl, -⟩ | ⟨action, rfl, hduty'⟩
    · exact h (.inr (.inl hduty))
    · generalize hnext : Duty.answering a = next at hduty'
      cases hduty' with
      | recv source payload =>
        split at hnext
        · rename_i hasks
          obtain rfl := Duty.answering.inj hnext
          exact h (.inr (.inr ⟨by simp [hduty], _, Processes.flight_of_recv hstep, rfl, rfl,
            hasks⟩))
        · cases hnext
      | send => cases hnext
      | recvFail hstop | sendFail _ _ hstop => rcases hstop with rfl | rfl <;> cases hnext
  · -- a datagram of the client is not a new one, as the client was waiting
    have halive' : duty (s.state server) ≠ some .stopped := by
      intro hstopped
      rw [hduty] at hstopped
      obtain rfl := Option.some.inj hstopped
      rcases hhow with ⟨rfl, -⟩ | ⟨action, -, hduty'⟩
      · exact halive hr'
      · cases hduty'
    rcases Processes.mem_flight hstep hd with hd | ⟨target, hcall, -⟩
    · exact h (.inr (.inr ⟨halive', d, hd, hsource, htarget, hasks⟩))
    · exact hclient _ (hsource ▸ hcall)

/-- Where nothing is outstanding, no steady run makes the client go on. -/
theorem Serves.not_outstanding_run (hserves : Serves (N.Does server) asks duty)
    (hawaits : Awaits (N.Does a) waits) (hreach : ∀ target, N.reach target = {target})
    (hs : waits (s.state a)) (hduty : duty (s.state server) = some r)
    (h : ¬ Outstanding asks duty a server s) (hrun : Run N.Step s es t)
    (hsteady : Steady a server es) : t.state a = s.state a := by
  suffices hall : t.state a = s.state a ∧ (∃ r, duty (t.state server) = some r) ∧
      ¬ Outstanding asks duty a server t from hall.1
  induction hrun with
  | nil => exact ⟨rfl, ⟨r, hduty⟩, h⟩
  | @snoc t u es e _ hstep ih =>
    obtain ⟨hbefore, he⟩ := hsteady.of_append
    obtain ⟨ht, ⟨r, hr⟩, hnone⟩ := ih hbefore
    have hwaits : waits (t.state a) := ht.symm ▸ hs
    obtain ⟨r', hr', -⟩ := hserves.step_cases hr hstep
    have hcall := hawaits.no_call hwaits hnone hstep he
    exact ⟨(Processes.state_eq hstep hcall).trans ht, ⟨r', hr'⟩,
      hserves.not_outstanding_step hawaits hreach hwaits hr hnone hstep he⟩

/-- A client that waits stays where it is in every steady run exactly if nothing is
outstanding. -/
theorem Serves.stays_iff [DecidableEq A] (hserves : Serves (N.Does server) asks duty)
    (hawaits : Awaits (N.Does a) waits) (hreach : ∀ target, N.reach target = {target})
    (hne : a ≠ server) (hs : waits (s.state a)) (hduty : duty (s.state server) = some r) :
    (∀ es t, Run N.Step s es t → Steady a server es → t.state a = s.state a) ↔
      ¬ Outstanding asks duty a server s := by
  constructor
  · intro hstays h
    obtain ⟨es, t, hrun, hsteady, ht⟩ := hserves.goesOn hawaits hreach hne hs hduty h
    exact ht (hstays es t hrun hsteady ▸ hs)
  · exact fun h es t hrun hsteady =>
      hserves.not_outstanding_run hawaits hreach hs hduty h hrun hsteady

end LinuxNet
