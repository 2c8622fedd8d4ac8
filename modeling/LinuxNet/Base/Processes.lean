-- SUMMARY: Processes that exchange datagrams over a network that loses, copies and reorders them: the part of one process in a run, and what arrives against what is sent.
import LinuxNet.Base.Transition
import Mathlib.Algebra.BigOperators.Group.List.Basic
import Mathlib.Algebra.Order.Group.Multiset
import Mathlib.Tactic.Abel

/-! # Processes and datagrams

A process is known by its calls on a socket, in the order in which it makes
them. Between the sockets are the datagrams in flight. The network hands them
over in any order; it may also lose one, or make a copy of it. -/

namespace LinuxNet

/-- A datagram in flight to one socket. -/
structure Datagram (A M : Type*) where
  source : A
  target : A
  payload : M
  deriving DecidableEq, Repr

/-- A call on a socket, with what comes of it. -/
inductive Action (A M : Type*)
  | send (target : A) (payload : M)
  | sendFail (target : A) (payload : M)
  | recv (source : A) (payload : M)
  | recvFail
  deriving DecidableEq, Repr

/-- What happens next: a process makes a call, or the network does something. -/
inductive Event (A M : Type*)
  | call (a : A) (action : Action A M)
  | lose (d : Datagram A M)
  | copy (d : Datagram A M)
  deriving DecidableEq, Repr

/-- The processes behind the addresses, and the sockets that an address reaches. -/
structure Processes (A M S : Type*) where
  Does : A → S → Action A M → S → Prop
  reach : A → Multiset A

/-- The states of the processes, and the datagrams in flight. -/
structure Config (A M S : Type*) where
  state : A → S
  flight : Multiset (Datagram A M)

variable {A M S : Type*}

/-- What an event takes from the datagrams in flight. -/
def Event.takes : Event A M → Multiset (Datagram A M)
  | .call a (.recv source payload) => {⟨source, a, payload⟩}
  | .call _ _ => 0
  | .lose d => {d}
  | .copy d => {d}

namespace Processes

variable (N : Processes A M S)

/-- What an event adds to the datagrams in flight. -/
def puts : Event A M → Multiset (Datagram A M)
  | .call a (.send target payload) => (N.reach target).map fun b => ⟨a, b, payload⟩
  | .call _ _ => 0
  | .lose _ => 0
  | .copy d => {d, d}

/-- The process that makes the call changes its state, and no other does. -/
def Moves (s : Config A M S) (e : Event A M) (t : Config A M S) : Prop :=
  match e with
  | .call a action => N.Does a (s.state a) action (t.state a) ∧ ∀ b, b ≠ a → t.state b = s.state b
  | .lose _ | .copy _ => t.state = s.state

def Step (s : Config A M S) (e : Event A M) (t : Config A M S) : Prop :=
  N.Moves s e t ∧ ∃ rest, s.flight = e.takes + rest ∧ t.flight = rest + N.puts e

end Processes

/-- The calls of one process. -/
def callsOf [DecidableEq A] (a : A) (es : List (Event A M)) : List (Action A M) :=
  es.filterMap fun
    | .call b action => if b = a then some action else none
    | _ => none

/-- The network has made no copies. -/
def CopyFree (es : List (Event A M)) : Prop := ∀ d, Event.copy d ∉ es

variable {N : Processes A M S} {s t : Config A M S} {e : Event A M} {es : List (Event A M)}
  {a b : A} {d : Datagram A M}

/-! ## One process in a run -/

section Local

variable [DecidableEq A]

theorem callsOf_append (a : A) (es es' : List (Event A M)) :
    callsOf a (es ++ es') = callsOf a es ++ callsOf a es' :=
  List.filterMap_append

@[simp] theorem callsOf_nil (a : A) : callsOf a ([] : List (Event A M)) = [] := rfl

@[simp] theorem callsOf_call (a b : A) (action : Action A M) :
    callsOf a [Event.call b action] = if b = a then [action] else [] := by
  by_cases h : b = a <;> simp [callsOf, h]

@[simp] theorem callsOf_lose (a : A) (d : Datagram A M) : callsOf a [Event.lose d] = [] := rfl

@[simp] theorem callsOf_copy (a : A) (d : Datagram A M) : callsOf a [Event.copy d] = [] := rfl

theorem mem_callsOf {action : Action A M} : action ∈ callsOf a es ↔ .call a action ∈ es := by
  simp only [callsOf, List.mem_filterMap]
  constructor
  · rintro ⟨e, he, hcall⟩
    cases e with
    | call b action' =>
      obtain ⟨rfl, haction⟩ := Option.ite_none_right_eq_some.1 hcall
      exact Option.some.inj haction ▸ he
    | lose d | copy d => cases hcall
  · exact fun h => ⟨_, h, if_pos rfl⟩

/-- The calls of one process in a run are a run of this process on its own. -/
theorem Processes.project (h : Run N.Step s es t) (a : A) :
    Run (N.Does a) (s.state a) (callsOf a es) (t.state a) := by
  induction h with
  | nil => exact .nil
  | @snoc t u es e _ hstep ih =>
    rw [callsOf_append]
    obtain ⟨hmoves, -⟩ := hstep
    cases e with
    | call b action =>
      by_cases hb : b = a
      · subst hb
        rw [callsOf_call, if_pos rfl]
        exact .snoc ih hmoves.1
      · rw [callsOf_call, if_neg hb, List.append_nil, hmoves.2 a (Ne.symm hb)]
        exact ih
    | lose d | copy d =>
      rw [show u.state = t.state from hmoves]
      simpa using ih

end Local

/-- A process makes a call that it can make. -/
theorem Processes.step_call [DecidableEq A] {action : Action A M} {x : S}
    {rest : Multiset (Datagram A M)} (hdoes : N.Does a (s.state a) action x)
    (hflight : s.flight = (Event.call a action).takes + rest) :
    ∃ t, N.Step s (.call a action) t ∧ t.state a = x ∧ (∀ b, b ≠ a → t.state b = s.state b) ∧
      t.flight = rest + N.puts (.call a action) := by
  have hself : Function.update s.state a x a = x := by rw [Function.update_self]
  have hne : ∀ b, b ≠ a → Function.update s.state a x b = s.state b := fun b hb => by
    rw [Function.update_of_ne hb]
  refine ⟨⟨Function.update s.state a x, _⟩, ⟨⟨?_, hne⟩, rest, hflight, rfl⟩, hself, hne, rfl⟩
  dsimp only
  rw [hself]
  exact hdoes

/-- A process receives a datagram that is in flight to it. -/
theorem Processes.step_recv [DecidableEq A] {x : S} (hd : d ∈ s.flight)
    (hdoes : N.Does d.target (s.state d.target) (.recv d.source d.payload) x) :
    ∃ t, N.Step s (.call d.target (.recv d.source d.payload)) t ∧ t.state d.target = x ∧
      ∀ b, b ≠ d.target → t.state b = s.state b := by
  obtain ⟨rest, hrest⟩ := Multiset.exists_cons_of_mem hd
  rw [← Multiset.singleton_add] at hrest
  obtain ⟨t, hstep, hself, hne, -⟩ := N.step_call hdoes hrest
  exact ⟨t, hstep, hself, hne⟩

/-- The network loses a datagram. -/
theorem Processes.step_lose (hd : d ∈ s.flight) : ∃ t, N.Step s (.lose d) t ∧
    t.state = s.state ∧ s.flight = {d} + t.flight := by
  obtain ⟨rest, hrest⟩ := Multiset.exists_cons_of_mem hd
  rw [← Multiset.singleton_add] at hrest
  exact ⟨⟨s.state, rest⟩, ⟨rfl, rest, hrest, (add_zero _).symm⟩, rfl, hrest⟩

/-! ## What is in flight -/

namespace Processes

/-- What is in flight after a step has been so before, or has just been sent. -/
theorem mem_flight (h : N.Step s e t) (hd : d ∈ t.flight) :
    d ∈ s.flight ∨ ∃ target, e = .call d.source (.send target d.payload) ∧
      d.target ∈ N.reach target := by
  obtain ⟨-, rest, htakes, hputs⟩ := h
  rw [hputs, Multiset.mem_add] at hd
  rcases hd with hd | hd
  · exact .inl (htakes ▸ Multiset.mem_add.2 (.inr hd))
  · cases e with
    | call a action =>
      cases action with
      | send target payload =>
        obtain ⟨b, hb, rfl⟩ := Multiset.mem_map.1 hd
        exact .inr ⟨target, rfl, hb⟩
      | sendFail | recv | recvFail => exact absurd hd (Multiset.notMem_zero d)
    | lose d' => exact absurd hd (Multiset.notMem_zero d)
    | copy d' =>
      have hd' : d = d' := by simpa [puts] using hd
      exact .inl (htakes ▸ Multiset.mem_add.2 (.inl (hd' ▸ Multiset.mem_singleton_self d')))

/-- What is received has been in flight. -/
theorem flight_of_recv {payload : M} (h : N.Step s (.call b (.recv a payload)) t) :
    ⟨a, b, payload⟩ ∈ s.flight := by
  obtain ⟨-, rest, htakes, -⟩ := h
  rw [htakes]
  exact Multiset.mem_add.2 (.inl (Multiset.mem_singleton_self _))

/-- A process changes its state by its own calls only. -/
theorem state_eq (h : N.Step s e t) (he : ∀ action, e ≠ .call a action) :
    t.state a = s.state a := by
  obtain ⟨hmoves, -⟩ := h
  cases e with
  | call b action => exact hmoves.2 a fun hab => he action (hab ▸ rfl)
  | lose d | copy d => exact congrFun hmoves a

/-- What holds of the datagrams in flight at the start, and of what is sent, holds
of whatever is in flight, and of whatever is received. -/
theorem genuine (Q : Datagram A M → Prop) (h : Run N.Step s es t) (hs : ∀ d ∈ s.flight, Q d)
    (hsent : ∀ a target payload, .call a (.send target payload) ∈ es →
      ∀ b ∈ N.reach target, Q ⟨a, b, payload⟩) :
    (∀ d ∈ t.flight, Q d) ∧ ∀ b source payload, .call b (.recv source payload) ∈ es →
      Q ⟨source, b, payload⟩ := by
  induction h with
  | nil => exact ⟨hs, fun _ _ _ hmem => absurd hmem List.not_mem_nil⟩
  | @snoc t u es e _ hstep ih =>
    obtain ⟨hflight, hrecv⟩ := ih fun a target payload hmem =>
      hsent a target payload (List.mem_append_left _ hmem)
    refine ⟨fun d hd => ?_, fun b source payload hmem => ?_⟩
    · rcases mem_flight hstep hd with hd | ⟨target, rfl, htarget⟩
      · exact hflight d hd
      · exact hsent _ target _ (List.mem_append_right _ (List.mem_singleton_self _)) _ htarget
    · rcases List.mem_append.1 hmem with hmem | hmem
      · exact hrecv b source payload hmem
      · obtain rfl := List.mem_singleton.1 hmem
        exact hflight _ (flight_of_recv hstep)

end Processes

/-! ## What one process receives from another -/

section Exchange

variable [DecidableEq A] (p : M → Bool)

/-- The call sends a payload of a kind, and the address is reached. -/
def Processes.sends (N : Processes A M S) (b : A) : Action A M → Bool
  | .send target payload => b ∈ N.reach target && p payload
  | _ => false

/-- The call receives a payload of a kind from an address. -/
def Action.receives (a : A) : Action A M → Bool
  | .recv source payload => source = a && p payload
  | _ => false

/-- A datagram from one address to another, with a payload of a kind. -/
def Datagram.between (a b : A) (d : Datagram A M) : Bool :=
  d.source = a && d.target = b && p d.payload

/-- The network loses such a datagram. -/
def Event.loses (a b : A) : Event A M → Bool
  | .lose d => d.between p a b
  | _ => false

/-- The network copies such a datagram. -/
def Event.copies (a b : A) : Event A M → Bool
  | .copy d => d.between p a b
  | _ => false

/-- The number of such datagrams in flight. -/
def Config.between (a b : A) (s : Config A M S) : Nat :=
  s.flight.countP fun d => d.between p a b

theorem CopyFree.countP_eq_zero (h : CopyFree es) (a b : A) :
    es.countP (Event.copies p a b) = 0 := by
  refine List.countP_eq_zero.2 fun e he hcopies => ?_
  cases e with
  | copy d => exact h d he
  | call | lose => cases hcopies

/-- A datagram that is sent reaches an address once, or not. -/
theorem Processes.puts_send (hreach : ∀ target, (N.reach target).Nodup) (c target : A)
    (payload : M) :
    (N.puts (.call c (.send target payload))).countP (fun d => d.between p a b) =
      if c = a ∧ b ∈ N.reach target ∧ p payload then 1 else 0 := by
  rw [Processes.puts, Multiset.countP_map]
  split
  · rename_i h
    obtain ⟨rfl, hb, hp⟩ := h
    have hone := Multiset.count_eq_one_of_mem (hreach target) hb
    rw [Multiset.count, Multiset.countP_eq_card_filter] at hone
    simpa [Datagram.between, hp, eq_comm] using hone
  · rename_i h
    rw [Multiset.card_eq_zero, Multiset.filter_eq_nil]
    intro b' hb' hbetween
    simp only [Datagram.between, Bool.and_eq_true, decide_eq_true_eq] at hbetween
    obtain ⟨⟨rfl, rfl⟩, hp⟩ := hbetween
    exact h ⟨rfl, hb', hp⟩

theorem Datagram.countP_singleton (a b : A) (d : Datagram A M) :
    ({d} : Multiset (Datagram A M)).countP (fun d => d.between p a b) =
      if d.between p a b then 1 else 0 := by
  rw [← Multiset.cons_zero, Multiset.countP_cons, Multiset.countP_zero, Nat.zero_add]

/-- One event, for the datagrams of a kind between two addresses. -/
theorem Processes.exchange_event (hreach : ∀ target, (N.reach target).Nodup)
    (e : Event A M) (a b : A) :
    (callsOf a [e]).countP (N.sends p b) + [e].countP (Event.copies p a b) +
        e.takes.countP (fun d => d.between p a b) =
      (callsOf b [e]).countP (Action.receives p a) + [e].countP (Event.loses p a b) +
        (N.puts e).countP (fun d => d.between p a b) := by
  cases e with
  | lose d =>
    rw [Event.takes, Datagram.countP_singleton]
    cases hd : d.between p a b <;> simp [hd, puts, Event.loses, Event.copies]
  | copy d =>
    have hputs : N.puts (.copy d) = {d} + {d} := rfl
    rw [hputs, Multiset.countP_add, Event.takes, Datagram.countP_singleton]
    cases hd : d.between p a b <;> simp [hd, Event.loses, Event.copies]
  | call c action =>
    cases action with
    | send target payload =>
      rw [N.puts_send p hreach]
      by_cases hc : c = a <;>
        simp [hc, Event.takes, Event.loses, Event.copies, sends, List.countP_cons, apply_ite,
          Action.receives]
    | recv source payload =>
      rw [Event.takes, Datagram.countP_singleton]
      by_cases hc : c = b <;>
        simp [hc, puts, Event.loses, Event.copies, sends, List.countP_cons, apply_ite,
          Action.receives, Datagram.between]
    | sendFail target payload =>
      simp [Event.takes, puts, Event.loses, Event.copies, sends, apply_ite, Action.receives]
    | recvFail =>
      simp [Event.takes, puts, Event.loses, Event.copies, sends, apply_ite, Action.receives]

/-- Of what one process sends to another, and the copies, each datagram has been
received or lost, or it is in flight. -/
theorem Processes.exchange (hreach : ∀ target, (N.reach target).Nodup)
    (h : Run N.Step s es t) (a b : A) :
    s.between p a b + (callsOf a es).countP (N.sends p b) + es.countP (Event.copies p a b) =
      (callsOf b es).countP (Action.receives p a) + es.countP (Event.loses p a b) +
        t.between p a b := by
  induction h with
  | nil => simp
  | @snoc t u es e _ hstep ih =>
    have hone := N.exchange_event p hreach e a b
    obtain ⟨-, rest, htakes, hputs⟩ := hstep
    have ht : t.between p a b = e.takes.countP (fun d => d.between p a b) +
        rest.countP fun d => d.between p a b := by
      rw [Config.between, htakes, Multiset.countP_add]
    have hu : u.between p a b = rest.countP (fun d => d.between p a b) +
        (N.puts e).countP fun d => d.between p a b := by
      rw [Config.between, hputs, Multiset.countP_add]
    simp only [callsOf_append, List.countP_append]
    omega

end Exchange

end LinuxNet
