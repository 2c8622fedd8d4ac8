-- SUMMARY: Participants that announce themselves by broadcast and print what they hear (14_broadcasting.c).
import LinuxNet.Base.Buffer
import LinuxNet.Base.Processes
import Mathlib.Data.Finset.Basic

/-! # Announcing oneself

Each participant has a thread that broadcasts its nickname again and again, and
one that prints what arrives. They share nothing, and neither ends. -/

namespace LinuxNet.Broadcast

/-- `MESSAGE_SIZE`. -/
def messageSize : Nat := 1024

/-- `argv[1]`. -/
structure Nickname where
  bytes : List UInt8
  isText : 0 ∉ bytes
  deriving DecidableEq

/-- What `sprintf(broadcast_message, "%s is active", nick_name)` writes before its
terminator. -/
def announcement (nickName : Nickname) : List UInt8 := nickName.bytes ++ bytesOf " is active"

/-- `broadcast_message` after `sprintf`, all of which is sent. What a longer text writes
behind the array is not sent. -/
def broadcastMessage (nickName : Nickname) : List UInt8 :=
  filled messageSize ((announcement nickName).take messageSize)

/-- The text and its terminator fit into `broadcast_message`. -/
def Nickname.Fits (nickName : Nickname) : Prop := (announcement nickName).length < messageSize

instance (nickName : Nickname) : Decidable nickName.Fits :=
  inferInstanceAs (Decidable (_ < _))

/-- What the receiver has printed, as the contents of `buffer` each time. -/
def printed (payload : List UInt8) : List (List UInt8) :=
  let receivedBytes := (payload.take messageSize).length
  if receivedBytes ≤ 0 then [] else [filled messageSize (payload.take messageSize)]

/-- Who is behind an address, and what has been printed there. -/
inductive Party
  | participant (buffers : List (List UInt8))
  | other

variable {A : Type*} {nick : A → Nickname}

/-- `BROADCAST_ADDR`, or the address of a host. -/
abbrev Address (A : Type*) := Option A

abbrev Call (A : Type*) := Action (Address A) (List UInt8)

/-- The calls of both threads of a participant. -/
inductive Does (nick : A → Nickname) : Address A → Party → Call A → Party → Prop
  | send (x : A) (buffers : List (List UInt8)) :
      Does nick (some x) (.participant buffers) (.send none (broadcastMessage (nick x)))
        (.participant buffers)
  | sendFail (x : A) (buffers : List (List UInt8)) :
      Does nick (some x) (.participant buffers) (.sendFail none (broadcastMessage (nick x)))
        (.participant buffers)
  | recv (a : Address A) (buffers : List (List UInt8)) (source : Address A)
      (payload : List UInt8) :
      Does nick a (.participant buffers) (.recv source payload)
        (.participant (buffers ++ printed payload))
  | recvFail (a : Address A) (buffers : List (List UInt8)) :
      Does nick a (.participant buffers) .recvFail (.participant buffers)
  | other (a : Address A) (call : Call A) : Does nick a .other call .other

/-- A broadcast reaches all participants, also the one who sends it. -/
def system (nick : A → Nickname) (members : Finset A) :
    Processes (Address A) (List UInt8) Party where
  Does := Does nick
  reach
    | none => members.val.map some
    | some x => {some x}

def start [DecidableEq A] (members : Finset A) : Config (Address A) (List UInt8) Party where
  state
    | some x => if x ∈ members then .participant [] else .other
    | none => .other
  flight := 0

variable {members : Finset A} {a : Address A} {x y : A} {calls : List (Call A)} {p : Party}
  {es : List (Event (Address A) (List UInt8))} {s : Config (Address A) (List UInt8) Party}
  {buffers : List (List UInt8)} {buffer payload : List UInt8} {nickName nickName' : Nickname}

/-! ## Texts -/

theorem announcement_isText (nickName : Nickname) : 0 ∉ announcement nickName := by
  intro hmem
  rcases List.mem_append.1 hmem with hmem | hmem
  · exact nickName.isText hmem
  · exact absurd hmem (by decide)

theorem announcement_injective : Function.Injective announcement := by
  intro n m h
  cases n
  cases m
  simpa [announcement] using h

theorem zero_mem_filled_iff : 0 ∈ filled messageSize (payload.take messageSize) ↔
    payload.length < messageSize ∨ 0 ∈ payload.take messageSize := by
  unfold filled
  rw [List.mem_append, List.mem_replicate, List.length_take]
  constructor
  · rintro (hmem | ⟨hne, -⟩)
    · exact .inr hmem
    · exact .inl (by omega)
  · rintro (hlt | hmem)
    · exact .inr ⟨by omega, rfl⟩
    · exact .inl hmem

/-- A text that does not fit leaves no zero in the message. -/
theorem zero_mem_broadcastMessage : 0 ∈ broadcastMessage nickName ↔ nickName.Fits := by
  rw [broadcastMessage, zero_mem_filled_iff, or_iff_left, Nickname.Fits]
  exact fun hmem => announcement_isText nickName (List.mem_of_mem_take hmem)

theorem broadcastMessage_length : (broadcastMessage nickName).length = messageSize := by
  unfold broadcastMessage filled
  rw [List.length_append, List.length_replicate, List.length_take]
  omega

theorem take_broadcastMessage :
    (broadcastMessage nickName).take messageSize = broadcastMessage nickName :=
  List.take_of_length_le broadcastMessage_length.le

/-- A message fills the buffer that it is received into. -/
theorem printed_broadcastMessage :
    printed (broadcastMessage nickName) = [broadcastMessage nickName] := by
  have hself : filled messageSize (broadcastMessage nickName) = broadcastMessage nickName := by
    rw [filled, broadcastMessage_length, Nat.sub_self, List.replicate_zero, List.append_nil]
  unfold printed
  rw [take_broadcastMessage, hself, broadcastMessage_length]
  rfl

/-- The text in the buffer ends there, and is the announcement of a participant. -/
def announces (nickName : Nickname) (buffer : List UInt8) : Bool :=
  0 ∈ buffer ∧ cString buffer = announcement nickName

theorem announces_iff : announces nickName buffer = true ↔
    0 ∈ buffer ∧ cString buffer = announcement nickName := decide_eq_true_iff

theorem announces_broadcastMessage :
    announces nickName (broadcastMessage nickName) = true ↔ nickName.Fits := by
  rw [announces_iff, zero_mem_broadcastMessage]
  refine and_iff_left_of_imp fun hfits => ?_
  rw [broadcastMessage, cString_filled, List.take_of_length_le (le_of_lt hfits),
    cString_eq_self (announcement_isText nickName)]

/-- The text gives the nickname. -/
theorem eq_of_announces (h : announces nickName' (broadcastMessage nickName) = true) :
    nickName' = nickName := by
  obtain ⟨hzero, htext⟩ := announces_iff.1 h
  have hself := announces_broadcastMessage.2 (zero_mem_broadcastMessage.1 hzero)
  exact announcement_injective (htext.symm.trans (announces_iff.1 hself).2)

/-! ## What a participant prints -/

def printedBy : Call A → List (List UInt8)
  | .recv _ payload => printed payload
  | _ => []

/-- What has been printed is what has been received. -/
theorem participant_run (h : Run ((system nick members).Does a) (.participant []) calls p) :
    p = .participant (calls.flatMap printedBy) := by
  induction h with
  | nil => rfl
  | @snoc p p' calls call _ hstep ih =>
    subst ih
    rw [List.flatMap_append]
    rcases hstep with - | - | - | - | - <;> simp [printedBy]

theorem countP_flatMap_le {β : Type*} {f : Call A → List β} {p : β → Bool} {q : Call A → Bool}
    (h : ∀ call ∈ calls, (f call).countP p ≤ (q call).toNat) :
    (calls.flatMap f).countP p ≤ calls.countP q := by
  induction calls with
  | nil => exact le_rfl
  | cons call calls ih =>
    have hhead := h call List.mem_cons_self
    have htail := ih fun call' hmem => h call' (List.mem_cons_of_mem _ hmem)
    rw [List.flatMap_cons, List.countP_append, List.countP_cons]
    cases hq : q call <;> simp only [hq, Bool.toNat_true, Bool.toNat_false] at hhead <;>
      simp only [Bool.false_eq_true, if_true, if_false] <;> omega

theorem reach_nodup (target : Address A) : ((system nick members).reach target).Nodup := by
  cases target with
  | none => exact members.nodup.map (Option.some_injective A)
  | some x => exact Multiset.nodup_singleton (some x)

variable [DecidableEq A]

/-- Nobody else sends anything. -/
def AmongMembers (members : Finset A) (es : List (Event (Address A) (List UInt8))) : Prop :=
  ∀ a target payload, .call a (.send target payload) ∈ es → ∃ x ∈ members, a = some x

theorem start_participant (hx : x ∈ members) :
    (start members).state (some x) = .participant [] := if_pos hx

/-- What a participant sends. -/
theorem message_of_send (h : Run (system nick members).Step (start members) es s)
    (hx : x ∈ members) {target : Address A}
    (hsend : .call (some x) (.send target payload) ∈ es) :
    payload = broadcastMessage (nick x) := by
  have hrun := Processes.project h (some x)
  rw [start_participant hx] at hrun
  have hall := (hrun.forall_label (I := fun p => ∃ buffers, p = .participant buffers)
    (Q := fun call => ∀ target payload, call = .send target payload →
      payload = broadcastMessage (nick x)) ?_ ⟨_, rfl⟩).2
  · exact hall _ (mem_callsOf.2 hsend) target payload rfl
  · rintro p call p' ⟨buffers, rfl⟩ hdoes
    cases hdoes with
    | send =>
      exact ⟨⟨_, rfl⟩, fun target payload hcall => (Action.send.inj hcall).2.symm⟩
    | sendFail | recv | recvFail => exact ⟨⟨_, rfl⟩, fun target payload hcall => by cases hcall⟩

/-- What arrives is a message of a participant that has sent it. -/
theorem message_of_recv (h : Run (system nick members).Step (start members) es s)
    (hamong : AmongMembers members es) {source : Address A}
    (hrecv : .call a (.recv source payload) ∈ es) :
    ∃ y ∈ members, source = some y ∧ payload = broadcastMessage (nick y) ∧
      ∃ target, .call (some y) (.send target payload) ∈ es := by
  refine (Processes.genuine (fun d => ∃ y ∈ members, d.source = some y ∧
    d.payload = broadcastMessage (nick y) ∧
      ∃ target, .call (some y) (.send target d.payload) ∈ es) h
    (fun d hd => absurd hd (Multiset.notMem_zero d)) ?_).2 a source payload hrecv
  intro b target payload hsend c _
  obtain ⟨y, hy, rfl⟩ := hamong b target payload hsend
  exact ⟨y, hy, rfl, message_of_send h hy hsend, target, hsend⟩

/-- Whatever a participant prints is the message of a participant that has sent it. It
ends inside the buffer, and is the announcement, exactly if the nickname fits, and no
other nickname is announced by it. -/
theorem printed_genuine (h : Run (system nick members).Step (start members) es s)
    (hamong : AmongMembers members es) (hx : x ∈ members) :
    ∃ buffers, s.state (some x) = .participant buffers ∧ ∀ buffer ∈ buffers,
      ∃ y ∈ members, (∃ target, .call (some y) (.send target buffer) ∈ es) ∧
        ((Access.string buffer).InArray messageSize ↔ (nick y).Fits) ∧
        (announces (nick y) buffer ↔ (nick y).Fits) ∧
        ∀ z, announces (nick z) buffer → nick z = nick y := by
  have hrun := Processes.project h (some x)
  rw [start_participant hx] at hrun
  refine ⟨_, participant_run hrun, fun buffer hbuffer => ?_⟩
  obtain ⟨call, hcall, hprinted⟩ := List.mem_flatMap.1 hbuffer
  cases call with
  | recv source payload =>
    obtain ⟨y, hy, -, rfl, hsend⟩ := message_of_recv h hamong (mem_callsOf.1 hcall)
    rw [printedBy, printed_broadcastMessage] at hprinted
    obtain rfl := List.mem_singleton.1 hprinted
    exact ⟨y, hy, hsend, zero_mem_broadcastMessage, announces_broadcastMessage,
      fun z hz => eq_of_announces hz⟩
  | send | sendFail | recvFail => cases hprinted

/-- Without copies, and if all nicknames differ, a participant prints the announcement
of another at most as often as that one has sent it. -/
theorem printed_le_sent (h : Run (system nick members).Step (start members) es s)
    (hamong : AmongMembers members es) (hcopy : CopyFree es)
    (hnick : ∀ y ∈ members, ∀ z ∈ members, nick y = nick z → y = z) (hx : x ∈ members)
    (hy : y ∈ members) : ∃ buffers, s.state (some x) = .participant buffers ∧
      buffers.countP (announces (nick y)) ≤
        (callsOf (some y) es).countP ((system nick members).sends (fun _ => true) (some x)) := by
  have hreceived : ((callsOf (some x) es).flatMap printedBy).countP (announces (nick y)) ≤
      (callsOf (some x) es).countP (Action.receives (fun _ => true) (some y)) := by
    refine countP_flatMap_le fun call hcall => ?_
    cases call with
    | recv source payload =>
      obtain ⟨z, hz, rfl, rfl, -⟩ := message_of_recv h hamong (mem_callsOf.1 hcall)
      rw [printedBy, printed_broadcastMessage]
      by_cases hyz : z = y
      · subst hyz
        simp [Action.receives, List.countP_cons]
        split <;> omega
      · have hne : announces (nick y) (broadcastMessage (nick z)) = false :=
          Bool.eq_false_iff.2 fun hannounces => hyz (hnick y hy z hz (eq_of_announces hannounces)).symm
        simp [hne]
    | send | sendFail | recvFail => exact Nat.zero_le _
  have hexchange := Processes.exchange (fun _ => true) reach_nodup h (some y) (some x)
  have hcopies := hcopy.countP_eq_zero (fun _ => true) (some y) (some x)
  have hnone : (start members).between (fun _ => true) (some y) (some x) = 0 := rfl
  have hrun := Processes.project h (some x)
  rw [start_participant hx] at hrun
  exact ⟨_, participant_run hrun, by omega⟩

/-- Whoever sends what: the prints of a participant end inside the buffer exactly if
every datagram it has received is shorter than the buffer, or has a zero in the part
of it that is stored. -/
theorem printed_inArray_iff (h : Run (system nick members).Step (start members) es s)
    (hx : x ∈ members) : ∃ buffers, s.state (some x) = .participant buffers ∧
      ((∀ buffer ∈ buffers, (Access.string buffer).InArray messageSize) ↔
        ∀ source payload, .call (some x) (.recv source payload) ∈ es →
          payload.length < messageSize ∨ 0 ∈ payload.take messageSize) := by
  have hrun := Processes.project h (some x)
  rw [start_participant hx] at hrun
  refine ⟨_, participant_run hrun, fun hall source payload hrecv => ?_, fun hall buffer hmem => ?_⟩
  · by_cases hnil : (payload.take messageSize).length ≤ 0
    · left
      rw [List.length_take] at hnil
      have hpos : 0 < messageSize := by decide
      omega
    · have hprinted : printed payload = [filled messageSize (payload.take messageSize)] :=
        if_neg hnil
      refine zero_mem_filled_iff.1 (hall _ (List.mem_flatMap.2 ⟨_, mem_callsOf.2 hrecv, ?_⟩))
      rw [printedBy, hprinted]
      exact List.mem_singleton_self _
  · obtain ⟨call, hcall, hprinted⟩ := List.mem_flatMap.1 hmem
    cases call with
    | recv source payload =>
      rw [printedBy, printed] at hprinted
      split at hprinted
      · cases hprinted
      · obtain rfl := List.mem_singleton.1 hprinted
        exact zero_mem_filled_iff.2 (hall source payload (mem_callsOf.1 hcall))
    | send | sendFail | recvFail => cases hprinted

/-! ## Two participants -/

def twoNames : Bool → Nickname
  | true => ⟨bytesOf "alice", by decide⟩
  | false => ⟨bytesOf "bob", by decide⟩

def both : Finset Bool := {true, false}

/-- The second one hears of the first. -/
def heard : List (Event (Address Bool) (List UInt8)) :=
  [.call (some true) (.send none (broadcastMessage (twoNames true))),
    .call (some false) (.recv (some true) (broadcastMessage (twoNames true)))]

theorem heard_run : ∃ s, Run (system twoNames both).Step (start both) heard s ∧
    s.state (some false) = .participant [broadcastMessage (twoNames true)] := by
  have hdoes : (system twoNames both).Does (some true) ((start both).state (some true))
      (.send none (broadcastMessage (twoNames true))) (.participant []) := by
    rw [start_participant (by decide)]
    exact .send true []
  obtain ⟨s₁, hsend, -, hother, hflight⟩ := Processes.step_call hdoes (zero_add 0).symm
  have hd : ⟨some true, some false, broadcastMessage (twoNames true)⟩ ∈ s₁.flight := by
    rw [hflight, Processes.puts]
    have hreach : some false ∈ (system twoNames both).reach none :=
      Multiset.mem_map_of_mem some (show false ∈ both.val by decide)
    exact Multiset.mem_add.2 (.inr (Multiset.mem_map.2 ⟨some false, hreach, rfl⟩))
  have hdoes₂ : (system twoNames both).Does (some false) (s₁.state (some false))
      (.recv (some true) (broadcastMessage (twoNames true)))
      (.participant ([] ++ printed (broadcastMessage (twoNames true)))) := by
    rw [hother (some false) (by decide), start_participant (by decide)]
    exact .recv _ _ _ _
  obtain ⟨s₂, hrecv, hstate, -⟩ := Processes.step_recv hd hdoes₂
  rw [printed_broadcastMessage] at hstate
  exact ⟨s₂, (Run.single hsend).snoc hrecv, hstate⟩

theorem among_heard : AmongMembers both heard := by
  intro a target payload hmem
  simp only [heard, List.mem_cons, List.not_mem_nil, or_false, Event.call.injEq, reduceCtorEq,
    and_false] at hmem
  exact ⟨true, by decide, hmem.1⟩

theorem twoNames_fits (x : Bool) : (twoNames x).Fits := by
  cases x <;> decide

/-- The second one prints that the first one is active. -/
theorem printed_genuine_heard : ∃ s, Run (system twoNames both).Step (start both) heard s ∧
    ∃ buffer, s.state (some false) = .participant [buffer] ∧
      (Access.string buffer).InArray messageSize ∧ announces (twoNames true) buffer := by
  obtain ⟨s, hrun, hstate⟩ := heard_run
  obtain ⟨buffers, hbuffers, hall⟩ := printed_genuine hrun among_heard (x := false) (by decide)
  obtain rfl := Party.participant.inj (hstate.symm.trans hbuffers)
  obtain ⟨y, -, -, harray, hannounces, hname⟩ := hall _ (List.mem_singleton_self _)
  have hy := hname true (announces_broadcastMessage.2 (twoNames_fits true))
  exact ⟨s, hrun, _, hstate, harray.2 (twoNames_fits y), hy ▸ hannounces.2 (twoNames_fits y)⟩

theorem printed_le_sent_heard : ∃ s, Run (system twoNames both).Step (start both) heard s ∧
    ∃ buffers, s.state (some false) = .participant buffers ∧
      buffers.countP (announces (twoNames true)) = 1 ∧
      1 ≤ (callsOf (some true) heard).countP
        ((system twoNames both).sends (fun _ => true) (some false)) := by
  obtain ⟨s, hrun, hstate⟩ := heard_run
  obtain ⟨buffers, hbuffers, hle⟩ := printed_le_sent hrun among_heard (by simp [CopyFree, heard])
    (by decide) (x := false) (y := true) (by decide) (by decide)
  obtain rfl := Party.participant.inj (hstate.symm.trans hbuffers)
  have hone : [broadcastMessage (twoNames true)].countP (announces (twoNames true)) = 1 :=
    List.countP_singleton.trans (if_pos (announces_broadcastMessage.2 (twoNames_fits true)))
  exact ⟨s, hrun, _, hstate, hone, hone ▸ hle⟩

/-- The message that the second one has received has a zero in it. -/
theorem printed_inArray_heard : ∃ s, Run (system twoNames both).Step (start both) heard s ∧
    ∃ buffer, s.state (some false) = .participant [buffer] ∧
      (Access.string buffer).InArray messageSize := by
  obtain ⟨s, hrun, hstate⟩ := heard_run
  obtain ⟨buffers, hbuffers, hiff⟩ := printed_inArray_iff hrun (x := false) (by decide)
  obtain rfl := Party.participant.inj (hstate.symm.trans hbuffers)
  refine ⟨s, hrun, _, hstate, hiff.2 (fun source payload hmem => ?_) _ (List.mem_singleton_self _)⟩
  obtain rfl : payload = broadcastMessage (twoNames true) := by
    simp only [heard, List.mem_cons, List.not_mem_nil, or_false, Event.call.injEq, reduceCtorEq,
      and_false, false_or, Action.recv.injEq] at hmem
    exact hmem.2.2
  rw [take_broadcastMessage]
  exact .inr (zero_mem_broadcastMessage.2 (twoNames_fits true))

end LinuxNet.Broadcast
