-- SUMMARY: Loops that send a whole message in parts, and that receive into a buffer until nothing is left.
import LinuxNet.Base.Buffer
import LinuxNet.Base.Loop

/-! # Partial sends and receives

A call may transfer less than it is asked to, so a program repeats it for what is
left. How the kernel answers the calls, in their order, is a parameter. -/

namespace LinuxNet

/-- The result of a `send` of `size` bytes. -/
inductive PartialSend (size : Nat)
  | fail (errno : Errno)
  | sent (n : Nat) (h : n ≤ size)

/-- The value the call returns. -/
def PartialSend.rc {size : Nat} : PartialSend size → Int
  | .fail _ => -1
  | .sent n _ => n

/-- How the calls of `send` are answered. -/
abbrev SendSchedule := Nat → (size : Nat) → PartialSend size

/-- How the calls of `recv` are answered. -/
abbrev RecvSchedule := Nat → (cap : Nat) → RecvResult cap

/-- A `send`: the bytes it was asked to send, and its result. -/
structure SendCall where
  offered : List UInt8
  rc : Int
  deriving DecidableEq, Repr

/-- The bytes the kernel has taken. -/
def SendCall.taken (c : SendCall) : List UInt8 := c.offered.take c.rc.toNat

/-- The bytes handed to the kernel, in order. -/
def handed (sends : List SendCall) : List UInt8 := sends.flatMap SendCall.taken

theorem handed_append (sends sends' : List SendCall) :
    handed (sends ++ sends') = handed sends ++ handed sends' := List.flatMap_append

theorem PartialSend.rc_le {size : Nat} (r : PartialSend size) : r.rc.toNat ≤ size := by
  cases r with
  | fail e => exact Nat.zero_le size
  | sent n h => exact h

/-! ## Sending -/

/-- The sends so far, and how many bytes they have sent. -/
structure Sending where
  sends : List SendCall
  count : Nat
  deriving DecidableEq, Repr

/-- A round of `while (count < length) { rc = send(request + count, length - count); .. }`,
where some results stop the loop, all negative ones among them. The result says
whether one of these did. -/
def sendRound (stops : Int → Bool) (kernel : SendSchedule) (request : List UInt8)
    (s : Sending) : Sending ⊕ Sending × Bool :=
  if s.count < request.length then
    let offered := request.drop s.count
    let rc := (kernel s.sends.length offered.length).rc
    let sends := s.sends ++ [⟨offered, rc⟩]
    if stops rc then .inr (⟨sends, s.count⟩, true)
    else .inl ⟨sends, s.count + rc.toNat⟩
  else .inr (s, false)

/-- What has been handed over is the request up to `count`. -/
structure Sending.Inside (request : List UInt8) (s : Sending) : Prop where
  count_le : s.count ≤ request.length
  handed_eq : handed s.sends = request.take s.count

variable {stops : Int → Bool} {kernel : SendSchedule} {request : List UInt8} {s s' : Sending}
  {stopped : Bool} {fuel : Nat}

theorem Sending.inside_start : (⟨[], 0⟩ : Sending).Inside request := ⟨Nat.zero_le _, rfl⟩

theorem Sending.Inside.handed_isPrefix (hs : s.Inside request) : handed s.sends <+: request := by
  rw [hs.handed_eq]
  exact List.take_prefix _ _

/-- All of the request has been handed over once all of it has been counted. -/
theorem Sending.Inside.handed_eq_iff (hs : s.Inside request) :
    handed s.sends = request ↔ ¬ s.count < request.length := by
  rw [hs.handed_eq, List.take_eq_self_iff, not_lt]

/-- One more send. -/
theorem Sending.Inside.send (hs : s.Inside request) (hlt : s.count < request.length)
    (r : PartialSend (request.drop s.count).length) :
    (⟨s.sends ++ [⟨request.drop s.count, r.rc⟩], s.count + r.rc.toNat⟩ : Sending).Inside
      request where
  count_le := by
    have hle := r.rc_le.trans_eq List.length_drop
    dsimp only
    omega
  handed_eq := by
    rw [handed_append, hs.handed_eq, List.take_add]
    simp [handed, SendCall.taken]

theorem Sending.Inside.next (hs : s.Inside request)
    (h : sendRound stops kernel request s = .inl s') : s'.Inside request := by
  unfold sendRound at h
  split at h
  · dsimp only at h
    split at h
    · cases h
    · cases h
      exact hs.send ‹_› _
  · cases h

/-- The loop stops on a failure with a part of the request, and otherwise ends with
all of it. -/
theorem Sending.Inside.ends (hs : s.Inside request) (hstops : ∀ rc, stops rc = true → rc ≤ 0)
    (h : sendRound stops kernel request s = .inr (s', stopped)) :
    s'.Inside request ∧ stopped = decide (s'.count < request.length) := by
  unfold sendRound at h
  split at h
  · rename_i hlt
    dsimp only at h
    split at h
    · rename_i hrc
      cases h
      have hsend := hs.send hlt (kernel s.sends.length (request.drop s.count).length)
      have hzero := Int.toNat_eq_zero.2 (hstops _ hrc)
      rw [hzero, Nat.add_zero] at hsend
      exact ⟨hsend, (decide_eq_true hlt).symm⟩
    · cases h
  · cases h
    exact ⟨hs, (decide_eq_false ‹_›).symm⟩

theorem sendLoop_spec (hstops : ∀ rc, stops rc = true → rc ≤ 0)
    (h : loop (sendRound stops kernel request) fuel ⟨[], 0⟩ = some (s, stopped)) :
    s.Inside request ∧ stopped = decide (s.count < request.length) :=
  loop_rule (I := Sending.Inside request) (Q := fun r => r.1.Inside request ∧
      r.2 = decide (r.1.count < request.length))
    (fun _ _ hs hround => hs.next hround) (fun _ _ hs hround => hs.ends hstops hround)
    Sending.inside_start h

/-- The loop ends if every send either stops it or takes something. -/
theorem sendLoop_ends (stops : Int → Bool) (kernel : SendSchedule)
    (hprogress : ∀ k size, 0 < size → stops (kernel k size).rc = false → 0 < (kernel k size).rc)
    (hfuel : request.length < fuel) :
    ∃ r, loop (sendRound stops kernel request) fuel ⟨[], 0⟩ = some r := by
  refine loop_ends (I := fun _ => True) (m := fun s => request.length - s.count)
    (fun s s' _ h => ⟨trivial, ?_⟩) trivial (by simpa using hfuel)
  unfold sendRound at h
  split at h
  · rename_i hlt
    dsimp only at h
    split at h
    · cases h
    · rename_i hrc
      cases h
      have hpos := hprogress s.sends.length (request.drop s.count).length
        (by rw [List.length_drop]; omega) (Bool.eq_false_iff.2 hrc)
      dsimp only
      omega
  · cases h

/-- A send that takes all of the request is the only one. -/
theorem sendLoop_once (hpos : 0 < request.length) (hstops : stops request.length = false)
    (hall : (kernel 0 request.length).rc = request.length) :
    loop (sendRound stops kernel request) (fuel + 2) ⟨[], 0⟩ =
      some (⟨[⟨request, request.length⟩], request.length⟩, false) := by
  have hrc : (kernel 0 (request.drop 0).length).rc = request.length := hall
  have hfirst : sendRound stops kernel request ⟨[], 0⟩ =
      .inl ⟨[⟨request, request.length⟩], request.length⟩ := by
    simp [sendRound, if_pos hpos, hrc, hstops]
  exact (loop_inl hfirst).trans (loop_inr (if_neg (lt_irrefl _)))

/-- A send stays in the list of sends. -/
theorem sendLoop_keeps {c : SendCall} {s₀ : Sending} (hc : c ∈ s₀.sends)
    (h : loop (sendRound stops kernel request) fuel s₀ = some (s, stopped)) : c ∈ s.sends := by
  refine loop_rule (I := fun s => c ∈ s.sends) (Q := fun r => c ∈ r.1.sends) ?_ ?_ hc h
  · intro s s' hs hround
    unfold sendRound at hround
    split at hround
    · dsimp only at hround
      split at hround
      · cases hround
      · cases hround
        exact List.mem_append_left _ hs
    · cases hround
  · intro s r hs hround
    unfold sendRound at hround
    split at hround
    · dsimp only at hround
      split at hround
      · cases hround
        exact List.mem_append_left _ hs
      · cases hround
    · cases hround
      exact hs

/-- The send that a round makes is among the sends. -/
theorem sendLoop_mem {s₀ : Sending}
    (h : loop (sendRound stops kernel request) fuel s₀ = some (s, stopped))
    (hlt : s₀.count < request.length) :
    ⟨request.drop s₀.count,
      (kernel s₀.sends.length (request.drop s₀.count).length).rc⟩ ∈ s.sends := by
  cases fuel with
  | zero => cases h
  | succ fuel =>
    cases hround : sendRound stops kernel request s₀ with
    | inl s₁ =>
      rw [loop_inl hround] at h
      refine sendLoop_keeps ?_ h
      simp only [sendRound, if_pos hlt] at hround
      split at hround
      · cases hround
      · cases hround
        simp
    | inr r =>
      rw [loop_inr hround] at h
      cases h
      simp only [sendRound, if_pos hlt] at hround
      split at hround
      · cases hround
        simp
      · cases hround

/-! ## Receiving -/

/-- A buffer after `bytes` have been stored at an offset. -/
def storeAt (buffer : List UInt8) (offset : Nat) (bytes : List UInt8) : List UInt8 :=
  buffer.take offset ++ bytes ++ buffer.drop (offset + bytes.length)

/-- The buffer, how many bytes of it have been received, and the bytes of each receive. -/
structure Receiving where
  buffer : List UInt8
  count : Nat
  chunks : List (List UInt8)
  deriving DecidableEq, Repr

/-- A zeroed buffer. -/
def Receiving.start (size : Nat) : Receiving := ⟨List.replicate size 0, 0, []⟩

/-- A round of `while ((rc = recv(buffer + count, size - count)) > 0) { count += rc; }`. -/
def recvRound (size : Nat) (kernel : RecvSchedule) (s : Receiving) : Receiving ⊕ Receiving :=
  let bytes := (kernel s.chunks.length (size - s.count)).bytes
  if bytes = [] then .inr s
  else .inl ⟨storeAt s.buffer s.count bytes, s.count + bytes.length, s.chunks ++ [bytes]⟩

/-- The buffer holds what has been received, one receive behind the other, and zeros
after that. -/
structure Receiving.Holds (size : Nat) (s : Receiving) : Prop where
  count_le : s.count ≤ size
  count_eq : s.count = s.chunks.flatten.length
  buffer_eq : s.buffer = filled size s.chunks.flatten

variable {size : Nat} {recv : RecvSchedule} {t t' : Receiving} {bytes received : List UInt8}

theorem storeAt_zero (buffer bytes : List UInt8) :
    storeAt buffer 0 bytes = bytes ++ buffer.drop bytes.length := by
  rw [storeAt, List.take_zero, List.nil_append, Nat.zero_add]

theorem storeAt_length {buffer : List UInt8} {offset : Nat}
    (h : offset + bytes.length ≤ buffer.length) :
    (storeAt buffer offset bytes).length = buffer.length := by
  simp only [storeAt, List.length_append, List.length_take, List.length_drop]
  omega

theorem storeAt_filled (h : received.length + bytes.length ≤ size) :
    storeAt (filled size received) received.length bytes = filled size (received ++ bytes) := by
  have hdrop : (filled size received).drop (received.length + bytes.length) =
      List.replicate (size - (received ++ bytes).length) 0 := by
    rw [filled, List.drop_append, List.drop_replicate, List.length_append]
    have hall : received.drop (received.length + bytes.length) = [] :=
      List.drop_eq_nil_of_le (Nat.le_add_right _ _)
    rw [hall, List.nil_append]
    congr 1
    omega
  rw [storeAt, hdrop, filled, List.take_left, filled]

theorem RecvResult.bytes_length_le {cap : Nat} (r : RecvResult cap) : r.bytes.length ≤ cap := by
  cases r with
  | fail e => exact Nat.zero_le cap
  | data bytes h => exact h

theorem Receiving.holds_start : (Receiving.start size).Holds size :=
  ⟨Nat.zero_le _, rfl, rfl⟩

theorem Receiving.Holds.next (h : t.Holds size) (hround : recvRound size recv t = .inl t') :
    t'.Holds size ∧ t.count < t'.count := by
  unfold recvRound at hround
  dsimp only at hround
  split at hround
  · cases hround
  · rename_i hne
    cases hround
    have hle := (recv t.chunks.length (size - t.count)).bytes_length_le
    have hpos := List.length_pos_iff.2 hne
    have hcount := h.count_le
    refine ⟨⟨?_, ?_, ?_⟩, ?_⟩
    · dsimp only
      omega
    · rw [List.flatten_concat, List.length_append, ← h.count_eq]
    · rw [List.flatten_concat, h.buffer_eq, h.count_eq]
      exact storeAt_filled (by rw [← h.count_eq]; omega)
    · dsimp only
      omega

theorem Receiving.Holds.ends (h : t.Holds size) (hround : recvRound size recv t = .inr t') :
    t'.Holds size := by
  unfold recvRound at hround
  dsimp only at hround
  split at hround
  · cases hround
    exact h
  · cases hround

theorem recvLoop_spec (h : loop (recvRound size recv) fuel (.start size) = some t) :
    t.Holds size :=
  loop_rule (I := Receiving.Holds size) (fun _ _ ht hround => (ht.next hround).1)
    (fun _ _ ht hround => ht.ends hround) Receiving.holds_start h

/-- The loop ends, as a receive into a full buffer stores nothing. -/
theorem recvLoop_ends (recv : RecvSchedule) (hfuel : size < fuel) :
    ∃ t, loop (recvRound size recv) fuel (.start size) = some t := by
  refine loop_ends (I := Receiving.Holds size) (m := fun t => size - t.count)
    (fun t t' ht hround => ?_) Receiving.holds_start hfuel
  obtain ⟨ht', hlt⟩ := ht.next hround
  have hle := ht'.count_le
  exact ⟨ht', by omega⟩

end LinuxNet
