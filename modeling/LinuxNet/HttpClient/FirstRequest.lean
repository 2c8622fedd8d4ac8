-- SUMMARY: The HTTP client that only sends a request (05_send_first_http_request.c), and when it sends it once.
import LinuxNet.HttpClient.Client

/-! # The client that sends a request

Its loop offers the whole request in every round, and looks for a failure in the
result of connect instead of that of send. -/

namespace LinuxNet.HttpClient.FirstRequest

/-- `CPP_HOSTNAME`. -/
def cppHostname : List UInt8 := bytesOf "httpstat.us"

/-- `request`. -/
def requestSent : List UInt8 := requestText (bytesOf "/") cppHostname

/-- The sends so far, and the sum of their results. -/
structure Resending where
  sends : List SendCall
  sentBytes : Int
  deriving DecidableEq

/-- A round of the send loop, where `rc` is the result of connect. The result says
whether the round has taken it for a failure. -/
def resendRound (rc : Int) (kernel : SendSchedule) (request : List UInt8) (s : Resending) :
    Resending ⊕ Resending × Bool :=
  if s.sentBytes < request.length then
    let sent := (kernel s.sends.length request.length).rc
    let sends := s.sends ++ [⟨request, sent⟩]
    if rc < 0 then .inr (⟨sends, s.sentBytes⟩, true) else .inl ⟨sends, s.sentBytes + sent⟩
  else .inr (s, false)

/-- `main` from its send loop on, with the status it returns. -/
def transmit (rc : Int) (kernel : SendSchedule) (fuel : Nat) (request : List UInt8) :
    Option (List Call × Int) := do
  let (s, failed) ← loop (resendRound rc kernel request) fuel ⟨[], 0⟩
  let calls := s.sends.map .send
  if failed then some (calls ++ [.report (bytesOf "Error: send() failed\n"), .close], -1)
  else some (calls ++ [.close, .freeaddrinfo], 0)

def main (peer : Peer) (fuel : Nat) : Option (List Call × Int) :=
  if !peer.proto then some ([.report (bytesOf "Error: TCP protocol is not available\n")], -1)
  else
    match peer.service with
    | none => some ([.report (bytesOf "Error: HTTP service is not available\n")], -1)
    | some service =>
      let portStr := portText service
      let calls := [.text 6 (.store portStr.length),
        .getaddrinfo cppHostname portStr peer.resolves]
      if !peer.resolves then
        some (calls ++ [.report (bytesOf "Error: Can not resolve hostname " ++ cppHostname ++
          bytesOf "\n")], -1)
      else if !peer.opens then
        some (calls ++ [.socket false, .report (bytesOf "Error: socket() failed\n")], -1)
      else do
        let rc : Int := if peer.connects then 0 else -1
        let calls := calls ++ [.socket true, .connect peer.connects]
        if rc ≠ 0 then some (calls ++ [.report (bytesOf "Error: connect() failed\n")], -1)
        else do
          let calls := calls ++ [.text messageSize (.store requestSent.length)]
          let (rest, code) ← transmit rc peer.send fuel requestSent
          some (calls ++ rest, code)

/-- What the sends of `main` should come to: the loop ends; if no send fails, the
request has been handed over once; if one fails, the program says so and closes the
socket; and the loop of 06 makes the same sends. -/
def SendsOnce (kernel : SendSchedule) : Prop :=
  ∃ calls code bound, ∀ fuel, bound ≤ fuel →
    transmit 0 kernel fuel requestSent = some (calls, code) ∧
    ((∀ c ∈ calls.filterMap Call.send?, 0 ≤ c.rc) → handedBy calls = requestSent) ∧
    ((∃ c ∈ calls.filterMap Call.send?, c.rc < 0) →
      code = -1 ∧ .report (bytesOf "Error: send() failed\n") ∈ calls ∧ .close ∈ calls) ∧
    ∃ s failed, loop (sendRound (· < 0) kernel requestSent) fuel ⟨[], 0⟩ = some (s, failed) ∧
      s.sends = calls.filterMap Call.send?

variable {kernel : SendSchedule} {request : List UInt8} {fuel : Nat} {calls : List Call}
  {code : Int} {s : Sending} {failed : Bool} {n : Nat}

theorem filterMap_sends (sends : List SendCall) :
    (sends.map Call.send).filterMap Call.send? = sends := by
  rw [List.filterMap_map]
  exact List.filterMap_some

/-- The loop never takes a send for a failure, and always offers the whole request. -/
theorem transmit_spec (h : transmit 0 kernel fuel request = some (calls, code)) :
    code = 0 ∧ ∀ c ∈ calls.filterMap Call.send?, c.offered = request := by
  obtain ⟨⟨s, failed⟩, hloop, h⟩ := Option.bind_eq_some_iff.1 h
  have hspec : failed = false ∧ ∀ c ∈ s.sends, c.offered = request := by
    refine loop_rule (I := fun s => ∀ c ∈ s.sends, c.offered = request)
      (Q := fun r => r.2 = false ∧ ∀ c ∈ r.1.sends, c.offered = request) ?_ ?_ (by simp) hloop
    · intro s s' hs hround
      unfold resendRound at hround
      split at hround
      · cases hround
        exact List.forall_mem_append.2 ⟨hs, by simp⟩
      · cases hround
    · intro s r hs hround
      unfold resendRound at hround
      split at hround
      · cases hround
      · cases hround
        exact ⟨rfl, hs⟩
  obtain ⟨rfl, hoffered⟩ := hspec
  cases h
  rw [List.filterMap_append, filterMap_sends]
  exact ⟨rfl, by simpa [Call.send?] using hoffered⟩

/-- A send that takes the whole request is the only one. -/
theorem transmit_once (hpos : 0 < request.length)
    (hall : (kernel 0 request.length).rc = request.length) :
    transmit 0 kernel (fuel + 2) request =
      some ([.send ⟨request, request.length⟩, .close, .freeaddrinfo], 0) := by
  have hfirst : resendRound 0 kernel request ⟨[], 0⟩ =
      .inl ⟨[⟨request, request.length⟩], request.length⟩ := by
    simp [resendRound, if_pos hpos, hall]
  have hloop : loop (resendRound 0 kernel request) (fuel + 2) ⟨[], 0⟩ =
      some (⟨[⟨request, request.length⟩], request.length⟩, false) :=
    (loop_inl hfirst).trans (loop_inr (if_neg (lt_irrefl _)))
  rw [transmit, hloop]
  rfl

/-- After a first send that takes a part of the request, the loop of 06 offers the rest. -/
theorem sendLoop_rest (hloop : loop (sendRound (· < 0) kernel request) (fuel + 1) ⟨[], 0⟩ =
      some (s, failed))
    (hn : (kernel 0 request.length).rc = n) (hlt : n < request.length) :
    ∃ rc, ⟨request.drop n, rc⟩ ∈ s.sends := by
  have hrc : (kernel 0 (request.drop 0).length).rc = n := hn
  have hfirst : sendRound (· < 0) kernel request ⟨[], 0⟩ = .inl ⟨[⟨request, n⟩], n⟩ := by
    simp [sendRound, if_pos (Nat.zero_lt_of_lt hlt), hrc]
  rw [loop_inl hfirst] at hloop
  exact ⟨_, sendLoop_mem hloop hlt⟩

/-- The request is sent once exactly if the first send takes all of it. -/
theorem sendsOnce_iff (hprogress : ∀ k size, 0 < size → (kernel k size).rc ≠ 0) :
    SendsOnce kernel ↔ (kernel 0 requestSent.length).rc = requestSent.length := by
  have hpos : 0 < requestSent.length := by decide
  constructor
  · rintro ⟨calls, code, bound, hall⟩
    obtain ⟨htransmit, -, hfailed, s, failed, hloop, hsame⟩ := hall (bound + 1) (Nat.le_succ _)
    obtain ⟨rfl, hoffered⟩ := transmit_spec htransmit
    have hfirst := sendLoop_mem hloop hpos
    rw [List.drop_zero, List.length_nil, hsame] at hfirst
    rcases hkernel : kernel 0 requestSent.length with errno | ⟨n, hle⟩
    · -- the failure of the first send goes unseen
      rw [hkernel] at hfirst
      cases (hfailed ⟨_, hfirst, by simp [PartialSend.rc]⟩).1
    · have hrc : (kernel 0 requestSent.length).rc = n := by rw [hkernel, PartialSend.rc]
      have hne : n ≠ 0 := fun hzero => hprogress 0 _ hpos (hrc.trans (congrArg _ hzero))
      rcases hle.eq_or_lt with rfl | hlt
      · rfl
      · -- 06 offers the rest next, and this loop the whole request
        obtain ⟨rc, hrest⟩ := sendLoop_rest hloop hrc hlt
        have hdrop := congrArg List.length (hoffered _ (hsame ▸ hrest))
        rw [List.length_drop] at hdrop
        omega
  · intro hall
    refine ⟨[.send ⟨requestSent, requestSent.length⟩, .close, .freeaddrinfo], 0, 2, ?_⟩
    intro fuel hfuel
    obtain ⟨fuel, rfl⟩ := Nat.exists_eq_add_of_le' hfuel
    refine ⟨transmit_once hpos hall, fun _ => ?_, ?_,
      _, _, sendLoop_once hpos (by simp) hall, rfl⟩
    · simp [handedBy, Call.send?, handed, SendCall.taken]
    · simp [Call.send?]

/-- A kernel that takes what it is offered. -/
def takingAll : SendSchedule := fun _ size => .sent size le_rfl

theorem sendsOnce_iff_taken : SendsOnce takingAll := by
  refine (sendsOnce_iff fun k size hsize hrc => ?_).2 rfl
  exact hsize.ne' (Int.ofNat_eq_zero.1 hrc)

/-- A kernel that takes one byte of the first send, and then what it is offered. -/
def takingOne : SendSchedule := fun k size => .sent (if k = 0 then min 1 size else size) (by grind)

/-- The first byte of the request is then handed over twice. -/
theorem not_sendsOnce : ¬ SendsOnce takingOne := by
  rintro ⟨calls, code, bound, hall⟩
  obtain ⟨htransmit, hhanded, -⟩ := hall (bound + 3) (Nat.le_add_right _ _)
  have hloop : loop (resendRound 0 takingOne requestSent) 3 ⟨[], 0⟩ =
      some (⟨[⟨requestSent, 1⟩, ⟨requestSent, requestSent.length⟩], requestSent.length + 1⟩,
        false) := by
    decide +kernel
  rw [transmit, loop_mono hloop (Nat.le_add_left _ _)] at htransmit
  cases htransmit
  have hlength := congrArg List.length (hhanded (by decide))
  revert hlength
  decide +kernel

end LinuxNet.HttpClient.FirstRequest
