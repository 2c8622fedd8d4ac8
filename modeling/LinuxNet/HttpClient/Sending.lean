-- SUMMARY: The clients that receive a response do so once they have sent their whole request, and otherwise release everything.
import LinuxNet.HttpClient.Client
import LinuxNet.HttpClient.Release

/-! # Sending a request in parts -/

namespace LinuxNet.HttpClient

/-- What calls should do with a request: at all times a prefix of it has been handed
over, a response is received once it is all of it, and only then, and otherwise the
resources are released. -/
structure Orderly (request : List UInt8) (calls : List Call) : Prop where
  isPrefix : ∀ front, front <+: calls → handedBy front <+: request
  received_iff : (∃ bytes, .recv bytes ∈ calls) ↔ handedBy calls = request
  received_after : ∀ front bytes back, calls = front ++ .recv bytes :: back →
    handedBy front = request
  released : handedBy calls ≠ request →
    addressList.ReleasedOnce calls ∧ socket.ReleasedOnce calls

/-- Whether calls neither send nor receive. -/
def Call.isTransfer : Call → Bool
  | .send _ | .recv _ => true
  | _ => false

/-- A send of something takes something, or fails. -/
def Peer.Progresses (peer : Peer) : Prop := ∀ k size, 0 < size → (peer.send k size).rc ≠ 0

variable {peer : Peer} {env : Nat → Peer} {fuel n : Nat} {host path request : List UInt8}
  {response : Option (List UInt8)} {hop : Hop} {out : Outcome}
  {calls before front tail : List Call} {sends : List SendCall} {r : Receiving}

theorem handedBy_isPrefix (h : front <+: calls) : handedBy front <+: handedBy calls := by
  obtain ⟨back, rfl⟩ := h
  rw [handedBy_append]
  exact List.prefix_append _ _

theorem handedBy_of_not_isTransfer (h : ∀ c ∈ calls, c.isTransfer = false) :
    handedBy calls = [] :=
  handedBy_eq_nil fun c hc => by
    have hc' := h c hc
    cases c <;> first | rfl | cases hc'

/-- All of the request has been sent, and then a response is received. -/
theorem orderly_of_complete (hbefore : ∀ c ∈ before, c.isTransfer = false)
    (hsends : handed sends = request) (htail : ∀ c ∈ tail, c.send? = none)
    (hrecv : ∃ bytes, .recv bytes ∈ tail) :
    Orderly request (before ++ sends.map .send ++ tail) := by
  have hsent : handedBy (before ++ sends.map .send) = request := by
    rw [handedBy_append, handedBy_of_not_isTransfer hbefore, handedBy_sends, hsends,
      List.nil_append]
  have hhanded : handedBy (before ++ sends.map .send ++ tail) = request := by
    rw [handedBy_append, hsent, handedBy_eq_nil htail, List.append_nil]
  obtain ⟨bytes, hbytes⟩ := hrecv
  refine ⟨fun front hfront => hhanded ▸ handedBy_isPrefix hfront,
    iff_of_true ⟨bytes, List.mem_append_right _ hbytes⟩ hhanded, ?_, absurd hhanded⟩
  intro front bytes back heq
  rcases List.append_eq_append_iff.1 heq with ⟨k, rfl, hk⟩ | ⟨k, hk, hback⟩
  · have hknone : ∀ c ∈ k, c.send? = none := fun c hc =>
      htail c (hk ▸ List.mem_append_left _ hc)
    rw [handedBy_append, hsent, handedBy_eq_nil hknone, List.append_nil]
  · cases k with
    | nil =>
      rw [← hsent, hk, List.append_nil]
    | cons c k =>
      -- nothing is received before all has been sent
      have hc : c = .recv bytes := (List.cons.inj hback).1.symm
      have hmem : .recv bytes ∈ before ++ sends.map .send := by
        rw [hk, hc]
        simp
      rcases List.mem_append.1 hmem with hmem | hmem
      · exact absurd (hbefore _ hmem) (by simp [Call.isTransfer])
      · simp at hmem

/-- Not all of the request has been sent, and nothing is received. -/
theorem orderly_of_failed (hbefore : ∀ c ∈ before, c.isTransfer = false)
    (hstarts : handed sends <+: request) (hsends : handed sends ≠ request)
    (htail : ∀ c ∈ tail, c.isTransfer = false)
    (hreleased : addressList.ReleasedOnce (before ++ sends.map .send ++ tail) ∧
      socket.ReleasedOnce (before ++ sends.map .send ++ tail)) :
    Orderly request (before ++ sends.map .send ++ tail) := by
  have hhanded : handedBy (before ++ sends.map .send ++ tail) = handed sends := by
    rw [handedBy_append, handedBy_append, handedBy_of_not_isTransfer hbefore,
      handedBy_of_not_isTransfer htail, handedBy_sends, List.nil_append, List.append_nil]
  have hnone : ∀ bytes, .recv bytes ∉ before ++ sends.map .send ++ tail := by
    intro bytes hmem
    rcases List.mem_append.1 hmem with hmem | hmem
    · rcases List.mem_append.1 hmem with hmem | hmem
      · exact absurd (hbefore _ hmem) (by simp [Call.isTransfer])
      · simp at hmem
    · exact absurd (htail _ hmem) (by simp [Call.isTransfer])
  refine ⟨fun front hfront => (hhanded ▸ handedBy_isPrefix hfront).trans hstarts,
    iff_of_false (fun ⟨bytes, hmem⟩ => hnone bytes hmem) (hhanded ▸ hsends), ?_,
    fun _ => hreleased⟩
  intro front bytes back heq
  exact absurd (heq ▸ by simp) (hnone bytes)

/-! ## The client of 06 -/

/-- The calls of the client up to its connection. -/
def ReceiveResponse.connected (request : List UInt8) (service : UInt16) : List Call :=
  [.text 6 (.store (portText service).length),
    .getaddrinfo cppHostname (portText service) true, .socket true, .connect true,
    .text messageSize (.store request.length)]

theorem ReceiveResponse.kept_connected (request : List UInt8) (service : UInt16)
    (sends : List SendCall) :
    addressList.Kept (connected request service ++ sends.map .send) ∧
      HttpClient.socket.Kept (connected request service ++ sends.map .send) := by
  constructor
  · simp [Handle.Kept, connected, addressList, or_imp, forall_and]
  · simp [Handle.Kept, connected, HttpClient.socket, or_imp, forall_and]

/-- The client does not connect, or is connected and goes on. -/
theorem ReceiveResponse.run_cases (peer : Peer) (request : List UInt8) :
    (∃ r, .connect true ∉ r.1 ∧ ∀ fuel, run peer fuel request = some r) ∨
      ∃ service, ∀ fuel, run peer fuel request =
        transfer peer fuel request (connected request service) := by
  unfold run
  cases peer.proto with
  | false => exact .inl ⟨_, by simp, fun _ => rfl⟩
  | true =>
    cases peer.service with
    | none => exact .inl ⟨_, by simp, fun _ => rfl⟩
    | some service =>
      cases peer.resolves with
      | false => exact .inl ⟨_, by simp, fun _ => rfl⟩
      | true =>
        cases peer.opens with
        | false => exact .inl ⟨_, by simp, fun _ => rfl⟩
        | true =>
          cases peer.connects with
          | false => exact .inl ⟨_, by simp, fun _ => rfl⟩
          | true => exact .inr ⟨service, fun _ => rfl⟩

theorem ReceiveResponse.transfer_orderly {service : UInt16} {ok : Bool}
    (h : transfer peer fuel request (connected request service) = some (calls, ok)) :
    Orderly request calls := by
  obtain ⟨⟨s, failed⟩, hsend, h⟩ := Option.bind_eq_some_iff.1 h
  obtain ⟨hs, hfailed⟩ := sendLoop_spec (fun rc hrc => (of_decide_eq_true hrc).le) hsend
  have hbefore : ∀ c ∈ connected request service, c.isTransfer = false := by
    simp [connected, Call.isTransfer]
  dsimp only at h
  split at h
  · rename_i hstopped
    cases h
    have hlt := of_decide_eq_true (hfailed.symm.trans hstopped)
    obtain ⟨haddress, hsocket⟩ := kept_connected request service s.sends
    refine orderly_of_failed hbefore hs.handed_isPrefix
      (fun heq => hs.handed_eq_iff.1 heq hlt) (by simp [Call.isTransfer]) ⟨?_, ?_⟩
    · rw [List.append_cons]
      exact (haddress.append (by simp [Handle.Kept, addressList])).releasedOnce rfl
        (by simp [Handle.Unused, addressList])
    · exact hsocket.releasedOnce rfl (by simp [Handle.Unused, HttpClient.socket])
  · rename_i hstopped
    have hhanded := hs.handed_eq_iff.2
      (of_decide_eq_false (hfailed.symm.trans (Bool.eq_false_iff.2 hstopped)))
    obtain ⟨r, hrecv, h⟩ := Option.bind_eq_some_iff.1 h
    split at h
    · cases h
      exact orderly_of_complete hbefore hhanded
        (by simp [recvCalls, Call.send?, or_imp, forall_and]) ⟨[], by simp [recvCalls]⟩
    · cases h
      exact orderly_of_complete hbefore hhanded
        (by simp [recvCalls, Call.send?, or_imp, forall_and]) ⟨[], by simp [recvCalls]⟩

theorem ReceiveResponse.transfer_ends (hpeer : peer.Progresses) (hrequest : request.length < fuel)
    (hbuffer : messageSize < fuel) :
    ∃ calls ok, transfer peer fuel request before = some (calls, ok) := by
  obtain ⟨⟨sending, stopped⟩, hsend⟩ := sendLoop_ends (· < 0) peer.send
    (fun k size hsize hrc => lt_of_le_of_ne (not_lt.1 (of_decide_eq_false hrc))
      (hpeer k size hsize).symm) hrequest
  obtain ⟨receiving, hrecv⟩ := recvLoop_ends peer.recv hbuffer
  unfold transfer
  rw [hsend]
  dsimp only [Option.bind_eq_bind, Option.bind_some]
  split
  · exact ⟨_, _, rfl⟩
  · rw [hrecv]
    dsimp only [Option.bind_some]
    split
    · exact ⟨_, _, rfl⟩
    · exact ⟨_, _, rfl⟩

theorem ReceiveResponse.run_orderly {ok : Bool} (h : run peer fuel request = some (calls, ok))
    (hconnect : .connect true ∈ calls) : Orderly request calls := by
  rcases run_cases peer request with ⟨r, hnot, hrun⟩ | ⟨service, hrun⟩
  · cases (hrun fuel).symm.trans h
    exact absurd hconnect hnot
  · exact transfer_orderly ((hrun fuel).symm.trans h)

theorem ReceiveResponse.run_ends (hpeer : peer.Progresses) (hrequest : request.length < fuel)
    (hbuffer : messageSize < fuel) : ∃ calls ok, run peer fuel request = some (calls, ok) := by
  rcases run_cases peer request with ⟨⟨calls, ok⟩, -, hrun⟩ | ⟨service, hrun⟩
  · exact ⟨calls, ok, hrun fuel⟩
  · rw [hrun]
    exact transfer_ends hpeer hrequest hbuffer

/-! ## The client of 07 -/

theorem Exchanged.orderly (h : Exchanged host path hop) (hconnect : .connect true ∈ hop.calls)
    (extra : List Call) (hextra : ∀ c ∈ extra, c.isTransfer = false)
    (hnone : hop.received = none → extra = []) :
    Orderly (requestText path host) (hop.andThen extra).calls := by
  have hreleased := h.released
  have hbefore (port : UInt16) : ∀ c ∈ connected host path port, c.isTransfer = false := by
    simp [connected, lookedUp, Call.isTransfer]
  cases h with
  | @unsent port s hs hlt =>
    obtain rfl := hnone rfl
    rw [Hop.andThen_nil]
    obtain ⟨haddress, hsocket⟩ := hreleased rfl
    exact orderly_of_failed (hbefore _) hs.handed_isPrefix
      (fun heq => hs.handed_eq_iff.1 heq hlt) (by simp [Call.isTransfer])
      ⟨haddress ⟨host, portText port, by simp [connected, lookedUp]⟩, hsocket (by simp [connected])⟩
  | @answered port s r hs hall hr =>
    have hsends : ∀ c ∈ recvCalls r ++ extra, c.send? = none := by
      intro c hc
      rcases List.mem_append.1 hc with hc | hc
      · simp only [recvCalls, List.mem_append, List.mem_map, List.mem_singleton] at hc
        rcases hc with ⟨bytes, -, rfl⟩ | rfl <;> rfl
      · have hc' := hextra c hc
        cases c <;> first | rfl | cases hc'
    have horderly := orderly_of_complete (hbefore port) (hs.handed_eq_iff.2 hall.not_lt) hsends
      ⟨[], by simp [recvCalls]⟩
    rwa [← List.append_assoc] at horderly
  | _ => simp [lookedUp] at hconnect

/-- What a call adds to a hop is no transfer, and there is something to add only to a
hop with a response. -/
theorem Exchanged.orderly_andThen {extra : List Call} (h : Exchanged host path hop)
    (hextra : ∀ c ∈ extra, c.isTransfer = false ∧ c.isConnect = false)
    (hnone : hop.received = none → extra = [])
    (hconnect : .connect true ∈ (hop.andThen extra).calls) :
    Orderly (hop.andThen extra).request (hop.andThen extra).calls := by
  have hconnect' : .connect true ∈ hop.calls :=
    (List.mem_append.1 hconnect).resolve_right fun hmem =>
      absurd (hextra _ hmem).2 (by simp [Call.isConnect])
  obtain ⟨hhost, hpath⟩ := h.fields
  have hrequest : (hop.andThen extra).request = requestText path host := by
    rw [← hhost, ← hpath]
    rfl
  rw [hrequest]
  exact h.orderly hconnect' extra (fun c hc => (hextra c hc).1) hnone

theorem Performed.orderly (h : Performed host path response n out) :
    ∀ hop ∈ out.hops, .connect true ∈ hop.calls → Orderly hop.request hop.calls := by
  induction h with
  | tooMany hn => simp
  | failed hn hhop hnone =>
    have hextra : ∀ c ∈ ([] : List Call), c.isTransfer = false ∧ c.isConnect = false := by simp
    have horderly := hhop.orderly_andThen hextra fun _ => rfl
    rw [Hop.andThen_nil] at horderly
    exact List.forall_mem_singleton.2 horderly
  | final hn hhop hsome htarget =>
    refine List.forall_mem_singleton.2 ?_
    rw [Hop.searched, Hop.andThen_andThen]
    refine hhop.orderly_andThen ?_ fun hnone => ?_
    · simp [or_imp, forall_and, Call.isTransfer, Call.isConnect]
    · exact absurd (hsome.symm.trans hnone) (Option.some_ne_none _)
  | redirected hn hhop hsome htarget hrest ih =>
    refine List.forall_mem_cons.2 ⟨hhop.orderly_andThen ?_ fun hnone => ?_, ih⟩
    · simp [Call.isTransfer, Call.isConnect]
    · exact absurd (hsome.symm.trans hnone) (Option.some_ne_none _)

/-! ## Both clients -/

/-- Both clients end, the one of 06 as long as its sends get on, and are orderly
once they are connected. -/
theorem partial_sends_orderly :
    (∀ peer request fuel, peer.Progresses → request.length < fuel → messageSize < fuel →
      ∃ calls ok, ReceiveResponse.run peer fuel request = some (calls, ok) ∧
        (.connect true ∈ calls → Orderly request calls)) ∧
    ∀ env host path response n, ∃ out bound,
      (∀ fuel, bound ≤ fuel → performHttpRequest env fuel host path response n = some out) ∧
      ∀ hop ∈ out.hops, .connect true ∈ hop.calls → Orderly hop.request hop.calls := by
  constructor
  · intro peer request fuel hpeer hrequest hbuffer
    obtain ⟨calls, ok, hrun⟩ := ReceiveResponse.run_ends hpeer hrequest hbuffer
    exact ⟨calls, ok, hrun, ReceiveResponse.run_orderly hrun⟩
  · intro env host path response n
    obtain ⟨fuel, out, hrun⟩ := performHttpRequest_ends env host path response n
    exact ⟨out, fuel, fun _ hle => performHttpRequest_mono hrun hle,
      (performHttpRequest_performed hrun).orderly⟩

/-- A server that takes a request in parts of at most 20 bytes. -/
def takingParts : Peer :=
  { Peer.answering okResponse with send := fun _ size => .sent (min size 20) (Nat.min_le_left _ _) }

/-- Both clients send their request in three parts. -/
theorem partial_sends_orderly_parts :
    (∃ calls ok, ReceiveResponse.main takingParts 1025 = some (calls, ok) ∧
      .connect true ∈ calls ∧ (calls.filterMap Call.send?).length = 3 ∧
      Orderly (requestText (bytesOf "/200") ReceiveResponse.cppHostname) calls) ∧
    ∃ out hop, performHttpRequest (fun _ => takingParts) 5 (bytesOf "httpstat.us")
        (bytesOf "/200") none 0 = some out ∧ hop ∈ out.hops ∧ .connect true ∈ hop.calls ∧
      (hop.calls.filterMap Call.send?).length = 3 ∧ Orderly hop.request hop.calls := by
  constructor
  · have hfacts : (ReceiveResponse.main takingParts 1025).map (fun r =>
        decide (.connect true ∈ r.1 ∧ (r.1.filterMap Call.send?).length = 3)) = some true := by
      decide +kernel
    have hprogress : takingParts.Progresses := fun _ size hsize hrc => by
      have hzero : min size 20 = 0 := Int.ofNat_eq_zero.1 hrc
      omega
    obtain ⟨calls, ok, hrun, horderly⟩ := partial_sends_orderly.1 takingParts
      (requestText (bytesOf "/200") ReceiveResponse.cppHostname) 1025 hprogress (by decide)
      (by decide)
    obtain ⟨r, hr, hparts⟩ := Option.map_eq_some_iff.1 hfacts
    obtain rfl := Option.some.inj (hr.symm.trans hrun)
    obtain ⟨hconnect, hlength⟩ := of_decide_eq_true hparts
    exact ⟨calls, ok, hrun, hconnect, hlength, horderly hconnect⟩
  · have hfacts : (performHttpRequest (fun _ => takingParts) 5 (bytesOf "httpstat.us")
        (bytesOf "/200") none 0).map (fun out => out.hops.map fun hop =>
          decide (.connect true ∈ hop.calls ∧ (hop.calls.filterMap Call.send?).length = 3)) =
        some [true] := by
      decide +kernel
    obtain ⟨out, hrun, hparts⟩ := Option.map_eq_some_iff.1 hfacts
    obtain ⟨hop, hhops, hhop⟩ := List.map_eq_singleton_iff.1 hparts
    obtain ⟨hconnect, hlength⟩ := of_decide_eq_true hhop
    obtain ⟨out', bound, hbound, horderly⟩ := partial_sends_orderly.2 (fun _ => takingParts)
      (bytesOf "httpstat.us") (bytesOf "/200") none 0
    have hmono := performHttpRequest_mono hrun (le_max_right bound 5)
    obtain rfl := Option.some.inj (hmono.symm.trans (hbound _ (le_max_left bound 5)))
    have hmem : hop ∈ out.hops := hhops ▸ List.mem_singleton_self hop
    exact ⟨out, hop, hrun, hmem, hconnect, hlength, horderly hop hmem hconnect⟩

end LinuxNet.HttpClient
