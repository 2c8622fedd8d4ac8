-- SUMMARY: When the texts that the redirecting client builds and searches fit into their arrays.
import LinuxNet.Base.Printf
import LinuxNet.HttpClient.RedirectionSpec

/-! # The buffers of the redirecting client

The host of a hop comes from the response to the previous one, which is almost as
long as the arrays into which that host is then printed, with more around it. -/

namespace LinuxNet.HttpClient

/-- Every use of an array stays inside it. -/
def InArrays (calls : List Call) : Prop := ∀ size a, .text size a ∈ calls → a.InArray size

/-- A host that is not resolved fits into the message about it, a host to which the
hop connects fits into the request with the path, and a response leaves room for a
zero or has one. -/
structure Hop.Fits (hop : Hop) : Prop where
  message : (∃ port, .getaddrinfo hop.host port false ∈ hop.calls) →
    28 + hop.host.length < messageSize
  request : .connect true ∈ hop.calls → 44 + hop.path.length + hop.host.length < messageSize
  response : hop.received ≠ none → 0 ∈ hop.response ∨ hop.response.length < messageSize

variable {env : Nat → Peer} {fuel n : Nat} {host path buffer : List UInt8} {port : UInt16}
  {response : Option (List UInt8)} {hop : Hop} {out : Outcome} {calls calls' : List Call}
  {sends : List SendCall} {r : Receiving} {resolved : Bool}

theorem inArrays_append : InArrays (calls ++ calls') ↔ InArrays calls ∧ InArrays calls' := by
  simp only [InArrays, List.mem_append, or_imp, forall_and]

theorem inArrays_texts {accesses : List Access} :
    InArrays (accesses.map (.text messageSize)) ↔ ∀ a ∈ accesses, a.InArray messageSize := by
  simp only [InArrays, List.mem_map, Call.text.injEq]
  constructor
  · exact fun h a ha => h messageSize a ⟨a, ha, rfl, rfl⟩
  · rintro h _ _ ⟨a, ha, rfl, rfl⟩
    exact h a ha

/-! ## Exchanges -/

theorem portText_length (port : UInt16) : (portText port).length ≤ 5 := by
  apply decimal_length _ (by decide)
  exact port.toNat_lt.trans (by decide)

/-- Every port fits. -/
theorem inArrays_lookedUp : InArrays (lookedUp host port resolved) := by
  have hport := portText_length port
  simp only [InArrays, lookedUp, List.mem_cons, List.not_mem_nil, or_false, Call.text.injEq,
    reduceCtorEq]
  rintro size a ⟨rfl, rfl⟩
  exact Nat.lt_succ_of_le hport

theorem inArrays_connected : InArrays (connected host path port) ↔
    44 + path.length + host.length < messageSize := by
  rw [connected, inArrays_append, and_iff_right inArrays_lookedUp, ← requestText_length]
  simp [InArrays, Access.InArray]

theorem failedToResolve_length : (failedToResolve ++ host).length = 28 + host.length := by
  rw [List.length_append, (by decide : failedToResolve.length = 28)]

/-- Calls without any text. -/
theorem inArrays_of_none (h : ∀ size a, .text size a ∉ calls) : InArrays calls :=
  fun size a hmem => absurd hmem (h size a)

theorem inArrays_sends : InArrays (sends.map .send) := inArrays_of_none (by simp)

theorem inArrays_recvCalls : InArrays (recvCalls r) := inArrays_of_none (by simp [recvCalls])

/-- The lookup of a hop that has one. -/
theorem Exchanged.inArrays_iff (h : Exchanged host path hop) :
    InArrays hop.calls ↔
      ((∃ port, .getaddrinfo hop.host port false ∈ hop.calls) →
        28 + hop.host.length < messageSize) ∧
      (.connect true ∈ hop.calls → 44 + hop.path.length + hop.host.length < messageSize) := by
  cases h with
  | noProto => exact iff_of_true (inArrays_of_none (by simp)) (by simp)
  | noService => exact iff_of_true (inArrays_of_none (by simp)) (by simp)
  | unresolved =>
    rw [inArrays_append, and_iff_right inArrays_lookedUp, ← failedToResolve_length]
    simp [InArrays, Access.InArray, lookedUp]
  | unopened =>
    refine iff_of_true (inArrays_append.2 ⟨inArrays_lookedUp, inArrays_of_none (by simp)⟩) ?_
    simp [lookedUp]
  | unconnected =>
    refine iff_of_true (inArrays_append.2 ⟨inArrays_lookedUp, inArrays_of_none (by simp)⟩) ?_
    simp [lookedUp]
  | unsent hs hlt =>
    rw [inArrays_append, inArrays_append, inArrays_connected, and_iff_left inArrays_sends,
      and_iff_left (inArrays_of_none (by simp))]
    simp [connected, lookedUp]
  | answered hs hall hr =>
    rw [inArrays_append, inArrays_append, inArrays_connected, and_iff_left inArrays_sends,
      and_iff_left inArrays_recvCalls]
    simp [connected, lookedUp, recvCalls]

/-! ## Responses -/

/-- A buffer with a zero is its string, that zero, and the rest. -/
theorem eq_cString_append (h : 0 ∈ buffer) : ∃ rest, buffer = cString buffer ++ 0 :: rest := by
  obtain ⟨front, rest, rfl, hfront⟩ := List.eq_append_cons_of_mem h
  refine ⟨rest, ?_⟩
  rw [cString_append hfront]
  simp [cString]

/-- The search for a redirection stays inside a buffer if and only if there is a zero
in it. A host that it finds is shorter than the buffer. -/
theorem redirection_inArray_iff (hbuffer : buffer.length = messageSize) :
    (∀ a ∈ (redirection buffer).1, a.InArray messageSize) ↔ 0 ∈ buffer := by
  unfold redirection
  split
  · cases hlocation : splitFirst location (cString buffer) with
    | none => simp [Access.InArray]
    | some parts =>
      obtain ⟨before, start⟩ := parts
      have hfirst := (splitFirst_iff.1 hlocation).eq
      have hstart (hzero : 0 ∈ buffer) : 0 ∈ buffer.drop (before.length + location.length) := by
        obtain ⟨rest, hrest⟩ := eq_cString_append hzero
        rw [hrest, hfirst, ← List.length_append, List.append_assoc, List.drop_left]
        simp
      cases hcrlf : splitFirst crlf start with
      | none => simpa [Access.InArray, hcrlf] using hstart
      | some parts =>
        obtain ⟨newHost, after⟩ := parts
        have hend := (splitFirst_iff.1 hcrlf).eq
        have hshort : newHost.length < messageSize := by
          have hle := (List.takeWhile_prefix (l := buffer) (· ≠ 0)).length_le
          have hlocation : location.length = 10 := by decide
          rw [← cString, hfirst, hend, hbuffer] at hle
          simp only [List.length_append] at hle
          omega
        simpa [Access.InArray, hcrlf, hshort] using hstart
  · simp [Access.InArray]

theorem Exchanged.zero_mem_buffer_iff (h : Exchanged host path hop)
    (hsome : hop.received = some r) :
    0 ∈ r.buffer ↔ 0 ∈ hop.response ∨ hop.response.length < messageSize := by
  have hr := h.holds hsome
  have hresponse : hop.response = r.chunks.flatten := by
    rw [Hop.response, hsome]
    rfl
  rw [hr.buffer_eq, hresponse, filled, List.mem_append, List.mem_replicate]
  refine or_congr_right ⟨fun hzero => ?_, fun hlt => ⟨?_, rfl⟩⟩
  · have hpos := hzero.1
    omega
  · omega

/-! ## Hops -/

/-- Calls that neither look a host up nor connect to it. -/
theorem Hop.fits_andThen (hlookup : ∀ host port, .getaddrinfo host port false ∉ calls)
    (hconnect : .connect true ∉ calls) : (hop.andThen calls).Fits ↔ hop.Fits := by
  have hmem (c : Call) (hc : c ∉ calls) : c ∈ (hop.andThen calls).calls ↔ c ∈ hop.calls := by
    simp [Hop.andThen, hc]
  constructor
  · intro h
    refine ⟨?_, fun hc => h.request ((hmem _ hconnect).2 hc), h.response⟩
    rintro ⟨port, hport⟩
    exact h.message ⟨port, (hmem _ (hlookup _ _)).2 hport⟩
  · intro h
    refine ⟨?_, fun hc => h.request ((hmem _ hconnect).1 hc), h.response⟩
    rintro ⟨port, hport⟩
    exact h.message ⟨port, (hmem _ (hlookup _ _)).1 hport⟩

theorem Exchanged.fits_iff (h : Exchanged host path hop) :
    hop.Fits ↔ InArrays hop.calls ∧
      (hop.received ≠ none → 0 ∈ hop.response ∨ hop.response.length < messageSize) := by
  rw [h.inArrays_iff]
  exact ⟨fun hfits => ⟨⟨hfits.message, hfits.request⟩, hfits.response⟩,
    fun ⟨⟨hmessage, hrequest⟩, hresponse⟩ => ⟨hmessage, hrequest, hresponse⟩⟩

theorem Exchanged.searched_inArrays_iff (h : Exchanged host path hop)
    (hsome : hop.received = some r) : InArrays (hop.searched r).calls ↔ (hop.searched r).Fits := by
  have hr := h.holds hsome
  have hbuffer : r.buffer.length = messageSize := by
    have hle := hr.count_le
    rw [hr.count_eq] at hle
    rw [hr.buffer_eq, filled, List.length_append, List.length_replicate]
    omega
  have hreceived : hop.received ≠ none := fun hnone =>
    Option.some_ne_none _ (hsome.symm.trans hnone)
  have hfits : (hop.searched r).Fits ↔ hop.Fits := Hop.fits_andThen (by simp) (by simp)
  have hcalls : InArrays (hop.searched r).calls ↔ InArrays hop.calls ∧ 0 ∈ r.buffer := by
    rw [← redirection_inArray_iff hbuffer, ← inArrays_texts]
    exact inArrays_append
  rw [hcalls, hfits, h.fits_iff, h.zero_mem_buffer_iff hsome, forall_prop_of_true hreceived]

theorem Performed.inArrays_iff (h : Performed host path response n out) :
    (∀ hop ∈ out.hops, InArrays hop.calls) ↔ ∀ hop ∈ out.hops, hop.Fits := by
  induction h with
  | tooMany hn => simp
  | failed hn hhop hnone =>
    rw [List.forall_mem_singleton, List.forall_mem_singleton, hhop.fits_iff]
    exact (and_iff_left fun hreceived => absurd hnone hreceived).symm
  | final hn hhop hsome htarget =>
    rw [List.forall_mem_singleton, List.forall_mem_singleton,
      Hop.fits_andThen (by simp) (by simp), ← hhop.searched_inArrays_iff hsome]
    exact inArrays_append.trans (and_iff_left (inArrays_of_none (by simp)))
  | redirected hn hhop hsome htarget hrest ih =>
    rw [List.forall_mem_cons, List.forall_mem_cons, ih, hhop.searched_inArrays_iff hsome]

/-- A call uses its arrays within their bounds exactly if its hops have hosts and
responses that fit. -/
theorem texts_inArrays_iff (h : performHttpRequest env fuel host path response n = some out) :
    (∀ hop ∈ out.hops, InArrays hop.calls) ↔ ∀ hop ∈ out.hops, hop.Fits :=
  (performHttpRequest_performed h).inArrays_iff

/-- A short response to a request for a short host. -/
theorem texts_inArrays_iff_ok :
    ∃ out, performHttpRequest (fun _ => .answering okResponse) 3 (bytesOf "httpstat.us")
        (bytesOf "/200") none 0 = some out ∧
      ∀ hop ∈ out.hops, InArrays hop.calls := by
  have hle : okResponse.length ≤ messageSize := by decide
  have hrun := performHttpRequest_answered (bytesOf "httpstat.us") (bytesOf "/200") none hle
    (by decide +kernel)
  refine ⟨_, hrun, (texts_inArrays_iff hrun).2 (List.forall_mem_singleton.2 ?_)⟩
  exact ⟨fun _ => by decide, fun _ => by decide, fun _ => .inr (by decide)⟩

/-- A response that fills its buffer is not terminated. -/
def fullResponse : List UInt8 := List.replicate messageSize 65

/-- A host that fits into a response, and not into a request. -/
def longHost : List UInt8 := List.replicate 985 97

def movedToLongHost : List UInt8 :=
  movedPermanently ++ location ++ longHost ++ crlf

/-- A response without a zero is searched beyond its array, and a request to a long
host is printed beyond its array. -/
theorem texts_not_inArrays :
    (∃ out, performHttpRequest (fun _ => .answering fullResponse) 3 (bytesOf "httpstat.us")
        (bytesOf "/200") none 0 = some out ∧
      ∃ hop ∈ out.hops, .text messageSize (.string fullResponse) ∈ hop.calls ∧
        ¬ InArrays hop.calls) ∧
    ∃ out, performHttpRequest (redirecting movedToLongHost okResponse) 4 (bytesOf "httpstat.us")
        (bytesOf "/301") none 0 = some out ∧
      ∃ hop ∈ out.hops, .text messageSize (.store 1030) ∈ hop.calls ∧ ¬ InArrays hop.calls := by
  have hfull : (redirection (answer fullResponse).buffer).2 = none := by decide +kernel
  have hlong : (redirection (answer movedToLongHost).buffer).2 = some longHost := by
    decide +kernel
  have hle : fullResponse.length ≤ messageSize := by decide +kernel
  have hle' : movedToLongHost.length ≤ messageSize := by decide +kernel
  have hscanned : .text messageSize (.string fullResponse) ∈
      (finalHop (bytesOf "httpstat.us") (bytesOf "/200") fullResponse).calls := by
    decide +kernel
  have hprinted : .text messageSize (.store 1030) ∈
      (finalHop longHost (bytesOf "/") okResponse).calls := by
    decide +kernel
  refine ⟨⟨_, performHttpRequest_answered _ _ _ hle hfull, _, List.mem_singleton_self _, hscanned,
      fun h => ?_⟩, _,
    performHttpRequest_redirecting _ _ _ hle' (by decide) hlong (by decide +kernel), _,
    List.mem_cons_of_mem _ (List.mem_singleton_self _), hprinted, fun h => ?_⟩
  · exact absurd (List.eq_of_mem_replicate (h _ _ hscanned)) (by decide)
  · exact absurd (h _ _ hprinted) (by decide : ¬ 1030 < messageSize)

end LinuxNet.HttpClient
