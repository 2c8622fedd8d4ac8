-- SUMMARY: When the caller of the redirecting client finds the final response in its buffer.
import LinuxNet.HttpClient.RedirectionSpec

/-! # The response that is returned

Each hop copies what it has received over the start of the caller's buffer, and
nothing ends the string there. -/

namespace LinuxNet.HttpClient

/-- A buffer over whose start some responses have been copied, one after the other. -/
def overlaid (content : List UInt8) (responses : List (List UInt8)) : List UInt8 :=
  responses.foldl (storeAt · 0 ·) content

/-- The three digits behind the first space of a status line. -/
def statusCode (response : List UInt8) : List UInt8 :=
  (((cString response).dropWhile (· ≠ 32)).drop 1).take 3

/-- A response with status 200. -/
def IsOk (response : List UInt8) : Prop :=
  bytesOf "HTTP/" <+: response ∧ statusCode response = bytesOf "200"

instance (response : List UInt8) : Decidable (IsOk response) :=
  inferInstanceAs (Decidable (_ ∧ _))

variable {env : Nat → Peer} {fuel n : Nat} {host path content bytes : List UInt8}
  {response : Option (List UInt8)} {hop last : Hop} {earlier : List Hop} {out : Outcome}
  {r : Receiving} {responses : List (List UInt8)}

theorem overlaid_length (h : ∀ bytes ∈ responses, bytes.length ≤ content.length) :
    (overlaid content responses).length = content.length := by
  induction responses generalizing content with
  | nil => rfl
  | cons bytes responses ih =>
    obtain ⟨hbytes, hresponses⟩ := List.forall_mem_cons.1 h
    have hlength : (storeAt content 0 bytes).length = content.length := by
      rw [storeAt_zero, List.length_append, List.length_drop]
      omega
    refine (ih fun bytes hmem => ?_).trans hlength
    rw [hlength]
    exact hresponses bytes hmem

/-- A string is followed by the rest of the buffer unless there is a zero. -/
theorem cString_storeAt_iff (hlt : bytes.length < content.length) :
    cString (storeAt content 0 bytes) = cString bytes ↔
      0 ∈ bytes ∨ content[bytes.length]? = some 0 := by
  rw [storeAt_zero, List.drop_eq_getElem_cons hlt, List.getElem?_eq_getElem hlt]
  by_cases hzero : 0 ∈ bytes
  · exact iff_of_true (cString_append_of_mem hzero) (.inl hzero)
  · rw [cString_append hzero, cString_eq_self hzero]
    simp [cString, hzero, hlt]

/-! ## Calls -/

/-- A call lays the responses of its hops over the buffer. -/
theorem Performed.response_eq (h : Performed host path response n out) :
    out.response = response.map (overlaid · (out.hops.map Hop.response)) := by
  have hnil (response : Option (List UInt8)) : response.map (overlaid · []) = response :=
    Option.map_id'
  have hcons {hop hop' : Hop} {r : Receiving} {host path : List UInt8}
      {response : Option (List UInt8)} {responses : List (List UInt8)}
      (hhop : Exchanged host path hop) (hsome : hop.received = some r)
      (heq : hop'.response = hop.response) : (copied response r).map (overlaid · responses) =
        response.map (overlaid · (hop'.response :: responses)) := by
    rw [copied, Option.map_map, heq, Hop.response_of_holds hsome (hhop.holds hsome)]
    rfl
  induction h with
  | tooMany hn => exact (hnil _).symm
  | failed hn hhop hnone =>
    rw [List.map_singleton, Hop.response, hnone]
    exact (hnil _).symm
  | final hn hhop hsome htarget => exact (hnil _).symm.trans (hcons hhop hsome rfl)
  | redirected hn hhop hsome htarget hrest ih => exact ih.trans (hcons hhop hsome rfl)

theorem Performed.result_of_nil (h : Performed host path response n out)
    (hhops : out.hops = []) : out.result = .notFound := by
  cases h with
  | tooMany => rfl
  | _ => cases hhops

/-- A call is successful if its last hop has a response that does not redirect. -/
theorem Performed.successful_iff (h : Performed host path response n out)
    (hlast : out.hops.getLast? = some last) :
    out.result = .successful ↔ last.received ≠ none ∧ last.target = none := by
  induction h with
  | tooMany hn => cases hlast
  | failed hn hhop hnone =>
    cases hlast
    exact iff_of_false (by simp) fun hreceived => hreceived.1 hnone
  | final hn hhop hsome htarget =>
    cases hlast
    refine iff_of_true rfl ⟨fun hnone => ?_, (Hop.target_eq hsome).trans htarget⟩
    exact Option.some_ne_none _ (hsome.symm.trans hnone)
  | @redirected _ _ _ _ hop r newHost rest hn hhop hsome htarget hrest ih =>
    cases hhops : rest.hops with
    | nil =>
      rw [hhops] at hlast
      cases hlast
      refine iff_of_false (fun hok => ?_) fun hnone => ?_
      · exact absurd ((hrest.result_of_nil hhops).symm.trans hok) (by decide)
      · have htarget' := (Hop.target_eq hsome).trans htarget
        exact Option.some_ne_none _ (htarget'.symm.trans hnone.2)
    | cons hop' hops =>
      refine ih ?_
      rw [hhops] at hlast ⊢
      exact hlast

/-- When the last response of a successful call is a short one, the caller reads it,
and it has status 200, exactly if it has that status and either ends itself or comes
before a zero that was already in the buffer. -/
theorem final_response_iff
    (h : performHttpRequest env fuel host path (some content) 0 = some out)
    (hcontent : content.length = messageSize) (hhops : out.hops = earlier ++ [last])
    (hshort : ∀ hop ∈ out.hops, hop.response.length < messageSize) :
    (out.result = .successful → ∀ buffer ∈ out.response,
        cString buffer = cString last.response ∧ IsOk last.response) ↔
      (last.received ≠ none ∧ last.target = none → IsOk last.response ∧
        (0 ∈ last.response ∨
          (overlaid content (earlier.map Hop.response))[last.response.length]? = some 0)) := by
  have hperformed := performHttpRequest_performed h
  have hlast : last ∈ out.hops := by simp [hhops]
  have hlength : (overlaid content (earlier.map Hop.response)).length = messageSize := by
    rw [← hcontent]
    refine overlaid_length fun bytes hbytes => ?_
    obtain ⟨hop, hhop, rfl⟩ := List.mem_map.1 hbytes
    rw [hcontent]
    exact (hshort hop (by simp [hhops, hhop])).le
  have hoverlaid : out.response =
      some (storeAt (overlaid content (earlier.map Hop.response)) 0 last.response) := by
    rw [hperformed.response_eq, hhops, List.map_append, Option.map_some, overlaid,
      List.foldl_append]
    rfl
  rw [hperformed.successful_iff (by rw [hhops]; exact List.getLast?_concat), hoverlaid]
  refine imp_congr_right fun _ => ?_
  rw [and_comm, ← cString_storeAt_iff (by rw [hlength]; exact hshort last hlast)]
  simp

/-- The first call of `main`, with a zeroed buffer. -/
theorem final_response_iff_zeroed :
    ∃ out, performHttpRequest (fun _ => .answering okResponse) 3 (bytesOf "httpstat.us")
        (bytesOf "/200") (some (List.replicate messageSize 0)) 0 = some out ∧
      out.result = .successful ∧ ∀ buffer ∈ out.response, cString buffer = okResponse := by
  have hle : okResponse.length ≤ messageSize := by decide
  have htarget : (redirection (answer okResponse).buffer).2 = none := by decide +kernel
  let last := finalHop (bytesOf "httpstat.us") (bytesOf "/200") okResponse
  have hresponse : last.response = okResponse := by decide
  have hrun := performHttpRequest_answered (bytesOf "httpstat.us") (bytesOf "/200")
    (some (List.replicate messageSize 0)) hle htarget
  have hhops : [last] = [] ++ [last] := rfl
  have hiff := final_response_iff hrun (List.length_replicate ..) hhops
    (List.forall_mem_singleton.2 (by rw [hresponse]; decide))
  rw [hresponse] at hiff
  have hstale : (overlaid (List.replicate messageSize 0) [])[okResponse.length]? = some 0 :=
    List.getElem?_replicate_of_lt (by decide)
  refine ⟨_, hrun, rfl, fun buffer hbuffer => ?_⟩
  exact (hiff.2 (fun _ => ⟨by decide, .inr hstale⟩) rfl buffer hbuffer).1.trans (by decide)

/-- Two calls of `main` with one buffer: the second response is shorter, and the
string ends like the first. And a call that is answered with status 404. -/
theorem final_response_stale :
    (∃ content out last,
      performHttpRequest (fun _ => .answering (okResponse ++ bytesOf "first")) 3
          (bytesOf "httpstat.us") (bytesOf "/200") (some (List.replicate messageSize 0)) 0 =
        some ⟨.successful, some content, [last]⟩ ∧
      performHttpRequest (fun _ => .answering okResponse) 3 (bytesOf "httpstat.us")
          (bytesOf "/200") (some content) 0 = some out ∧
      out.result = .successful ∧
      ∀ buffer ∈ out.response, cString buffer = okResponse ++ bytesOf "first") ∧
    ∃ out last,
      performHttpRequest (fun _ => .answering (bytesOf "HTTP/1.1 404 Not Found\r\n\r\n")) 3
          (bytesOf "httpstat.us") (bytesOf "/404") none 0 = some out ∧
      out.result = .successful ∧ out.hops = [last] ∧ ¬ IsOk last.response := by
  refine ⟨⟨storeAt (List.replicate messageSize 0) 0 (okResponse ++ bytesOf "first"), _, _,
    performHttpRequest_answered _ _ _ (by decide) (by decide +kernel),
    performHttpRequest_answered _ _ _ (by decide) (by decide +kernel), rfl, ?_⟩, _, _,
    performHttpRequest_answered _ _ _ (by decide) (by decide +kernel), rfl, rfl, by decide⟩
  rintro buffer hbuffer
  cases hbuffer
  decide +kernel

end LinuxNet.HttpClient
