-- SUMMARY: When the redirecting client releases the address lists and the sockets of its hops.
import LinuxNet.HttpClient.Termination

/-! # The resources of the redirecting client

A hop that fails releases what it has, and so does the last one. A hop that is
redirected calls the next one first and never comes back to its own resources. -/

namespace LinuxNet.HttpClient

/-- An address list that has been obtained is freed exactly once, and a socket that
has been opened is closed exactly once; neither is used afterwards. -/
def Hop.Released (hop : Hop) : Prop :=
  ((∃ host port, .getaddrinfo host port true ∈ hop.calls) → addressList.ReleasedOnce hop.calls) ∧
    (.socket true ∈ hop.calls → socket.ReleasedOnce hop.calls)

variable {env : Nat → Peer} {fuel n : Nat} {host path : List UInt8} {port : UInt16}
  {response : Option (List UInt8)} {hop : Hop} {out : Outcome} {calls : List Call}
  {sends : List SendCall} {r : Receiving}

/-! ## Calls that keep the resources -/

theorem kept_connected (host path : List UInt8) (port : UInt16) (sends : List SendCall) :
    addressList.Kept (connected host path port ++ sends.map .send) ∧
      socket.Kept (connected host path port ++ sends.map .send) := by
  constructor
  · apply Handle.Kept.append
    · simp [Handle.Kept, connected, lookedUp, addressList]
    · simp [Handle.Kept, addressList]
  · apply Handle.Kept.append
    · simp [Handle.Kept, connected, lookedUp, socket]
    · simp [Handle.Kept, socket]

theorem kept_recvCalls (r : Receiving) :
    addressList.Kept (recvCalls r) ∧ socket.Kept (recvCalls r) := by
  constructor
  · simp [Handle.Kept, recvCalls, addressList, or_imp, forall_and]
  · simp [Handle.Kept, recvCalls, socket, or_imp, forall_and]

theorem kept_texts (accesses : List Access) :
    addressList.Kept (accesses.map (.text messageSize)) ∧
      socket.Kept (accesses.map (.text messageSize)) := by
  constructor
  · simp [Handle.Kept, addressList]
  · simp [Handle.Kept, socket]

/-- The calls end with both releases. -/
theorem released_of_kept (haddress : addressList.Kept calls) (hsocket : socket.Kept calls) :
    addressList.ReleasedOnce (calls ++ [.freeaddrinfo, .close]) ∧
      socket.ReleasedOnce (calls ++ [.freeaddrinfo, .close]) := by
  constructor
  · exact haddress.releasedOnce rfl (by simp [Handle.Unused, addressList])
  · rw [List.append_cons]
    exact (hsocket.append (by simp [Handle.Kept, socket])).releasedOnce rfl .nil

/-! ## Hops -/

/-- A hop without a response has released what it had. -/
theorem Exchanged.released (h : Exchanged host path hop) (hnone : hop.received = none) :
    hop.Released := by
  cases h with
  | noProto => simp [Hop.Released]
  | noService => simp [Hop.Released]
  | unresolved => simp [Hop.Released, lookedUp]
  | @unopened port =>
    refine ⟨fun _ => ?_, by simp [lookedUp]⟩
    have hkept : addressList.Kept (lookedUp host port true ++
        [.socket false, .report (bytesOf "socket() failed")]) := by
      simp [Handle.Kept, lookedUp, addressList]
    exact hkept.releasedOnce (c := .freeaddrinfo) rfl .nil
  | @unconnected port =>
    have haddress : addressList.Kept (lookedUp host port true ++
        [.socket true, .connect false, .report (bytesOf "connect() failed")]) := by
      simp [Handle.Kept, lookedUp, addressList]
    have hreleased := released_of_kept haddress (by simp [Handle.Kept, lookedUp, socket])
    exact ⟨fun _ => hreleased.1, fun _ => hreleased.2⟩
  | @unsent port s hs hlt =>
    obtain ⟨haddress, hsocket⟩ := kept_connected host path port s.sends
    have hreport : addressList.Kept [.report (bytesOf "Can not send a complete http request")] := by
      simp [Handle.Kept, addressList]
    have hreleased := released_of_kept (haddress.append hreport)
      (hsocket.append (by simp [Handle.Kept, socket]))
    rw [List.append_assoc] at hreleased
    exact ⟨fun _ => hreleased.1, fun _ => hreleased.2⟩
  | answered => cases hnone

/-- A hop with a response has obtained both resources, and still has them. -/
theorem Exchanged.kept (h : Exchanged host path hop) (hsome : hop.received = some r) :
    .socket true ∈ (hop.searched r).calls ∧ addressList.Kept (hop.searched r).calls ∧
      socket.Kept (hop.searched r).calls := by
  cases h with
  | answered hs hall hr =>
    cases hsome
    obtain ⟨haddress, hsocket⟩ := kept_connected host path _ _
    obtain ⟨haddress', hsocket'⟩ := kept_recvCalls r
    obtain ⟨haddress'', hsocket''⟩ := kept_texts (redirection r.buffer).1
    refine ⟨by simp [Hop.searched, Hop.andThen, connected], ?_, ?_⟩
    · exact (haddress.append haddress').append haddress''
    · exact (hsocket.append hsocket').append hsocket''
  | _ => cases hsome

theorem Performed.released_iff (h : Performed host path response n out) :
    (∀ hop ∈ out.hops, hop.Released) ↔ ∀ hop ∈ out.hops, hop.target = none := by
  induction h with
  | tooMany hn => simp
  | failed hn hhop hnone =>
    exact iff_of_true (List.forall_mem_singleton.2 (hhop.released hnone))
      (List.forall_mem_singleton.2 (by rw [Hop.target, hnone]; rfl))
  | final hn hhop hsome htarget =>
    obtain ⟨-, haddress, hsocket⟩ := hhop.kept hsome
    obtain ⟨hfreed, hclosed⟩ := released_of_kept haddress hsocket
    exact iff_of_true (List.forall_mem_singleton.2 ⟨fun _ => hfreed, fun _ => hclosed⟩)
      (List.forall_mem_singleton.2 ((Hop.target_eq hsome).trans htarget))
  | redirected hn hhop hsome htarget hrest ih =>
    obtain ⟨hopened, -, hsocket⟩ := hhop.kept hsome
    refine iff_of_false (fun hreleased => ?_) (fun hnone => ?_)
    · have hhop := (List.forall_mem_cons.1 hreleased).1
      exact hsocket.not_releasedOnce (hhop.2 hopened)
    · have htarget' := (List.forall_mem_cons.1 hnone).1
      rw [Hop.target_eq hsome, htarget] at htarget'
      cases htarget'

/-- Every hop releases its resources exactly if no response redirects. -/
theorem resources_released_iff
    (h : performHttpRequest env fuel host path response n = some out) :
    (∀ hop ∈ out.hops, hop.Released) ↔ ∀ hop ∈ out.hops, hop.target = none :=
  (performHttpRequest_performed h).released_iff

/-- A server that answers with status 200: nothing is left. -/
theorem resources_released_iff_ok :
    ∃ out, performHttpRequest (fun _ => .answering okResponse) 3 (bytesOf "httpstat.us")
        (bytesOf "/200") none 0 = some out ∧
      out.result = .successful ∧ ∀ hop ∈ out.hops, hop.Released := by
  have htarget : (redirection (answer okResponse).buffer).2 = none := by decide +kernel
  have hrun := performHttpRequest_answered (bytesOf "httpstat.us") (bytesOf "/200") none
    (by decide) htarget
  exact ⟨_, hrun, rfl, (resources_released_iff hrun).2 (List.forall_mem_singleton.2 htarget)⟩

/-- One redirection: the first hop keeps its address list and its socket. -/
theorem resources_not_released :
    ∃ out, performHttpRequest (redirecting (movedTo (bytesOf "a")) okResponse) 4
        (bytesOf "httpstat.us") (bytesOf "/301") none 0 = some out ∧
      out.result = .successful ∧ ∃ hop ∈ out.hops, .socket true ∈ hop.calls ∧
        addressList.Kept hop.calls ∧ socket.Kept hop.calls ∧ ¬ hop.Released := by
  have hle : (movedTo (bytesOf "a")).length ≤ messageSize := by decide
  have htarget : (redirection (answer (movedTo (bytesOf "a"))).buffer).2 = some (bytesOf "a") := by
    decide +kernel
  have hfinal : (redirection (answer okResponse).buffer).2 = none := by decide +kernel
  have hrun := performHttpRequest_redirecting (bytesOf "httpstat.us") (bytesOf "/301") none hle
    (by decide) htarget hfinal
  have hexchange : exchange (.answering (movedTo (bytesOf "a"))) 2 (bytesOf "httpstat.us")
      (bytesOf "/301") = some _ := exchange_answering hle
  obtain ⟨hopened, haddress, hsocket⟩ := (exchange_exchanged hexchange).kept rfl
  exact ⟨_, hrun, rfl, _, List.mem_cons_self, hopened, haddress, hsocket,
    fun hreleased => hsocket.not_releasedOnce (hreleased.2 hopened)⟩

end LinuxNet.HttpClient
