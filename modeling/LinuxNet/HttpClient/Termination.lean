-- SUMMARY: The redirecting client ends, whatever the servers do.
import LinuxNet.HttpClient.RedirectionSpec

/-! # Termination

The loops of a hop end because each round sends or stores something, and the hops
end because they are counted. -/

namespace LinuxNet.HttpClient

variable {peer : Peer} {env : Nat → Peer} {fuel fuel' n : Nat} {host path : List UInt8}
  {response : Option (List UInt8)} {hop : Hop} {out : Outcome} {calls calls' : List Call}

/-- The request of a hop. -/
def Hop.request (hop : Hop) : List UInt8 := requestText hop.path hop.host

/-- `http_received_bytes`. -/
def Hop.receivedBytes (hop : Hop) : Nat := (hop.received.map Receiving.count).getD 0

def Call.isConnect : Call → Bool
  | .connect _ => true
  | _ => false

/-- How many connections have been opened, or tried. -/
def connections (calls : List Call) : Nat := calls.countP Call.isConnect

/-! ## Exchanges -/

theorem exchange_mono (h : exchange peer fuel host path = some hop) (hle : fuel ≤ fuel') :
    exchange peer fuel' host path = some hop := by
  unfold exchange at h ⊢
  cases hproto : peer.proto with
  | false =>
    rw [hproto] at h
    exact h
  | true =>
    cases hservice : peer.service with
    | none =>
      rw [hproto, hservice] at h
      exact h
    | some port =>
      cases hresolves : peer.resolves with
      | false =>
        rw [hproto, hservice, hresolves] at h
        exact h
      | true =>
        cases hopens : peer.opens with
        | false =>
          rw [hproto, hservice, hresolves, hopens] at h
          exact h
        | true =>
          cases hconnects : peer.connects with
          | false =>
            rw [hproto, hservice, hresolves, hopens, hconnects] at h
            exact h
          | true =>
            simp only [hproto, hservice, hresolves, hopens, hconnects, Bool.not_true,
              Bool.false_eq_true, if_false] at h ⊢
            obtain ⟨sending, hsend, h⟩ := Option.bind_eq_some_iff.1 h
            refine Option.bind_eq_some_iff.2 ⟨sending, loop_mono hsend hle, ?_⟩
            split at h
            · exact (if_pos ‹_›).trans h
            · obtain ⟨receiving, hrecv, h⟩ := Option.bind_eq_some_iff.1 h
              refine (if_neg ‹_›).trans ?_
              exact Option.bind_eq_some_iff.2 ⟨receiving, loop_mono hrecv hle, h⟩

/-- With fuel for every byte of the request, and of the buffer, an exchange ends. -/
theorem exchange_ends (peer : Peer) (hrequest : (requestText path host).length < fuel)
    (hbuffer : messageSize < fuel) : ∃ hop, exchange peer fuel host path = some hop := by
  obtain ⟨⟨sending, stopped⟩, hsend⟩ := sendLoop_ends (· ≤ 0) peer.send
    (fun k size _ hrc => by simpa using hrc) hrequest
  obtain ⟨receiving, hrecv⟩ := recvLoop_ends peer.recv hbuffer
  unfold exchange
  dsimp only
  split
  · exact ⟨_, rfl⟩
  · split
    · exact ⟨_, rfl⟩
    · split
      · exact ⟨_, rfl⟩
      · split
        · exact ⟨_, rfl⟩
        · split
          · exact ⟨_, rfl⟩
          · rw [hsend]
            dsimp only [Option.bind_eq_bind, Option.bind_some]
            split
            · exact ⟨_, rfl⟩
            · rw [hrecv]
              exact ⟨_, rfl⟩

/-- What each hop keeps to. -/
structure Hop.Bounded (hop : Hop) : Prop where
  sent_le : hop.sent ≤ hop.request.length
  received_le : hop.receivedBytes ≤ messageSize
  connections_le : connections hop.calls ≤ 1

theorem connections_append :
    connections (calls ++ calls') = connections calls + connections calls' :=
  List.countP_append

theorem connections_eq_zero (h : ∀ c ∈ calls, c.isConnect = false) : connections calls = 0 :=
  List.countP_eq_zero.2 fun c hc => Bool.eq_false_iff.1 (h c hc)

theorem connections_sends (sends : List SendCall) : connections (sends.map .send) = 0 :=
  connections_eq_zero (by simp [Call.isConnect])

theorem connections_recvCalls (r : Receiving) : connections (recvCalls r) = 0 :=
  connections_eq_zero (by simp [recvCalls, Call.isConnect, or_imp, forall_and])

theorem Exchanged.bounded (h : Exchanged host path hop) : hop.Bounded := by
  cases h with
  | noProto => exact ⟨Nat.zero_le _, Nat.zero_le _, Nat.zero_le _⟩
  | noService => exact ⟨Nat.zero_le _, Nat.zero_le _, Nat.zero_le _⟩
  | unresolved => exact ⟨Nat.zero_le _, Nat.zero_le _, Nat.zero_le _⟩
  | unopened => exact ⟨Nat.zero_le _, Nat.zero_le _, Nat.zero_le _⟩
  | unconnected => exact ⟨Nat.zero_le _, Nat.zero_le _, le_rfl⟩
  | unsent hs _ =>
    refine ⟨hs.count_le, Nat.zero_le _, ?_⟩
    rw [connections_append, connections_append, connections_sends]
    exact le_rfl
  | answered hs hall hr =>
    refine ⟨hs.count_le, hr.count_le, ?_⟩
    rw [connections_append, connections_append, connections_sends, connections_recvCalls]
    exact le_rfl

theorem Hop.Bounded.andThen (h : hop.Bounded) (hcalls : connections calls = 0) :
    (hop.andThen calls).Bounded where
  sent_le := h.sent_le
  received_le := h.received_le
  connections_le := by
    rw [Hop.andThen, connections_append, hcalls]
    exact h.connections_le

theorem Hop.Bounded.searched (h : hop.Bounded) (r : Receiving) : (hop.searched r).Bounded :=
  h.andThen (connections_eq_zero (by simp [Call.isConnect]))

/-! ## Whole calls -/

theorem performHttpRequest_mono
    (h : performHttpRequest env fuel host path response n = some out) (hle : fuel ≤ fuel') :
    performHttpRequest env fuel' host path response n = some out := by
  induction fuel generalizing fuel' host path response n out with
  | zero => cases h
  | succ fuel ih =>
    obtain ⟨m, rfl⟩ : ∃ m, fuel' = m + 1 := ⟨fuel' - 1, by omega⟩
    have hle' : fuel ≤ m := by omega
    unfold performHttpRequest at h ⊢
    split at h
    · exact (if_pos ‹_›).trans h
    · refine (if_neg ‹_›).trans ?_
      obtain ⟨hop, hexchange, h⟩ := Option.bind_eq_some_iff.1 h
      refine Option.bind_eq_some_iff.2 ⟨hop, exchange_mono hexchange hle', ?_⟩
      cases hreceived : hop.received with
      | none =>
        rw [hreceived] at h
        exact h
      | some r =>
        simp only [hreceived] at h ⊢
        split
        · rename_i newHost htarget
          rw [htarget] at h
          obtain ⟨rest, hrest, h⟩ := Option.bind_eq_some_iff.1 h
          exact Option.bind_eq_some_iff.2 ⟨rest, ih hrest hle', h⟩
        · rename_i htarget
          rw [htarget] at h
          exact h

/-- A call ends: each hop does, and there are `maxRedirection + 1 - n` of them at most. -/
theorem performHttpRequest_ends (env : Nat → Peer) (host path : List UInt8)
    (response : Option (List UInt8)) (n : Nat) :
    ∃ fuel out, performHttpRequest env fuel host path response n = some out := by
  -- by the number of hops left
  induction hm : maxRedirection + 1 - n generalizing n host path response with
  | zero => exact ⟨1, _, if_pos (by omega)⟩
  | succ m ih =>
    let bound := max (requestText path host).length messageSize + 1
    have hrequest : (requestText path host).length < bound := by omega
    obtain ⟨hop, hexchange⟩ := exchange_ends (env n) hrequest (by omega)
    have hn : n ≤ maxRedirection := by omega
    cases hreceived : hop.received with
    | none => exact ⟨bound + 1, _, performHttpRequest_failed hn hexchange hreceived⟩
    | some r =>
      cases htarget : (redirection r.buffer).2 with
      | none => exact ⟨bound + 1, _, performHttpRequest_final hn hexchange hreceived htarget⟩
      | some newHost =>
        obtain ⟨fuel, rest, hrest⟩ := ih newHost (bytesOf "/") (copied response r) (n + 1)
          (by omega)
        exact ⟨max bound fuel + 1, _,
          performHttpRequest_redirected hn (exchange_mono hexchange (le_max_left _ _)) hreceived
            htarget (performHttpRequest_mono hrest (le_max_right bound fuel))⟩

/-- Every hop is bounded, and there are not too many. -/
theorem Performed.bounded (h : Performed host path response n out) :
    out.hops.length ≤ maxRedirection + 1 - n ∧ ∀ hop ∈ out.hops, hop.Bounded := by
  induction h with
  | tooMany hn => exact ⟨Nat.zero_le _, by simp⟩
  | failed hn hhop hnone =>
    refine ⟨?_, by simpa using hhop.bounded⟩
    simp only [List.length_singleton]
    omega
  | final hn hhop hsome htarget =>
    refine ⟨?_, List.forall_mem_singleton.2 ((hhop.bounded.searched _).andThen rfl)⟩
    simp only [List.length_singleton]
    omega
  | redirected hn hhop hsome htarget hrest ih =>
    refine ⟨?_, List.forall_mem_cons.2 ⟨hhop.bounded.searched _, ih.2⟩⟩
    simp only [List.length_cons]
    have hlength := ih.1
    omega

theorem connections_hops {hops : List Hop} (h : ∀ hop ∈ hops, hop.Bounded) :
    connections (hops.flatMap Hop.calls) ≤ hops.length := by
  induction hops with
  | nil => exact le_rfl
  | cons hop hops ih =>
    obtain ⟨hhop, hhops⟩ := List.forall_mem_cons.1 h
    rw [List.flatMap_cons, connections_append, List.length_cons, Nat.add_comm]
    exact Nat.add_le_add (ih hhops) hhop.connections_le

/-- A request is answered, after `maxRedirection + 1` connections at most, and no hop
sends more than its request or receives more than its buffer holds. -/
theorem performHttpRequest_terminates (env : Nat → Peer) (host path : List UInt8)
    (response : Option (List UInt8)) :
    ∃ out bound,
      (∀ fuel, bound ≤ fuel → performHttpRequest env fuel host path response 0 = some out) ∧
      connections (out.hops.flatMap Hop.calls) ≤ maxRedirection + 1 ∧
      ∀ hop ∈ out.hops, hop.sent ≤ hop.request.length ∧ hop.receivedBytes ≤ messageSize := by
  obtain ⟨fuel, out, h⟩ := performHttpRequest_ends env host path response 0
  obtain ⟨hlength, hbounded⟩ := (performHttpRequest_performed h).bounded
  refine ⟨out, fuel, fun fuel' hle => performHttpRequest_mono h hle,
    (connections_hops hbounded).trans hlength, fun hop hhop => ?_⟩
  exact ⟨(hbounded hop hhop).sent_le, (hbounded hop hhop).received_le⟩

end LinuxNet.HttpClient
