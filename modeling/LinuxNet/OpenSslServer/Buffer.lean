-- SUMMARY: What a round of the TLS server does with its request buffer.
import LinuxNet.Base.Buffer
import LinuxNet.OpenSslServer.Records

/-! # The request buffer of the TLS server

Here the request is compared before the terminator is stored, also when nothing
has been received. -/

namespace LinuxNet.OpenSslServer

/-- The words that a request is compared with. -/
def words : List (List UInt8) := [bytesOf "quit", bytesOf "exit"]

/-- What the calls of a round do with `request_buffer`. -/
def bufferLog (inp : RoundInput) : BufferLog Call messageSize where
  recv
    | .sslRead session => some (inp.sslRead session)
    | _ => none
  store
    | .terminate index => some index
    | _ => none
  stored r := if disconnects r then none else some r.bytes.length
  strings r := comparisons (filled messageSize r.bytes) words ++
    if disconnects r then [] else [.string (terminated messageSize r.bytes)]

variable {s s' : Server} {inp : RoundInput} {i n : Nat} {r : RecvResult messageSize}

theorem exists_of_received {calls : List Call} (h : r ∈ (bufferLog inp).received calls) :
    ∃ x, r = inp.sslRead x := by
  obtain ⟨call, -, hcall⟩ := List.mem_filterMap.1 h
  cases call with
  | sslRead x => exact ⟨x, (Option.some.inj hcall).symm⟩
  | _ => cases hcall

/-- A request to quit ends inside the array. -/
theorem zero_mem_of_isQuit {array : List UInt8} (hsize : messageSize ≤ array.length)
    (hquit : isQuit array) : 0 ∈ array := by
  apply zero_mem_of_cString_ne
  intro he
  unfold isQuit at hquit
  rw [he] at hquit
  rcases Bool.or_eq_true_iff.1 hquit with h | h
  · rw [of_decide_eq_true h] at hsize
    exact absurd hsize (by decide)
  · rw [of_decide_eq_true h] at hsize
    exact absurd hsize (by decide)

theorem disconnects_of_isQuit (h : isQuit (filled messageSize r.bytes)) :
    disconnects r = true := by
  cases r with
  | fail e => rfl
  | data bytes hb => exact Bool.or_eq_true_iff.2 (.inr h)

theorem short_or_isQuit_of_disconnects (h : disconnects r = true) :
    r.Short ∨ isQuit (filled messageSize r.bytes) := by
  have hsize : 0 < messageSize := by decide
  cases r with
  | fail e => exact .inl hsize
  | data bytes hb =>
    refine (Bool.or_eq_true_iff.1 h).imp_left fun hnil => ?_
    rw [RecvResult.Short, RecvResult.bytes, of_decide_eq_true hnil]
    exact hsize

/-- What is done after a receive stays inside the array exactly if there is room
for a terminator, or the request is to quit. -/
theorem inArray_iff : (∀ a ∈ ((bufferLog inp).stored r).toList.map .store ++
    (bufferLog inp).strings r, a.InArray messageSize) ↔
      r.Short ∨ isQuit (filled messageSize r.bytes) := by
  have hlength : messageSize ≤ (filled messageSize r.bytes).length := by
    rw [filled, List.length_append, List.length_replicate]
    omega
  constructor
  · intro h
    by_cases hdrop : disconnects r = true
    · exact short_or_isQuit_of_disconnects hdrop
    · exact .inl (h (.store r.bytes.length) (by simp [bufferLog, hdrop]))
  · intro h
    have hstring : (Access.string (filled messageSize r.bytes)).InArray messageSize :=
      h.elim zero_mem_filled (zero_mem_of_isQuit hlength)
    have hcompared : ∀ a ∈ comparisons (filled messageSize r.bytes) words,
        a.InArray messageSize := fun a ha => comparisons_eq_string ha ▸ hstring
    by_cases hdrop : disconnects r = true
    · simpa [bufferLog, hdrop] using hcompared
    · have hshort : r.Short := h.resolve_right fun hquit => hdrop (disconnects_of_isQuit hquit)
      intro a ha
      simp only [bufferLog, if_neg hdrop, Option.toList_some, List.map_cons, List.map_nil,
        List.mem_append, List.mem_singleton, terminated_eq] at ha
      rcases ha with rfl | ha | rfl
      · exact hshort
      · exact hcompared a ha
      · exact hstring

theorem sslFree_terminated (h : (bufferLog inp).Terminated s.calls)
    (hfree : s.sslFree i = .ok s') : (bufferLog inp).Terminated s'.calls := by
  unfold Server.sslFree at hfree
  split at hfree
  · obtain rfl := Except.ok.inj hfree
    exact h
  · split at hfree
    · obtain rfl := Except.ok.inj hfree
      exact h.other _ rfl rfl
    · cases hfree

theorem dropClient_terminated (h : (bufferLog inp).Terminated s.calls)
    (hdrop : s.dropClient i = .ok s') : (bufferLog inp).Terminated s'.calls := by
  obtain ⟨t, hfree, ht⟩ := Except.bind_eq_ok.1 hdrop
  have hfreed : (bufferLog inp).Terminated t.calls :=
    sslFree_terminated (h.other (.close (s.fds i).fd) rfl rfl) hfree
  obtain rfl := Except.ok.inj ht
  exact hfreed

theorem handshake_terminated (h : (bufferLog inp).Terminated s.calls)
    (hshake : handshake inp s = .ok s') : (bufferLog inp).Terminated s'.calls := by
  obtain ⟨x, -, hshake⟩ := Except.bind_eq_ok.1 hshake
  have haccept := h.other (.sslAccept x) rfl rfl
  dsimp only at hshake
  split at hshake
  · obtain rfl := Except.ok.inj hshake
    exact haccept
  · obtain ⟨t, hfree, ht⟩ := Except.bind_eq_ok.1 hshake
    have hfreed : (bufferLog inp).Terminated t.calls :=
      sslFree_terminated (haccept.other (.close (s.fds s.nfds).fd) rfl rfl) hfree
    obtain rfl := Except.ok.inj ht
    exact hfreed

theorem addClient_terminated {fd : Nat} (h : (bufferLog inp).Terminated s.calls)
    (hadd : addClient inp fd s = .ok s') : (bufferLog inp).Terminated s'.calls := by
  have haccept := h.other (.accept fd) rfl rfl
  unfold addClient at hadd
  dsimp only at hadd
  split at hadd
  · split at hadd
    · exact handshake_terminated (haccept.other (.sslNew _) rfl rfl) hadd
    · obtain rfl := Except.ok.inj hadd
      exact haccept
  · obtain rfl := Except.ok.inj hadd
    exact haccept

theorem serveClient_terminated (h : (bufferLog inp).Terminated s.calls)
    (hserve : serveClient inp i s = .ok s') : (bufferLog inp).Terminated s'.calls := by
  obtain ⟨x, -, hserve⟩ := Except.bind_eq_ok.1 hserve
  have hrecv : (bufferLog inp).recv (.sslRead x) = some (inp.sslRead x) := rfl
  dsimp only at hserve
  cases hresult : inp.sslRead x with
  | fail e =>
    rw [hresult] at hrecv hserve
    exact dropClient_terminated (h.unstored hrecv rfl rfl) hserve
  | data bytes hb =>
    rw [hresult] at hrecv hserve
    dsimp only at hserve
    split at hserve
    · rename_i hdrop
      exact dropClient_terminated (h.unstored hrecv rfl (if_pos hdrop)) hserve
    · rename_i hkeep
      obtain ⟨y, -, hwrite⟩ := Except.bind_eq_ok.1 hserve
      obtain rfl := Except.ok.inj hwrite
      exact (h.stored (.terminate bytes.length) hrecv rfl rfl rfl (if_neg hkeep)).other _ rfl rfl

theorem visit_terminated (h : (bufferLog inp).Terminated s.calls)
    (hvisit : visit inp i s = .ok s') : (bufferLog inp).Terminated s'.calls := by
  unfold visit at hvisit
  split at hvisit
  · split at hvisit
    · split at hvisit
      · obtain rfl := Except.ok.inj hvisit
        exact h
      · exact addClient_terminated h hvisit
    · exact serveClient_terminated h hvisit
  · obtain rfl := Except.ok.inj hvisit
    exact h

theorem visitFrom_terminated (h : (bufferLog inp).Terminated s.calls)
    (hrun : visitFrom inp n i s = .ok s') : (bufferLog inp).Terminated s'.calls := by
  induction n generalizing i s with
  | zero =>
    rw [visitFrom] at hrun
    split at hrun
    · cases hrun
    · obtain rfl := Except.ok.inj hrun
      exact h
  | succ n ih =>
    rw [visitFrom] at hrun
    split at hrun
    · obtain ⟨t, hvisit, hrest⟩ := Except.bind_eq_ok.1 hrun
      exact ih (visit_terminated h hvisit) hrest
    · obtain rfl := Except.ok.inj hrun
      exact h

theorem round_terminated (hround : Round s inp s') : (bufferLog inp).Terminated s'.calls := by
  have hrun := hround.2
  unfold round at hrun
  split at hrun
  · cases hrun
  · obtain ⟨t, hvisits, ht⟩ := Except.bind_eq_ok.1 hrun
    obtain rfl := Option.some.inj (Except.ok.inj ht)
    exact visitFrom_terminated BufferLog.terminated_nil hvisits

/-- A round stays inside the buffer exactly if its receives leave room for a
terminator, but for the requests to quit. -/
theorem bufferLog_inArray_iff (hround : Round s inp s') :
    (∀ a ∈ (bufferLog inp).accesses s'.calls, a.InArray messageSize) ↔
      ∀ r ∈ (bufferLog inp).received s'.calls, r.Short ∨ isQuit (filled messageSize r.bytes) :=
  (round_terminated hround).inArray_iff fun _ => inArray_iff

end LinuxNet.OpenSslServer
