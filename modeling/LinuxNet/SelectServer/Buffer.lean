-- SUMMARY: What a round of the select server does with its request buffer.
import LinuxNet.Base.Buffer
import LinuxNet.SelectServer.Tracking

/-! # The request buffer of the select server -/

namespace LinuxNet.SelectServer

/-- The words that a request is compared with. -/
def words : List (List UInt8) := [bytesOf "quit", bytesOf "exit"]

/-- What the calls of a round do with `request_buffer`. -/
def bufferLog (inp : RoundInput) : BufferLog Call messageSize where
  recv
    | .recv fd _ => some (inp.recv fd)
    | _ => none
  store
    | .terminate index => some index
    | _ => none
  stored := RecvResult.stored
  strings := RecvResult.strings words

variable {s s' : Server} {inp : RoundInput} {i : Nat}

theorem serveClient_terminated (h : (bufferLog inp).Terminated s.calls) :
    (bufferLog inp).Terminated (serveClient inp i s).calls := by
  have hrecv : (bufferLog inp).recv (.recv i (s.socketOf i)) = some (inp.recv i) := rfl
  unfold serveClient
  dsimp only
  cases hresult : inp.recv i with
  | fail e =>
    rw [hresult] at hrecv
    exact (h.unstored hrecv rfl rfl).other _ rfl rfl
  | data bytes hb =>
    rw [hresult] at hrecv
    dsimp only
    by_cases hnil : bytes = []
    · rw [if_pos hnil]
      exact (h.unstored hrecv rfl (if_pos hnil)).other _ rfl rfl
    · have hstored := h.stored (.terminate bytes.length) hrecv rfl rfl rfl (if_neg hnil)
      have hsent := hstored.other (.send i (s.socketOf i)) rfl rfl
      rw [if_neg hnil]
      split
      · exact hsent.other (.close i) rfl rfl
      · exact hsent

theorem Visited.terminated (h : (bufferLog inp).Terminated s.calls)
    (hvisit : Visited inp i s s') : (bufferLog inp).Terminated s'.calls := by
  cases hvisit with
  | refused hi haccept => exact h.other _ rfl rfl
  | unplaced fd hi haccept hroom => exact h.other _ rfl rfl
  | added fd hi haccept hroom hfd => exact (h.other _ rfl rfl).other _ rfl rfl
  | served hi => exact serveClient_terminated h

theorem round_terminated (hround : Round s inp s') : (bufferLog inp).Terminated s'.calls := by
  obtain ⟨-, -, h⟩ := scan_invariant (I := fun _ t => (bufferLog inp).Terminated t.calls)
    (fun i t t' ht _ hvisit => (visit_cases hvisit).terminated ht) (fun _ _ ht _ => ht)
    hround.2 rfl
  exact h

/-- A round stays inside the buffer exactly if its receives leave room for a terminator. -/
theorem bufferLog_inArray_iff (hround : Round s inp s') :
    (∀ a ∈ (bufferLog inp).accesses s'.calls, a.InArray messageSize) ↔
      ∀ r ∈ (bufferLog inp).received s'.calls, r.Short :=
  (round_terminated hround).inArray_iff fun _ => RecvResult.inArray_iff (by decide)

end LinuxNet.SelectServer
