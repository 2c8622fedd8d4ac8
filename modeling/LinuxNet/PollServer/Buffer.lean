-- SUMMARY: What a round of the poll server does with its request buffer.
import LinuxNet.Base.Buffer
import LinuxNet.PollServer.Coverage

/-! # The request buffer of the poll server -/

namespace LinuxNet.PollServer

/-- The words that a request is compared with. -/
def words : List (List UInt8) := [bytesOf "quit", bytesOf "exit"]

/-- What the calls of a round do with `request_buffer`. -/
def bufferLog (inp : RoundInput) : BufferLog Call messageSize where
  recv
    | .recv fd => some (inp.recv fd)
    | _ => none
  store
    | .terminate index => some index
    | _ => none
  stored := RecvResult.stored
  strings := RecvResult.strings words

variable {s s' : Server} {inp : RoundInput} {i n : Nat}

theorem serveClient_terminated (h : (bufferLog inp).Terminated s.calls) :
    (bufferLog inp).Terminated (serveClient inp i s).1.calls := by
  have hrecv : (bufferLog inp).recv (.recv (s.fds i).fd) = some (inp.recv (s.fds i).fd) := rfl
  unfold serveClient
  by_cases hready : (s.fds i).revents.has pollIn = true
  · rw [if_pos hready]
    dsimp only
    cases hresult : inp.recv (s.fds i).fd with
    | fail e =>
      rw [hresult] at hrecv
      exact (h.unstored hrecv rfl rfl).other _ rfl rfl
    | data bytes hb =>
      rw [hresult] at hrecv
      dsimp only
      by_cases hnil : bytes = []
      · rw [if_pos hnil]
        exact (h.unstored hrecv rfl (if_pos hnil)).other _ rfl rfl
      · have hstored := h.stored (.terminate bytes.length) hrecv rfl rfl rfl (if_neg hnil)
        have hsent := hstored.other (.send (s.fds i).fd) rfl rfl
        rw [if_neg hnil]
        split
        · exact hsent.other (.close (s.fds i).fd) rfl rfl
        · exact hsent
  · rw [if_neg hready]
    exact h

theorem clientLoop_terminated (h : (bufferLog inp).Terminated s.calls) :
    (bufferLog inp).Terminated (clientLoop inp n i s).calls := by
  induction n generalizing i s with
  | zero => exact h
  | succ n ih =>
    rw [clientLoop]
    split
    · exact ih (serveClient_terminated h)
    · exact h

theorem round_terminated (hround : Round s inp s') : (bufferLog inp).Terminated s'.calls := by
  obtain ⟨revents, hpoll, -⟩ := Option.map_eq_some_iff.1 hround.2
  have hend := hround.2
  rw [round_eq inp s revents hpoll] at hend
  obtain rfl := Option.some.inj hend
  have hstart : ∀ t, loopStart inp s = some t → (bufferLog inp).Terminated t.calls := by
    intro t ht
    rw [loopStart, hpoll, Option.bind_some] at ht
    dsimp only at ht
    split at ht
    · obtain ⟨fd, -, rfl⟩ := Option.map_eq_some_iff.1 ht
      rw [Server.addClient_calls]
      exact BufferLog.terminated_nil.other _ rfl rfl
    · obtain rfl := Option.some.inj ht
      rfl
  cases ht : loopStart inp s with
  | none => rfl
  | some t => exact clientLoop_terminated (hstart t ht)

/-- A round stays inside the buffer exactly if its receives leave room for a terminator. -/
theorem bufferLog_inArray_iff (hround : Round s inp s') :
    (∀ a ∈ (bufferLog inp).accesses s'.calls, a.InArray messageSize) ↔
      ∀ r ∈ (bufferLog inp).received s'.calls, r.Short :=
  (round_terminated hround).inArray_iff fun _ => RecvResult.inArray_iff (by decide)

end LinuxNet.PollServer
