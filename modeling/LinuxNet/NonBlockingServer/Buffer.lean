-- SUMMARY: What a round of the non-blocking server does with its buffer.
import LinuxNet.NonBlockingServer.Sessions

/-! # The buffer of the non-blocking server -/

namespace LinuxNet.NonBlockingServer

/-- The accesses to `buffer`. -/
def bufferAccesses (calls : List Call) : List Access :=
  calls.filterMap fun
    | .access a => some a
    | _ => none

/-- If the round receives from a client, this leaves room for a terminator. -/
def RoundInput.Short (inp : RoundInput) (s : Server) : Prop := 0 < inp.client s → inp.recv.Short

variable {s s' : Server} {inp : RoundInput}

theorem acceptClient_accesses (inp : RoundInput) (s : Server) :
    bufferAccesses (acceptClient inp s).calls = bufferAccesses s.calls := by
  unfold acceptClient
  split
  · cases inp.accept with
    | error errno =>
      dsimp only
      split <;> simp [Server.record, Server.leave, bufferAccesses]
    | ok fd => simp [Server.record, bufferAccesses]
  · rfl

theorem serveClient_accesses (hclient : 0 < s.sockClient) :
    bufferAccesses (serveClient inp s).calls = bufferAccesses s.calls ++
      (inp.recv.stored.toList.map .store ++ inp.recv.strings []) := by
  rw [RecvResult.stored_append_strings]
  unfold serveClient
  rw [if_pos hclient]
  dsimp only
  cases inp.recv with
  | fail errno =>
    dsimp only
    split <;> simp [Server.record, Server.leave, bufferAccesses, RecvResult.bytes]
  | data bytes hb =>
    dsimp only
    split
    · simp [Server.record, bufferAccesses, RecvResult.bytes, *]
    · simp [Server.record, bufferAccesses, RecvResult.bytes, comparisons, *]

/-- A round stays inside the buffer exactly if it leaves room for a terminator. -/
theorem bufferAccesses_iff (hround : Round s inp s') :
    (∀ a ∈ bufferAccesses s'.calls, a.InArray messageSize) ↔ inp.Short s := by
  obtain ⟨hrun, rfl⟩ := hround
  have hstart : bufferAccesses (acceptClient inp { s with calls := [] }).calls = [] :=
    acceptClient_accesses inp _
  have hsock := acceptClient_client inp { s with calls := [] }
  by_cases hclient : 0 < inp.client s
  · have hrunning : (acceptClient inp { s with calls := [] }).running = true := by
      rw [acceptClient_eq (s := { s with calls := [] }) hclient]
      exact hrun
    have hserved : bufferAccesses (round inp s).calls =
        inp.recv.stored.toList.map .store ++ inp.recv.strings [] := by
      rw [round, if_pos hrunning, serveClient_accesses (hsock ▸ hclient), hstart, List.nil_append]
    rw [hserved, RecvResult.inArray_iff (by decide)]
    exact ⟨fun h _ => h, fun h => h hclient⟩
  · have hskip : bufferAccesses (round inp s).calls = [] := by
      unfold round
      dsimp only
      split
      · rw [serveClient, if_neg (hsock ▸ hclient), hstart]
      · exact hstart
    rw [hskip]
    exact iff_of_true (by simp) fun h => absurd h hclient

end LinuxNet.NonBlockingServer
