-- SUMMARY: What the command servers do with their request buffers.
import LinuxNet.CommandServer.Handler

/-! # The request buffers of the command servers

Each thread has a buffer of its own. -/

namespace LinuxNet.CommandServer

/-- The accesses to `request_buffer`. -/
def bufferAccesses (calls : List Call) : List Access :=
  calls.filterMap fun
    | .access a => some a
    | _ => none

/-- The accesses of a step of 08. -/
def SimpleLabel.accesses : SimpleLabel → List Access
  | .accept _ => []
  | .pass inp => bufferAccesses (serve inp).1

/-- The accesses of a step of 09. -/
def ThreadLabel.accesses : ThreadLabel → List Access
  | .accept _ => []
  | .pass _ inp => bufferAccesses (serve inp).1

/-- If the step is a pass, its receive leaves room for a terminator. -/
def SimpleLabel.Short : SimpleLabel → Prop
  | .accept _ => True
  | .pass inp => inp.recv.Short

def ThreadLabel.Short : ThreadLabel → Prop
  | .accept _ => True
  | .pass _ inp => inp.recv.Short

theorem bufferAccesses_map (l : List Access) (calls : List Call) :
    bufferAccesses (l.map .access ++ calls) = l ++ bufferAccesses calls := by
  unfold bufferAccesses
  rw [List.filterMap_append, List.filterMap_map]
  exact congrArg (· ++ _) (List.filterMap_some)

theorem bufferAccesses_serve (inp : PassInput) : bufferAccesses (serve inp).1 =
    inp.recv.stored.toList.map .store ++ inp.recv.strings (lastCommands ++ [timeCommand]) := by
  rw [RecvResult.stored_append_strings]
  unfold serve
  cases inp.recv with
  | fail e => rfl
  | data bytes hb =>
    dsimp only
    split
    · exact (if_pos ‹_›).symm
    · rename_i hne
      refine Eq.trans ?_ (if_neg hne).symm
      split
      · rw [List.append_assoc]
        exact (bufferAccesses_map _ _).trans (List.append_nil _)
      · exact (bufferAccesses_map _ _).trans (List.append_nil _)

/-- A pass stays inside the buffer exactly if it leaves room for a terminator. -/
theorem bufferAccesses_iff (inp : PassInput) :
    (∀ a ∈ bufferAccesses (serve inp).1, a.InArray messageSize) ↔ inp.recv.Short := by
  rw [bufferAccesses_serve]
  exact RecvResult.inArray_iff (by decide)

theorem SimpleLabel.accesses_iff (l : SimpleLabel) :
    (∀ a ∈ l.accesses, a.InArray messageSize) ↔ l.Short := by
  cases l with
  | accept accepted => exact iff_of_true (by simp [SimpleLabel.accesses]) trivial
  | pass inp => exact bufferAccesses_iff inp

theorem ThreadLabel.accesses_iff (l : ThreadLabel) :
    (∀ a ∈ l.accesses, a.InArray messageSize) ↔ l.Short := by
  cases l with
  | accept thread => exact iff_of_true (by simp [ThreadLabel.accesses]) trivial
  | pass thread inp => exact bufferAccesses_iff inp

end LinuxNet.CommandServer
