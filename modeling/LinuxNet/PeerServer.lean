-- SUMMARY: The server that answers datagrams (10_peer_to_peer_client_server.c).
import LinuxNet.Base.Buffer
import LinuxNet.Base.Printf

/-! # The datagram server

`round` is one pass of the `while (1)` of `run_server`, which keeps nothing for
the next one. -/

namespace LinuxNet.PeerServer

/-- `MESSAGE_SIZE`. -/
def messageSize : Nat := 1024

/-- What a round does on the socket and with `request_buffer`. -/
inductive Call
  | recvfrom
  | access (a : Access)
  | sendto (response : List UInt8)
  deriving DecidableEq, Repr

structure RoundInput where
  recvfrom : RecvResult messageSize
  time : Int

/-- The answer to every request; `%d` takes the low 32 bits of the time. -/
def response (time : Int) : List UInt8 :=
  bytesOf "Server received request at " ++ printInt (BitVec.ofInt 32 time)

/-- One iteration of `while (1)`. The result of getnameinfo decides what is printed
in front of the request, and that of sendto whether an error is reported. -/
def round (inp : RoundInput) : List Call :=
  match inp.recvfrom with
  | .fail _ => [.recvfrom]
  | .data bytes _ =>
    if bytes = [] then [.recvfrom]
    else
      -- with `MESSAGE_SIZE` bytes this store is one past the end of the buffer
      [.recvfrom, .access (.store bytes.length),
        .access (.string (terminated messageSize bytes)), .sendto (response inp.time)]

/-- The accesses to `request_buffer`. -/
def bufferAccesses (calls : List Call) : List Access :=
  calls.filterMap fun
    | .access a => some a
    | _ => none

theorem bufferAccesses_round (inp : RoundInput) : bufferAccesses (round inp) =
    inp.recvfrom.stored.toList.map .store ++ inp.recvfrom.strings [] := by
  rw [RecvResult.stored_append_strings]
  unfold round
  cases inp.recvfrom with
  | fail e => rfl
  | data bytes hb =>
    dsimp only
    split
    · exact (if_pos ‹_›).symm
    · exact (if_neg ‹_›).symm

/-- A round stays inside the buffer exactly if it leaves room for a terminator. -/
theorem bufferAccesses_iff (inp : RoundInput) :
    (∀ a ∈ bufferAccesses (round inp), a.InArray messageSize) ↔ inp.recvfrom.Short := by
  rw [bufferAccesses_round]
  exact RecvResult.inArray_iff (by decide)

end LinuxNet.PeerServer
