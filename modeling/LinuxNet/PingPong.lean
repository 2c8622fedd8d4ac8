-- SUMMARY: When the number of replies to a client of the ping servers does not depend on how TCP cuts what it sends.
import LinuxNet.Base.Loop
import LinuxNet.Base.Search
import LinuxNet.ThreadServer.Server
import LinuxNet.TimerServer.Server

/-! # Replies to "ping"

Both servers search every receive for "ping", and keep nothing of it. -/

namespace LinuxNet

variable {stream : List UInt8}

namespace TimerServer

variable {conn : Connection} {k : Kernel}

/-- The calls on a connection that is received from again and again, while the
replies are sent. -/
def converse (conn : Connection) : List (RecvResult (bufSize - 1)) → Kernel → Except Halt Kernel
  | [], k => pure k
  | result :: rest, k => do
    let inp : ConnInput := ⟨0, result, .sent 4, 0, none, true, true⟩
    let (doDelete, k) ← handleData inp conn k
    if doDelete then pure k else converse conn rest k

/-- The number of calls of `send` on a connection. -/
def Kernel.sends (fd : Int) (k : Kernel) : Nat := k.log.countP fun event => event.call = .send fd

/-- The replies to what is received from a connection. -/
def pongs (conn : Connection) (results : List (RecvResult (bufSize - 1))) (k : Kernel) :
    Except Halt Nat := do
  let k' ← converse conn results k
  pure (k'.sends conn.connFd - k.sends conn.connFd)

/-- A reply is sent for every piece that has the word. -/
theorem handleData_piece (p : Piece (bufSize - 1)) :
    ∃ k', handleData ⟨0, p.result, .sent 4, 0, none, true, true⟩ conn k = .ok (false, k') ∧
      k'.sends conn.connFd = k.sends conn.connFd +
        if strstr p.1 (bytesOf "ping") then 1 else 0 := by
  obtain ⟨bytes, hne, hle⟩ := p
  have hpos : ¬ (bytes.length : Int) < 0 := by omega
  by_cases hfound : strstr bytes (bytesOf "ping") = true
  · refine ⟨((k.advance 0).record (.recv conn.connFd)).record (.send conn.connFd), ?_, ?_⟩
    · simp [handleData, recvNonBlock, sendNonBlock, Piece.result, hne, hpos, strstr_filled,
        hfound]
    · simp [Kernel.sends, Kernel.record, Kernel.advance, List.countP_append, hfound]
  · refine ⟨(k.advance 0).record (.recv conn.connFd), ?_, ?_⟩
    · simp [handleData, recvNonBlock, Piece.result, hne, hpos, strstr_filled, hfound]
    · simp [Kernel.sends, Kernel.record, Kernel.advance, List.countP_append, hfound]

theorem pongs_eq (s : Segmentation (bufSize - 1) stream) :
    pongs conn s.results k = .ok (s.hits (bytesOf "ping")) := by
  have hall : ∀ (pieces : List (Piece (bufSize - 1))) k, ∃ k',
      converse conn (pieces.map Piece.result) k = .ok k' ∧ k'.sends conn.connFd =
        k.sends conn.connFd + pieces.countP fun p => strstr p.1 (bytesOf "ping") := by
    intro pieces
    induction pieces with
    | nil => exact fun k => ⟨k, rfl, rfl⟩
    | cons p pieces ih =>
      intro k
      obtain ⟨k₁, hfirst, hsends⟩ := @handleData_piece conn k p
      obtain ⟨k₂, hrest, hmore⟩ := ih k₁
      refine ⟨k₂, ?_, ?_⟩
      · rw [List.map_cons, converse, hfirst]
        exact hrest
      · rw [hmore, hsends, List.countP_cons]
        omega
  obtain ⟨k', hrun, hsends⟩ := hall s.pieces k
  rw [pongs, Segmentation.results, hrun, Except.bind_ok, hsends, Nat.add_sub_cancel_left]
  rfl

end TimerServer

namespace ThreadServer

variable {task : HandleConnectionTask}

/-- The replies to what is received from a connection, one by each worker that
comes to the `send`. -/
def pongs (task : HandleConnectionTask) (results : List (RecvResult 1023)) : Nat :=
  results.countP fun result => afterRecv task result = .sending task

theorem pongs_eq (s : Segmentation 1023 stream) :
    pongs task s.results = s.hits (bytesOf "ping") := by
  rw [pongs, Segmentation.results, List.countP_map, Segmentation.hits]
  refine List.countP_congr fun p _ => ?_
  obtain ⟨bytes, hne, hle⟩ := p
  by_cases hfound : strstr bytes (bytesOf "ping") = true
  · simp [Piece.result, afterRecv, hne, strstr_filled, ping, hfound]
  · simp [Piece.result, afterRecv, hne, strstr_filled, ping, hfound]

end ThreadServer

/-- The number of replies does not depend on how a stream is cut into receives if
and only if the stream does not have a "ping". -/
theorem pongs_independent_iff (stream : List UInt8) :
    (∀ conn k, (∀ s t : Segmentation 1023 stream,
        TimerServer.pongs conn s.results k = TimerServer.pongs conn t.results k) ↔
      ¬ bytesOf "ping" <:+: stream) ∧
    ∀ task, (∀ s t : Segmentation 1023 stream,
        ThreadServer.pongs task s.results = ThreadServer.pongs task t.results) ↔
      ¬ bytesOf "ping" <:+: stream := by
  have hhits : (∀ s t : Segmentation 1023 stream,
      s.hits (bytesOf "ping") = t.hits (bytesOf "ping")) ↔ ¬ bytesOf "ping" <:+: stream :=
    Segmentation.hits_eq_iff (by decide) (by decide) (by decide)
  constructor
  · intro conn k
    rw [← hhits]
    have hok : ∀ s : Segmentation 1023 stream, TimerServer.pongs conn s.results k =
        .ok (s.hits (bytesOf "ping")) := TimerServer.pongs_eq
    simp only [hok, Except.ok.injEq]
  · intro task
    rw [← hhits]
    simp only [ThreadServer.pongs_eq]

/-- A "ping" in pieces of one byte gets no reply from either server. -/
theorem pongs_depend_on_cut :
    (¬ ∀ (stream : List UInt8) (s t : Segmentation 1023 stream) conn k,
      TimerServer.pongs conn s.results k = TimerServer.pongs conn t.results k) ∧
    ¬ ∀ (stream : List UInt8) (s t : Segmentation 1023 stream) task,
      ThreadServer.pongs task s.results = ThreadServer.pongs task t.results := by
  let joined : Segmentation 1023 (bytesOf "ping") := .whole (by decide) (by decide)
  let cut : Segmentation 1023 (bytesOf "ping") := .bytewise (by decide) _
  constructor
  · intro hall
    have hsame := hall _ joined cut ⟨4, 5⟩ ⟨0, ∅, fun _ => none, []⟩
    exact absurd (Except.ok.inj hsame) (by decide)
  · intro hall
    exact absurd (hall _ joined cut ⟨4, 0⟩) (by decide)

end LinuxNet
