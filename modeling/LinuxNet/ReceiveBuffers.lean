-- SUMMARY: When the servers keep the terminators and the strings of what they receive inside their buffers.
import LinuxNet.Base.Transition
import LinuxNet.CommandServer.Buffer
import LinuxNet.NonBlockingServer.Buffer
import LinuxNet.OpenSslServer.Buffer
import LinuxNet.PeerServer
import LinuxNet.PollServer.Buffer
import LinuxNet.SelectServer.Buffer

/-! # Receive buffers of the servers

Every server passes the whole size of its buffer to the receive, and stores a
zero behind what it has received. -/

namespace LinuxNet

/-- In each of the servers, the runs in which every terminator is stored inside the
buffer, and every string ends inside it, are the runs in which every receive
returns less than the buffer holds. The TLS server also gets away with a request to
quit that fills the buffer. -/
theorem buffers_inArray_iff {serving : Bool} {threads : Finset Nat}
    {nonBlocking : NonBlockingServer.Server} {select : SelectServer.Server}
    {poll : PollServer.Server} {openSsl : OpenSslServer.Server} :
    (∀ ls t, Run (fun s l t => CommandServer.simpleStep s l = some t ∧
        ∀ a ∈ l.accesses, a.InArray CommandServer.messageSize) serving ls t ↔
      Run (fun s l t => CommandServer.simpleStep s l = some t ∧ l.Short) serving ls t) ∧
    (∀ ls t, Run (fun s l t => CommandServer.threadStep s l = some t ∧
        ∀ a ∈ l.accesses, a.InArray CommandServer.messageSize) threads ls t ↔
      Run (fun s l t => CommandServer.threadStep s l = some t ∧ l.Short) threads ls t) ∧
    (∀ rounds : List PeerServer.RoundInput,
      (∀ inp ∈ rounds, ∀ a ∈ PeerServer.bufferAccesses (PeerServer.round inp),
        a.InArray PeerServer.messageSize) ↔ ∀ inp ∈ rounds, inp.recvfrom.Short) ∧
    (∀ rounds t, Run (fun s inp t => NonBlockingServer.Round s inp t ∧
        ∀ a ∈ NonBlockingServer.bufferAccesses t.calls, a.InArray NonBlockingServer.messageSize)
          nonBlocking rounds t ↔
      Run (fun s inp t => NonBlockingServer.Round s inp t ∧ inp.Short s) nonBlocking rounds t) ∧
    (∀ rounds t, Run (fun s inp t => SelectServer.Round s inp t ∧
        ∀ a ∈ (SelectServer.bufferLog inp).accesses t.calls, a.InArray SelectServer.messageSize)
          select rounds t ↔
      Run (fun s inp t => SelectServer.Round s inp t ∧
        ∀ r ∈ (SelectServer.bufferLog inp).received t.calls, r.Short) select rounds t) ∧
    (∀ rounds t, Run (fun s inp t => PollServer.Round s inp t ∧
        ∀ a ∈ (PollServer.bufferLog inp).accesses t.calls, a.InArray PollServer.messageSize)
          poll rounds t ↔
      Run (fun s inp t => PollServer.Round s inp t ∧
        ∀ r ∈ (PollServer.bufferLog inp).received t.calls, r.Short) poll rounds t) ∧
    ∀ rounds t, Run (fun s inp t => OpenSslServer.Round s inp t ∧
        ∀ a ∈ (OpenSslServer.bufferLog inp).accesses t.calls, a.InArray OpenSslServer.messageSize)
          openSsl rounds t ↔
      Run (fun s inp t => OpenSslServer.Round s inp t ∧
        ∀ r ∈ (OpenSslServer.bufferLog inp).received t.calls, r.Short ∨
          OpenSslServer.isQuit (filled OpenSslServer.messageSize r.bytes)) openSsl rounds t := by
  refine ⟨fun ls t => ?_, fun ls t => ?_, fun rounds => ?_, fun rounds t => ?_, fun rounds t => ?_,
    fun rounds t => ?_, fun rounds t => ?_⟩
  · exact Run.iff_of_step fun _ l _ _ => l.accesses_iff
  · exact Run.iff_of_step fun _ l _ _ => l.accesses_iff
  · exact forall₂_congr fun inp _ => PeerServer.bufferAccesses_iff inp
  · exact Run.iff_of_step fun _ _ _ hround => NonBlockingServer.bufferAccesses_iff hround
  · exact Run.iff_of_step fun _ _ _ hround => SelectServer.bufferLog_inArray_iff hround
  · exact Run.iff_of_step fun _ _ _ hround => PollServer.bufferLog_inArray_iff hround
  · exact Run.iff_of_step fun _ _ _ hround => OpenSslServer.bufferLog_inArray_iff hround

/-- A request to quit that fills the buffer of the TLS server. -/
theorem buffers_inArray_iff_quit : ∃ (request : RecvResult OpenSslServer.messageSize)
    (rounds : List OpenSslServer.RoundInput) (s : OpenSslServer.Server),
    request.bytes.length = OpenSslServer.messageSize ∧
    (∃ inp ∈ rounds, request ∈ (OpenSslServer.bufferLog inp).received s.calls) ∧
    Run (fun s inp t => OpenSslServer.Round s inp t ∧
      ∀ a ∈ (OpenSslServer.bufferLog inp).accesses t.calls, a.InArray OpenSslServer.messageSize)
        (OpenSslServer.startUp 3 {3}) rounds s := by
  let request : RecvResult OpenSslServer.messageSize :=
    .data (filled OpenSslServer.messageSize (bytesOf "quit")) (by decide +kernel)
  let connect : OpenSslServer.RoundInput :=
    ⟨some fun i => if i = 0 then pollIn else 0, some 4, true, fun _ => .data [] (by decide)⟩
  let quit : OpenSslServer.RoundInput :=
    ⟨some fun i => if i = 1 then pollIn else 0, none, true, fun _ => request⟩
  have hrun : (OpenSslServer.next connect (OpenSslServer.startUp 3 {3}) >>= fun s =>
      (OpenSslServer.next quit s).map fun s' => decide (.sslRead ⟨1, 4⟩ ∈ s'.calls)) =
        some true := by
    decide +kernel
  obtain ⟨s, hfirst, hrest⟩ := Option.bind_eq_some_iff.1 hrun
  obtain ⟨s', hsecond, hfacts⟩ := Option.map_eq_some_iff.1 hrest
  have hread : .sslRead ⟨1, 4⟩ ∈ s'.calls := of_decide_eq_true hfacts
  have hround : OpenSslServer.Round (OpenSslServer.startUp 3 {3}) connect s := by
    refine ⟨?_, OpenSslServer.next_eq_some.1 hfirst⟩
    rintro _ ⟨rfl⟩
    decide
  have hround' : OpenSslServer.Round s quit s' :=
    ⟨by simp [quit], OpenSslServer.next_eq_some.1 hsecond⟩
  have hquit : OpenSslServer.isQuit (filled OpenSslServer.messageSize request.bytes) = true := by
    decide +kernel
  have hempty : ∀ r ∈ (OpenSslServer.bufferLog connect).received s.calls, r.Short ∨
      OpenSslServer.isQuit (filled OpenSslServer.messageSize r.bytes) := fun r hr => by
    obtain ⟨x, rfl⟩ := OpenSslServer.exists_of_received hr
    exact .inl (show 0 < OpenSslServer.messageSize by decide)
  have hfull : ∀ r ∈ (OpenSslServer.bufferLog quit).received s'.calls, r.Short ∨
      OpenSslServer.isQuit (filled OpenSslServer.messageSize r.bytes) := fun r hr => by
    obtain ⟨x, rfl⟩ := OpenSslServer.exists_of_received hr
    exact .inr hquit
  let select : SelectServer.Server :=
    ⟨3, {3}, Slots.empty Nat SelectServer.maxConnection, 3, {3}, fun _ => 0, 0, []⟩
  obtain ⟨-, -, -, -, -, -, hopenSsl⟩ := @buffers_inArray_iff false ∅
    (NonBlockingServer.startUp 3) select (PollServer.startUp 3 {3}) (OpenSslServer.startUp 3 {3})
  exact ⟨request, [connect, quit], s', by decide +kernel,
    ⟨quit, by simp, List.mem_filterMap.2 ⟨_, hread, rfl⟩⟩,
    (hopenSsl _ _).2 (.cons ⟨hround, hempty⟩ (.single ⟨hround', hfull⟩))⟩

/-- A client of the poll server fills the buffer, and the terminator is stored
behind it. -/
theorem not_buffers_inArray : ¬ ∀ rounds s inp s',
    Run PollServer.Round (PollServer.startUp 3 {3}) rounds s → PollServer.Round s inp s' →
      ∀ a ∈ (PollServer.bufferLog inp).accesses s'.calls, a.InArray PollServer.messageSize := by
  let request : RecvResult PollServer.messageSize :=
    .data (List.replicate PollServer.messageSize newline) (by rw [List.length_replicate])
  let connect : PollServer.RoundInput :=
    ⟨some fun i => if i = 0 then pollIn else 0, some 4, fun _ => .data [] (by decide),
      fun _ => .sent 1⟩
  let send : PollServer.RoundInput :=
    ⟨some fun i => if i = 1 then pollIn else 0, none, fun _ => request, fun _ => .sent 1⟩
  have hrun : (PollServer.round connect (PollServer.startUp 3 {3}) >>= fun s =>
      (PollServer.round send s).map fun s' => decide (
        PollServer.messageSize ∈ (PollServer.bufferLog send).stores s'.calls)) = some true := by
    decide +kernel
  obtain ⟨s, hfirst, hrest⟩ := Option.bind_eq_some_iff.1 hrun
  obtain ⟨s', hsecond, hfacts⟩ := Option.map_eq_some_iff.1 hrest
  have hstore := of_decide_eq_true hfacts
  have hround : PollServer.Round (PollServer.startUp 3 {3}) connect s := by
    refine ⟨?_, hfirst⟩
    rintro _ ⟨rfl⟩
    decide
  have hround' : PollServer.Round s send s' := ⟨by simp [send], hsecond⟩
  intro hall
  have hin := hall [connect] s send s' (.single hround) hround' (.store PollServer.messageSize)
    (List.mem_append_left _ (List.mem_map_of_mem hstore))
  exact lt_irrefl _ hin

end LinuxNet
