-- SUMMARY: When the command servers close the sockets of their clients (08_simple_client_server.c, 09_multithread_client_server.c).
import LinuxNet.Base.Handle
import LinuxNet.Base.Transition
import LinuxNet.CommandServer.Handler

/-! # The sockets of the command servers

Only the branch for a last command closes the socket. The other way out of the
loop, for a client that has left, does not. -/

namespace LinuxNet.CommandServer

/-- The request asks for the connection to be closed. -/
def PassInput.quits (inp : PassInput) : Bool :=
  inp.recv.bytes ≠ [] && isLast (requestIn inp.recv.bytes)

/-- What a thread does on its socket, whose descriptor it reads in its heap cell,
and with the cell. -/
inductive HandlerCall
  | onSocket (call : Call)
  | free
  deriving DecidableEq, Repr

/-- `server_handle_client`, if these passes end its loop. -/
def serverHandleClient : List PassInput → Option (List HandlerCall)
  | [] => none
  | inp :: inputs =>
    let calls := (serve inp).1.map HandlerCall.onSocket
    if (serve inp).2 then (serverHandleClient inputs).map (calls ++ ·)
    else some (calls ++ [.free])

def Call.onBuffer : Call → Bool
  | .access _ => true
  | _ => false

/-- The connection of a client. -/
def socket : Handle Call where
  uses call := !call.onBuffer
  releases call := call = .close
  uses_of_releases := by simp [Call.onBuffer]

/-- The same in a thread. -/
def threadSocket : Handle HandlerCall where
  uses
    | .onSocket call => socket.uses call
    | .free => false
  releases call := call = .onSocket .close
  uses_of_releases := by simp [socket, Call.onBuffer]

/-- The heap cell. -/
def heapCell : Handle HandlerCall where
  uses
    | .onSocket call => !call.onBuffer
    | .free => true
  releases call := call = .free
  uses_of_releases := by simp

variable {inp : PassInput} {inputs : List PassInput} {calls : List HandlerCall}

/-- A pass closes the socket at its end, or not at all, and then another pass
follows if something has been received. -/
theorem serve_calls (inp : PassInput) : ∃ before, socket.Kept before ∧
    (serve inp).1 = before ++ (if inp.quits then [.close] else []) ∧
    (serve inp).2 = (decide (inp.recv.bytes ≠ []) && !inp.quits) := by
  cases hrecv : inp.recv with
  | fail e =>
    have hquits : inp.quits = false := by simp [PassInput.quits, hrecv, RecvResult.bytes]
    refine ⟨[.recv], by simp [Handle.Kept, socket], ?_, ?_⟩
    · simp [serve, hrecv, hquits]
    · simp [serve, hrecv, RecvResult.bytes]
  | data bytes h =>
    have hkept (read : List Access) (block : List UInt8) :
        socket.Kept (.recv :: read.map .access ++ [.send block]) := by
      intro c hc
      simp only [List.cons_append, List.mem_cons, List.mem_append, List.mem_map,
        List.not_mem_nil, or_false] at hc
      rcases hc with rfl | ⟨a, -, rfl⟩ | rfl <;> rfl
    have hbytes : (RecvResult.data bytes h).bytes = bytes := rfl
    have hrequest : cString (terminated messageSize bytes) = requestIn bytes := rfl
    by_cases hnil : bytes = []
    · subst hnil
      have hquits : inp.quits = false := by simp [PassInput.quits, hrecv, hbytes]
      refine ⟨[.recv], by simp [Handle.Kept, socket], ?_, ?_⟩
      · simp [serve, hrecv, hquits]
      · simp [serve, hrecv, hbytes]
    · have hquits : inp.quits = isLast (requestIn bytes) := by
        simp [PassInput.quits, hrecv, hbytes, hnil]
      rw [hquits]
      unfold serve
      rw [hrecv, hbytes]
      dsimp only
      rw [if_neg hnil, hrequest]
      by_cases hlast : isLast (requestIn bytes) = true
      · rw [if_pos hlast, if_pos hlast]
        exact ⟨_, hkept _ _, rfl, by simp [hlast]⟩
      · rw [if_neg hlast, if_neg hlast]
        exact ⟨_, hkept _ _, (List.append_nil _).symm, by simp [hnil, hlast]⟩

/-! ## A thread -/

theorem HandlerCall.kept_map {before : List Call} (h : socket.Kept before) :
    threadSocket.Kept (before.map .onSocket) ∧ heapCell.Kept (before.map .onSocket) := by
  constructor
  · intro c hc
    obtain ⟨call, hcall, rfl⟩ := List.mem_map.1 hc
    simpa [threadSocket, socket] using h call hcall
  · intro c hc
    obtain ⟨call, -, rfl⟩ := List.mem_map.1 hc
    simp [heapCell]

/-- Up to the first request to quit, every receive returns data. -/
def ServedToQuit (inputs : List PassInput) : Prop :=
  ∀ inp ∈ inputs.takeWhile (fun inp => !inp.quits), inp.recv.bytes ≠ []

instance (inputs : List PassInput) : Decidable (ServedToQuit inputs) :=
  inferInstanceAs (Decidable (∀ _ ∈ _, _))

theorem servedToQuit_cons : ServedToQuit (inp :: inputs) ↔
    inp.quits = true ∨ inp.recv.bytes ≠ [] ∧ ServedToQuit inputs := by
  unfold ServedToQuit
  cases hquits : inp.quits with
  | true => simp [hquits]
  | false => simp [hquits]

/-- A thread closes its socket after its passes, or never, and frees its cell last. -/
theorem serverHandleClient_calls (h : serverHandleClient inputs = some calls) :
    ∃ before, threadSocket.Kept before ∧ heapCell.Kept before ∧
      calls = before ++ (if ServedToQuit inputs then [.onSocket .close] else []) ++ [.free] := by
  induction inputs generalizing calls with
  | nil => cases h
  | cons inp inputs ih =>
    obtain ⟨before, hkept, hcalls, hagain⟩ := serve_calls inp
    obtain ⟨hsocket, hcell⟩ := HandlerCall.kept_map hkept
    unfold serverHandleClient at h
    rw [hcalls, hagain] at h
    cases hquits : inp.quits with
    | true =>
      refine ⟨_, hsocket, hcell, ?_⟩
      rw [if_pos (servedToQuit_cons.2 (.inl hquits))]
      simpa [hquits] using h.symm
    | false =>
      by_cases hnil : inp.recv.bytes = []
      · refine ⟨_, hsocket, hcell, ?_⟩
        rw [if_neg fun hserved => ?_]
        · simpa [hquits, hnil] using h.symm
        · rcases servedToQuit_cons.1 hserved with hq | ⟨hne, -⟩
          · rw [hquits] at hq
            cases hq
          · exact hne hnil
      · simp only [hquits, hnil, ne_eq, not_false_eq_true, decide_true, Bool.not_false,
          Bool.and_self, if_true, Bool.false_eq_true, if_false, List.append_nil] at h
        obtain ⟨rest, hrest, rfl⟩ := Option.map_eq_some_iff.1 h
        obtain ⟨before', hsocket', hcell', rfl⟩ := ih hrest
        refine ⟨_, hsocket.append hsocket', hcell.append hcell', ?_⟩
        have hiff : ServedToQuit (inp :: inputs) ↔ ServedToQuit inputs := by
          rw [servedToQuit_cons, hquits]
          simp [hnil]
        simp only [hiff, List.append_assoc]

/-- The socket and the cell are both released if and only if the client is served
until it asks to quit. -/
theorem serverHandleClient_released_iff (h : serverHandleClient inputs = some calls) :
    threadSocket.ReleasedOnce calls ∧ heapCell.ReleasedOnce calls ↔ ServedToQuit inputs := by
  obtain ⟨before, hsocket, hcell, rfl⟩ := serverHandleClient_calls h
  have hfree : threadSocket.Unused [.free] := by simp [Handle.Unused, threadSocket]
  by_cases hserved : ServedToQuit inputs
  · rw [if_pos hserved]
    have hclose : heapCell.Kept [.onSocket .close] := by simp [Handle.Kept, heapCell]
    refine iff_of_true ⟨?_, (hcell.append hclose).releasedOnce rfl .nil⟩ hserved
    rw [List.append_assoc]
    exact hsocket.releasedOnce rfl hfree
  · rw [if_neg hserved, List.append_nil]
    exact iff_of_false (fun hreleased => (hsocket.append hfree.kept).not_releasedOnce hreleased.1)
      hserved

/-! ## One client after another -/

/-- `run_server` of 08 in its loops. `calls` is what it has done on the socket that
was last accepted, if accept did not fail. -/
structure Service where
  serving : Bool
  calls : Option (List Call)

/-- Before the first client. -/
def Service.start : Service := ⟨false, none⟩

def Service.next (s : Service) (l : SimpleLabel) : Option Service :=
  (simpleStep s.serving l).map fun serving =>
    match l with
    | .accept accepted => ⟨serving, if accepted then some [] else none⟩
    | .pass inp => ⟨serving, s.calls.map (· ++ (serve inp).1)⟩

/-- Unless it is being served, the client's socket has been closed. The server
accepts only then. -/
def Service.Settled (s : Service) : Prop :=
  s.serving = false → ∀ calls ∈ s.calls, socket.ReleasedOnce calls

/-- A pass receives something. -/
def SimpleLabel.HasData : SimpleLabel → Prop
  | .accept _ => True
  | .pass inp => inp.recv.bytes ≠ []

/-- A socket that is being served has not been closed. -/
def Service.Open (s : Service) : Prop :=
  s.serving = true → ∃ calls, s.calls = some calls ∧ socket.Kept calls

variable {s t : Service} {l : SimpleLabel}

theorem Service.next_pass (h : s.next (.pass inp) = some t) :
    s.serving = true ∧ t = ⟨(serve inp).2, s.calls.map (· ++ (serve inp).1)⟩ := by
  obtain ⟨serving, hstep, rfl⟩ := Option.map_eq_some_iff.1 h
  obtain ⟨hserving, hagain⟩ := Option.ite_none_right_eq_some.1 hstep
  obtain rfl := Option.some.inj hagain
  exact ⟨hserving, rfl⟩

theorem Service.next_accept {accepted : Bool} (h : s.next (.accept accepted) = some t) :
    t = ⟨accepted, if accepted then some [] else none⟩ := by
  obtain ⟨serving, hstep, rfl⟩ := Option.map_eq_some_iff.1 h
  obtain rfl := Option.some.inj (Option.ite_none_left_eq_some.1 hstep).2
  rfl

theorem Service.Open.next (hs : s.Open) (h : s.next l = some t) : t.Open := by
  intro hserving
  cases l with
  | accept accepted =>
    obtain rfl := Service.next_accept h
    obtain rfl : accepted = true := hserving
    exact ⟨[], rfl, .nil⟩
  | pass inp =>
    obtain ⟨hserving', rfl⟩ := Service.next_pass h
    obtain ⟨calls, hcalls, hkept⟩ := hs hserving'
    obtain ⟨before, hbefore, hserve, hagain⟩ := serve_calls inp
    have hquits : inp.quits = false := by
      have hand := hagain.symm.trans hserving
      simpa using (Bool.and_eq_true_iff.1 hand).2
    refine ⟨calls ++ before, ?_, hkept.append hbefore⟩
    simp [hcalls, hserve, hquits]

/-- A pass leaves the socket as it should exactly if it has received something. -/
theorem Service.Open.settled_iff (hs : s.Open) (h : s.next l = some t) :
    t.Settled ↔ l.HasData := by
  cases l with
  | accept accepted =>
    obtain rfl := Service.next_accept h
    refine iff_of_true ?_ trivial
    rintro rfl calls hcalls
    cases hcalls
  | pass inp =>
    obtain ⟨hserving, rfl⟩ := Service.next_pass h
    obtain ⟨calls, hcalls, hkept⟩ := hs hserving
    obtain ⟨before, hbefore, hserve, hagain⟩ := serve_calls inp
    have hsettled : Service.Settled ⟨(serve inp).2, s.calls.map (· ++ (serve inp).1)⟩ ↔
        ((serve inp).2 = false → socket.ReleasedOnce (calls ++ (serve inp).1)) := by
      simp [Service.Settled, hcalls]
    rw [hsettled, hagain, hserve, SimpleLabel.HasData]
    cases hquits : inp.quits with
    | true =>
      have hne : inp.recv.bytes ≠ [] := by
        simpa using (Bool.and_eq_true_iff.1 hquits).1
      refine iff_of_true (fun _ => ?_) hne
      rw [if_pos rfl, ← List.append_assoc]
      exact (hkept.append hbefore).releasedOnce rfl .nil
    | false =>
      rw [if_neg Bool.false_ne_true]
      have hopen : ¬ socket.ReleasedOnce (calls ++ (before ++ [])) :=
        (hkept.append (hbefore.append .nil)).not_releasedOnce
      by_cases hnil : inp.recv.bytes = []
      · exact iff_of_false (fun h => hopen (h (by simp [hnil]))) (not_not_intro hnil)
      · exact iff_of_true (fun h => absurd h (by simp [hnil])) hnil

theorem service_settled_iff {labels : List SimpleLabel} {t : Service} :
    Run (fun s l t => s.next l = some t ∧ t.Settled) .start labels t ↔
      Run (fun s l t => s.next l = some t ∧ l.HasData) .start labels t :=
  Run.iff_of_invariant (I := Service.Open)
    (fun _ _ _ hs hstep => hs.settled_iff hstep) (fun _ _ _ hs hstep _ => hs.next hstep)
    (fun h => absurd h Bool.false_ne_true)

/-! ## Both servers -/

/-- A thread of 09 that returns has released its socket and its cell exactly if
every receive up to the first request to quit has returned data. In 08 every
socket is closed before the next accept exactly if every receive returns data. -/
theorem sockets_released_iff (inputs : List PassInput) (labels : List SimpleLabel) (t : Service) :
    (∀ calls, serverHandleClient inputs = some calls →
      (threadSocket.ReleasedOnce calls ∧ heapCell.ReleasedOnce calls ↔ ServedToQuit inputs)) ∧
    (Run (fun s l t => Service.next s l = some t ∧ t.Settled) .start labels t ↔
      Run (fun s l t => Service.next s l = some t ∧ l.HasData) .start labels t) :=
  ⟨fun _ h => serverHandleClient_released_iff h, service_settled_iff⟩

/-- What a server receives from a client that closes the connection. -/
def leaves : PassInput := ⟨.data [] (Nat.zero_le _), 0⟩

/-- What a server receives from a client that quits. -/
def quit : PassInput := ⟨.data (bytesOf "quit") (by decide), 0⟩

/-- A client that quits. -/
theorem sockets_released_iff_quit : ∃ calls, serverHandleClient [quit] = some calls ∧
    threadSocket.ReleasedOnce calls ∧ heapCell.ReleasedOnce calls :=
  ⟨_, rfl, ((sockets_released_iff [quit] [] .start).1 _ rfl).2 (by decide)⟩

/-- A client connects and leaves: neither server closes its socket, and 08 is
back at accept. -/
theorem sockets_not_released :
    (∃ calls, serverHandleClient [leaves] = some calls ∧ heapCell.ReleasedOnce calls ∧
      threadSocket.Kept calls ∧ ¬ threadSocket.ReleasedOnce calls) ∧
    ∃ t, Run (fun s l t => Service.next s l = some t) .start [.accept true, .pass leaves] t ∧
      t.serving = false ∧ ¬ t.Settled := by
  refine ⟨⟨[.onSocket .recv, .free], rfl, by decide, by simp [Handle.Kept, threadSocket],
    by decide⟩, ⟨false, some [.recv]⟩, Run.foldlM_iff.2 rfl, rfl, fun hsettled => ?_⟩
  have hreleased : socket.ReleasedOnce [.recv] := hsettled rfl [.recv] rfl
  exact absurd hreleased (by decide)

end LinuxNet.CommandServer
