-- SUMMARY: The server that answers "ping", one client after the other (simple_tcp_client_server/pong_server.c): its calls are a sequence of sessions.
import LinuxNet.Base.Search
import LinuxNet.Base.Transition

/-! # One client at a time

A pass is an iteration of the inner `do .. while`, which also ends with `continue`. -/

namespace LinuxNet.PongServer

/-- `sizeof(buffer)`. -/
def bufferSize : Nat := 1024

structure PassInput where
  recv : RecvResult (bufferSize - 1)
  send : SendResult

inductive Call
  | accept (fd : Int)
  | recv (fd : Int)
  | send (fd : Int) (block : List UInt8)
  | close (fd : Int)
  deriving DecidableEq, Repr

/-- What follows a pass: another one, the end of the loop, or `exit(1)`. -/
inductive Next
  | again
  | leave
  | exit
  deriving DecidableEq, Repr

/-- `while (!strstr(buffer, "quit"))` -/
def condition (buffer : List UInt8) : Next :=
  if strstr buffer (bytesOf "quit") then .leave else .again

/-- A pass for the client `fd`. -/
def pass (fd : Int) (inp : PassInput) : List Call × Next :=
  match inp.recv with
  | .data bytes _ =>
    if bytes = [] then ([.recv fd], .leave)
    else
      -- the buffer has been zeroed, so `buffer[read_bytes] = 0` changes nothing
      let buffer := filled bufferSize bytes
      if strstr buffer (bytesOf "ping") then
        match inp.send with
        | .fail _ => ([.recv fd, .send fd (bytesOf "pong")], .exit)
        | .sent _ => ([.recv fd, .send fd (bytesOf "pong")], condition buffer)
      else ([.recv fd], condition buffer)
  -- `continue` goes to the condition, with a buffer of zeros
  | .fail _ => ([.recv fd], condition (filled bufferSize []))

/-- Where the server is: before `accept`, in the loop for a client, or gone. -/
inductive Pc
  | accepting
  | serving (fd : Int)
  | exited
  deriving DecidableEq, Repr

structure Server where
  pc : Pc
  calls : List Call

inductive Label
  | accept (newFd : Int)
  | pass (inp : PassInput)

def step (s : Server) : Label → Option Server
  | .accept newFd =>
    if s.pc = .accepting then
      if newFd = -1 then some { s with pc := .exited }
      else some ⟨.serving newFd, s.calls ++ [.accept newFd]⟩
    else none
  | .pass inp =>
    match s.pc with
    | .serving fd =>
      match pass fd inp with
      | (calls, .again) => some ⟨.serving fd, s.calls ++ calls⟩
      | (calls, .leave) => some ⟨.accepting, s.calls ++ calls ++ [.close fd]⟩
      | (calls, .exit) => some ⟨.exited, s.calls ++ calls⟩
    | _ => none

def Step (s : Server) (l : Label) (t : Server) : Prop := step s l = some t

def start : Server := ⟨.accepting, []⟩

/-! ## Sessions -/

/-- The client has closed the connection. -/
def PassInput.closed (inp : PassInput) : Bool :=
  match inp.recv with
  | .data bytes _ => bytes = []
  | .fail _ => false

def PassInput.sendFails (inp : PassInput) : Bool :=
  match inp.send with
  | .fail _ => true
  | .sent _ => false

/-- There is a word in what has been received. -/
def PassInput.has (word : List UInt8) (inp : PassInput) : Bool :=
  match inp.recv with
  | .data bytes _ => strstr bytes word
  | .fail _ => false

/-- A client from `accept` to `close`: only the last pass makes the server leave. -/
structure Session where
  fd : Int
  before : List PassInput
  last : PassInput
  stays : ∀ inp ∈ before, (pass fd inp).2 = .again
  leaves : (pass fd last).2 = .leave

/-- The calls from `accept` on. -/
def opened (fd : Int) (inputs : List PassInput) : List Call :=
  .accept fd :: inputs.flatMap fun inp => (pass fd inp).1

def Session.calls (session : Session) : List Call :=
  opened session.fd (session.before ++ [session.last]) ++ [.close session.fd]

/-- The calls after the last session, where the server is `pc`. -/
inductive Rest : Pc → List Call → Prop
  | accepting : Rest .accepting []
  | serving (fd : Int) (inputs : List PassInput) (h : ∀ inp ∈ inputs, (pass fd inp).2 = .again) :
      Rest (.serving fd) (opened fd inputs)
  | refused : Rest .exited []
  | exited (fd : Int) (inputs : List PassInput) (last : PassInput)
      (h : ∀ inp ∈ inputs, (pass fd inp).2 = .again) (hlast : (pass fd last).2 = .exit) :
      Rest .exited (opened fd (inputs ++ [last]))

variable {inp : PassInput} {fd : Int} {ls : List Label} {s t : Server} {l : Label}

theorem opened_append (fd : Int) (inputs : List PassInput) (inp : PassInput) :
    opened fd (inputs ++ [inp]) = opened fd inputs ++ (pass fd inp).1 := by
  simp [opened]

/-- What a step does. -/
theorem step_cases (h : Step s l t) :
    (s.pc = .accepting ∧ t = { s with pc := .exited }) ∨
    (∃ fd, s.pc = .accepting ∧ t = ⟨.serving fd, s.calls ++ [.accept fd]⟩) ∨
    ∃ fd inp, s.pc = .serving fd ∧
      (((pass fd inp).2 = .again ∧ t = ⟨.serving fd, s.calls ++ (pass fd inp).1⟩) ∨
      ((pass fd inp).2 = .leave ∧ t = ⟨.accepting, s.calls ++ (pass fd inp).1 ++ [.close fd]⟩) ∨
      ((pass fd inp).2 = .exit ∧ t = ⟨.exited, s.calls ++ (pass fd inp).1⟩)) := by
  unfold Step step at h
  cases l with
  | accept newFd =>
    obtain ⟨hpc, h⟩ := Option.ite_none_right_eq_some.1 h
    split at h
    · exact .inl ⟨hpc, (Option.some.inj h).symm⟩
    · exact .inr (.inl ⟨newFd, hpc, (Option.some.inj h).symm⟩)
  | pass inp =>
    dsimp only at h
    split at h
    · rename_i fd hpc
      refine .inr (.inr ⟨fd, inp, hpc, ?_⟩)
      split at h <;> rename_i calls hpass <;> obtain rfl := Option.some.inj h <;> rw [hpass]
      · exact .inl ⟨rfl, rfl⟩
      · exact .inr (.inl ⟨rfl, rfl⟩)
      · exact .inr (.inr ⟨rfl, rfl⟩)
    · cases h

/-- What follows a pass: a failed `send` ends the program, the end of the stream or a
"quit" the session, and a failed `recv` nothing. -/
theorem pass_next (fd : Int) (inp : PassInput) : (pass fd inp).2 =
    if inp.has (bytesOf "ping") && inp.sendFails then .exit
    else if inp.closed || inp.has (bytesOf "quit") then .leave
    else .again := by
  obtain ⟨recv, send⟩ := inp
  cases recv with
  | fail errno =>
    have hquit : strstr (filled bufferSize []) (bytesOf "quit") = false := by
      rw [strstr_filled]
      decide
    simp [pass, condition, hquit, PassInput.has, PassInput.closed]
  | data bytes hb =>
    by_cases hnil : bytes = []
    · subst hnil
      have hping : strstr [] (bytesOf "ping") = false := by decide
      simp [pass, PassInput.has, PassInput.closed, hping]
    · cases hping : strstr bytes (bytesOf "ping") <;> cases send <;>
        simp [pass, PassInput.has, PassInput.closed, PassInput.sendFails, hnil, strstr_filled,
          hping, condition]

/-- A pass answers a "ping" once, and nothing else. -/
theorem pass_pongs (fd : Int) (inp : PassInput) :
    (pass fd inp).1.count (.send fd (bytesOf "pong")) = (inp.has (bytesOf "ping")).toNat := by
  obtain ⟨recv, send⟩ := inp
  cases recv with
  | fail errno => simp [pass, PassInput.has]
  | data bytes hb =>
    by_cases hnil : bytes = []
    · subst hnil
      have hping : strstr [] (bytesOf "ping") = false := by decide
      simp [pass, PassInput.has, hping]
    · cases hping : strstr bytes (bytesOf "ping") <;> cases send <;>
        simp [pass, PassInput.has, hnil, strstr_filled, hping]

/-- In a session there is an answer for every receive with a "ping" in it. -/
theorem Session.pongs (session : Session) :
    session.calls.count (.send session.fd (bytesOf "pong")) =
      (session.before ++ [session.last]).countP fun inp => inp.has (bytesOf "ping") := by
  have hinputs : ∀ inputs : List PassInput,
      (opened session.fd inputs).count (.send session.fd (bytesOf "pong")) =
        inputs.countP fun inp => inp.has (bytesOf "ping") := by
    intro inputs
    induction inputs using List.reverseRecOn with
    | nil => simp [opened]
    | append_singleton inputs inp ih =>
      rw [opened_append, List.count_append, ih, pass_pongs, List.countP_append]
      cases hping : inp.has (bytesOf "ping") <;> simp [hping]
  rw [Session.calls, List.count_append, hinputs]
  simp

/-- The calls of the server are those of sessions, one after the other, and of the
one that has not come to its end. Each client gets an answer for every receive with a
"ping" in it. -/
theorem calls_sessions (h : Run Step start ls s) :
    ∃ (sessions : List Session) (rest : List Call),
      s.calls = sessions.flatMap Session.calls ++ rest ∧ Rest s.pc rest ∧
      ∀ session ∈ sessions, session.calls.count (.send session.fd (bytesOf "pong")) =
        (session.before ++ [session.last]).countP fun inp => inp.has (bytesOf "ping") := by
  suffices hcalls : ∃ (sessions : List Session) (rest : List Call),
      s.calls = sessions.flatMap Session.calls ++ rest ∧ Rest s.pc rest by
    obtain ⟨sessions, rest, hcalls, hrest⟩ := hcalls
    exact ⟨sessions, rest, hcalls, hrest, fun session _ => session.pongs⟩
  induction h with
  | nil => exact ⟨[], [], rfl, .accepting⟩
  | @snoc s t ls l _ hstep ih =>
    obtain ⟨sessions, rest, hcalls, hrest⟩ := ih
    rcases step_cases hstep with ⟨hpc, rfl⟩ | ⟨fd, hpc, rfl⟩ | ⟨fd, inp, hpc, hnext⟩
    · rw [hpc] at hrest
      cases hrest
      exact ⟨sessions, [], hcalls, .refused⟩
    · rw [hpc] at hrest
      cases hrest
      refine ⟨sessions, opened fd [], ?_, .serving fd [] (List.forall_mem_nil _)⟩
      rw [hcalls, List.append_nil]
      rfl
    · rw [hpc] at hrest
      cases hrest with
      | serving _ inputs hstays =>
        rcases hnext with ⟨hagain, rfl⟩ | ⟨hleave, rfl⟩ | ⟨hexit, rfl⟩
        · refine ⟨sessions, opened fd (inputs ++ [inp]), ?_, .serving fd _ ?_⟩
          · dsimp only
            rw [hcalls, opened_append, List.append_assoc]
          · exact List.forall_mem_append.2 ⟨hstays, List.forall_mem_singleton.2 hagain⟩
        · refine ⟨sessions ++ [⟨fd, inputs, inp, hstays, hleave⟩], [], ?_, .accepting⟩
          rw [List.append_nil, List.flatMap_append, hcalls]
          simp [Session.calls, opened_append]
        · refine ⟨sessions, opened fd (inputs ++ [inp]), ?_, .exited fd inputs inp hstays hexit⟩
          dsimp only
          rw [hcalls, opened_append, List.append_assoc]

def Call.closes : Call → Bool
  | .close _ => true
  | _ => false

theorem pass_closes (fd : Int) (inp : PassInput) : (pass fd inp).1.countP Call.closes = 0 := by
  unfold pass
  split
  · split
    · rfl
    · split
      · dsimp only
        split <;> rfl
      · dsimp only
        split <;> rfl
  · rfl

/-- A session closes its connection once. -/
theorem Session.closes (session : Session) : session.calls.countP Call.closes = 1 := by
  have hopened : ∀ inputs, (opened session.fd inputs).countP Call.closes = 0 := by
    intro inputs
    induction inputs using List.reverseRecOn with
    | nil => rfl
    | append_singleton inputs inp ih =>
      rw [opened_append, List.countP_append, ih, pass_closes]
  rw [Session.calls, List.countP_append, hopened]
  rfl

theorem countP_closes (sessions : List Session) :
    (sessions.flatMap Session.calls).countP Call.closes = sessions.length := by
  induction sessions with
  | nil => rfl
  | cons session sessions ih =>
    rw [List.flatMap_cons, List.countP_append, session.closes, ih, List.length_cons, Nat.add_comm]

/-- A client that sends "ping", and then "quit". -/
theorem calls_sessions_quit : ∃ session : Session,
    [Call.accept 4, .recv 4, .send 4 (bytesOf "pong"), .recv 4, .close 4] = session.calls ∧
      session.fd = 4 ∧
      (session.before ++ [session.last]).countP (fun inp => inp.has (bytesOf "ping")) = 1 := by
  have hrun : Run Step start
      [.accept 4, .pass ⟨.data (bytesOf "ping") (by decide), .sent 4⟩,
        .pass ⟨.data (bytesOf "quit") (by decide), .sent 0⟩]
      ⟨.accepting, [.accept 4, .recv 4, .send 4 (bytesOf "pong"), .recv 4, .close 4]⟩ :=
    Run.foldlM_iff.2 rfl
  obtain ⟨sessions, rest, hcalls, hrest, hpongs⟩ := calls_sessions hrun
  cases hrest
  rw [List.append_nil] at hcalls
  have hlength : 1 = sessions.length := by
    rw [← countP_closes, ← hcalls]
    rfl
  obtain ⟨session, rfl⟩ := List.length_eq_one_iff.1 hlength.symm
  rw [List.flatMap_singleton] at hcalls
  have hpong := hpongs session (List.mem_singleton_self session)
  have hfd : 4 = session.fd := Call.accept.inj (List.cons.inj hcalls).1
  rw [← hcalls, ← hfd] at hpong
  exact ⟨session, hcalls, hfd.symm, hpong.symm⟩

end LinuxNet.PongServer
