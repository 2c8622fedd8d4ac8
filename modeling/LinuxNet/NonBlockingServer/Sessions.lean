-- SUMMARY: The non-blocking server keeps the first client that disconnects, and accepts no other one.
import LinuxNet.Base.Transition
import LinuxNet.NonBlockingServer.Server

/-! # Sessions of the non-blocking server

There is one client at a time, and the next one is accepted once `sock_client`
is negative again. -/

namespace LinuxNet.NonBlockingServer

/-- `sock_client` after the part of the round that accepts. -/
def RoundInput.client (inp : RoundInput) (s : Server) : Int :=
  if s.sockClient < 0 then
    match inp.accept with
    | .error _ => -1
    | .ok fd => fd
  else s.sockClient

/-- recv returns 0: the client has closed the connection. -/
def RoundInput.Disconnects (inp : RoundInput) : Prop := ∃ h, inp.recv = .data [] h

/-- If the round receives from a client, recv does not return 0. -/
def RoundInput.Stays (inp : RoundInput) (s : Server) : Prop :=
  0 < inp.client s → ¬ inp.Disconnects

/-- A client that has disconnected is closed in the same round, once; there is no
client at the next loop top, and the next round calls accept. -/
def Released (inp : RoundInput) (s' : Server) : Prop :=
  ∀ fd, .recv fd ∈ s'.calls → inp.Disconnects →
    s'.calls.count (.close fd) = 1 ∧ s'.sockClient < 0 ∧
      ∀ inp', .accept ∈ (round inp' s').calls

variable {s s' t u v : Server} {inp inp' : RoundInput} {rounds : List RoundInput} {fd : Int}
  {sockServer : Nat}

/-! ## A round -/

theorem acceptClient_client (inp : RoundInput) (s : Server) :
    (acceptClient inp s).sockClient = inp.client s := by
  unfold acceptClient RoundInput.client
  split
  · cases inp.accept with
    | error errno =>
      dsimp only
      split <;> rfl
    | ok fd => rfl
  · rfl

/-- If there is a client, the loop goes on to receive from it. -/
theorem acceptClient_eq (h : 0 < inp.client s) : acceptClient inp s =
    { s with
      sockClient := inp.client s
      calls := if s.sockClient < 0 then s.calls ++ [.accept] else s.calls } := by
  unfold RoundInput.client at h ⊢
  unfold acceptClient
  split
  · rename_i hnone
    rw [if_pos hnone] at h
    cases haccept : inp.accept with
    | error errno => simp [haccept] at h
    | ok fd => simp [Server.record]
  · rfl

theorem acceptClient_recv_notMem (h : .recv fd ∉ s.calls) :
    .recv fd ∉ (acceptClient inp s).calls := by
  unfold acceptClient
  split
  · cases inp.accept with
    | error errno =>
      dsimp only
      split <;> simpa [Server.record, Server.leave] using h
    | ok fd' => simpa [Server.record] using h
  · exact h

/-- recv is called if there is a client. -/
theorem client_of_recv (h : .recv fd ∈ (round inp s).calls) : 0 < inp.client s := by
  by_contra hnone
  have hskip : (round inp s).calls = (acceptClient inp { s with calls := [] }).calls := by
    unfold round
    dsimp only
    split
    · rw [serveClient, if_neg]
      rwa [acceptClient_client]
    · rfl
  rw [hskip] at h
  exact acceptClient_recv_notMem (by simp) h

/-- A round in which recv returns 0. -/
theorem round_disconnects (hrun : s.running = true) (hclient : 0 < inp.client s)
    (hend : inp.Disconnects) : round inp s =
      { s with
        sockClient := inp.client s
        calls := (if s.sockClient < 0 then [.accept] else []) ++ [.recv (inp.client s)] } := by
  obtain ⟨h, hrecv⟩ := hend
  have hclient' : 0 < inp.client { s with calls := [] } := hclient
  unfold round
  rw [acceptClient_eq hclient']
  dsimp only
  rw [if_pos hrun]
  unfold serveClient
  dsimp only
  rw [if_pos hclient', hrecv]
  rfl

/-- As long as there is a client, it stays, and accept is not called. -/
theorem round_keeps (inp : RoundInput) (h : 0 < s.sockClient) :
    (round inp s).sockClient = s.sockClient ∧ .accept ∉ (round inp s).calls := by
  have hskip : acceptClient inp { s with calls := [] } = { s with calls := [] } :=
    if_neg (Int.not_lt.2 (Int.le_of_lt h))
  unfold round
  rw [hskip]
  dsimp only
  split
  · rw [serveClient, if_pos h]
    cases inp.recv with
    | fail errno =>
      dsimp only
      split <;> simp [Server.record, Server.leave]
    | data bytes hbytes =>
      dsimp only
      split <;> simp [Server.record]
  · simp

/-! ## Runs -/

/-- A round releases the client exactly if there is none that disconnects. -/
theorem released_iff (hround : Round s inp s') : Released inp s' ↔ inp.Stays s := by
  obtain ⟨hrun, rfl⟩ := hround
  constructor
  · intro hreleased hclient hend
    have hround := round_disconnects hrun hclient hend
    have hnone := (hreleased (inp.client s) (by rw [hround]; simp) hend).2.1
    rw [hround] at hnone
    exact absurd hnone (Int.not_lt.2 (Int.le_of_lt hclient))
  · intro hstays fd hrecv hend
    exact absurd hend (hstays (client_of_recv hrecv))

/-- A round in which the client disconnects leaves it in its place. -/
theorem client_of_disconnects (hround : Round s inp t) (hend : ¬ inp.Stays s) :
    0 < t.sockClient := by
  obtain ⟨hrun, rfl⟩ := hround
  obtain ⟨hclient, hend⟩ := Classical.not_imp.1 hend
  rw [round_disconnects hrun hclient (not_not.1 hend)]
  exact hclient

/-- The runs in which every client that disconnects is closed, and accept called
again, are those in which no client disconnects. Once one has, accept is never
called again. -/
theorem released_iff_stays :
    (Run (fun s inp s' => Round s inp s' ∧ Released inp s') (startUp sockServer) rounds s ↔
      Run (fun s inp s' => Round s inp s' ∧ inp.Stays s) (startUp sockServer) rounds s) ∧
    ∀ s inp t later u inp' v, Round s inp t → ¬ inp.Stays s → Run Round t later u →
      Round u inp' v → .accept ∉ v.calls ∧ v.sockClient = t.sockClient := by
  constructor
  · exact Run.iff_of_step fun _ _ _ hround => released_iff hround
  · intro s inp t later u inp' v hround hend hrun hnext
    have hclient := client_of_disconnects hround hend
    have hkept : u.sockClient = t.sockClient := by
      apply hrun.invariant (I := fun u => u.sockClient = t.sockClient) _ rfl
      rintro u inp _ hu ⟨-, rfl⟩
      rw [(round_keeps inp (hu ▸ hclient)).1, hu]
    obtain ⟨-, rfl⟩ := hnext
    obtain ⟨hsame, haccept⟩ := round_keeps inp' (hkept ▸ hclient)
    exact ⟨haccept, hsame.trans hkept⟩

/-- A client sends something, and nothing more for a while. -/
theorem released_iff_stays_one : ∃ rounds s, s.sockClient = 4 ∧
    Run (fun s inp s' => Round s inp s' ∧ Released inp s') (startUp 3) rounds s := by
  let request : RoundInput := ⟨.ok 4, .data (bytesOf "time") (by decide)⟩
  let nothing : RoundInput := ⟨.error eagain, .fail eagain⟩
  have hrequest : request.Stays (startUp 3) := fun _ ⟨_, hrecv⟩ => by
    have hbytes : bytesOf "time" = [] := (RecvResult.data.inj hrecv)
    exact absurd hbytes (by decide)
  have hnothing : nothing.Stays (round request (startUp 3)) := fun _ ⟨_, hrecv⟩ => by cases hrecv
  exact ⟨[request, nothing], round nothing (round request (startUp 3)), rfl,
    released_iff_stays.1.2 (.cons ⟨⟨rfl, rfl⟩, hrequest⟩ (.single ⟨⟨rfl, rfl⟩, hnothing⟩))⟩

/-- A client connects, and disconnects. It is not closed. -/
theorem not_released : ¬ ∀ rounds s, Run Round (startUp 3) rounds s → ∀ inp s', Round s inp s' →
    Released inp s' := by
  let visit : RoundInput := ⟨.ok 4, .data [] (by decide)⟩
  intro hall
  have hreleased := hall [] _ .nil visit (round visit (startUp 3)) ⟨rfl, rfl⟩
  have hcalls : .recv 4 ∈ (round visit (startUp 3)).calls ∧
      (round visit (startUp 3)).calls.count (.close 4) = 0 := by
    decide
  rw [(hreleased 4 hcalls.1 ⟨_, rfl⟩).1] at hcalls
  exact absurd hcalls.2 (by decide)

end LinuxNet.NonBlockingServer
