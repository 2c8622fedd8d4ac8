-- SUMMARY: What the HTTPS client releases, and in which order.
import LinuxNet.Base.Handle
import LinuxNet.HttpsClient.Client

/-! # The resources of the HTTPS client

A client that is not connected returns with its address list and its socket. One that is
gives back everything, but closes the socket before it shuts down the session on it. -/

namespace LinuxNet.HttpsClient

/-- The list that getaddrinfo has allocated. -/
def addressList : Handle Call where
  uses
    | .socket _ | .connect _ _ | .freeaddrinfo => true
    | _ => false
  releases
    | .freeaddrinfo => true
    | _ => false
  uses_of_releases c h := by cases c <;> first | rfl | cases h

/-- The socket. It is that of the session, which is shut down by a message. -/
def sockClient : Handle Call where
  uses
    | .connect _ _ | .setFd | .sslConnect _ | .sslWrite _ _ | .sslRead _ | .shutdown | .close => true
    | _ => false
  releases
    | .close => true
    | _ => false
  uses_of_releases c h := by cases c <;> first | rfl | cases h

/-- The context. -/
def sslContext : Handle Call where
  uses
    | .sslNew _ | .contextFree => true
    | _ => false
  releases
    | .contextFree => true
    | _ => false
  uses_of_releases c h := by cases c <;> first | rfl | cases h

/-- The session. -/
def ssl : Handle Call where
  uses
    | .setFd | .sslConnect _ | .sslWrite _ _ | .sslRead _ | .shutdown | .sslFree => true
    | _ => false
  releases
    | .sslFree => true
    | _ => false
  uses_of_releases c h := by cases c <;> first | rfl | cases h

/-! ## How far a request gets -/

/-- The calls of a loop over addresses, all of which have failed. -/
def Refused (calls : List Call) : Prop := ∀ c ∈ calls, ∃ addr rc, c = .connect addr rc ∧ rc ≠ 0

/-- The calls of a loop over addresses that has been left with a connection. -/
def Connected (calls : List Call) : Prop :=
  ∃ refused addr, Refused refused ∧ calls = refused ++ [.connect addr 0]

/-- The first calls of a client that has a socket. -/
def opened (host port : List UInt8) (rc : Int) (connects : List Call) : List Call :=
  [.getaddrinfo host port true, .socket rc] ++ connects

/-- Calls between the creation of the session and the end. -/
def Talk (calls : List Call) : Prop := ∀ c ∈ calls, match c with
  | .report _ | .printErrors | .print _ | .setFd | .sslConnect _ | .text _ _ | .sslWrite _ _
  | .sslRead _ => True
  | _ => False

/-- The calls of the client, with what is not released yet. -/
inductive Requested (host port : List UInt8) : List Call → Prop
  | noProto : Requested host port [.report (bytesOf "TCP protocol is not supported")]
  | unresolved : Requested host port
      [.getaddrinfo host port false, .report (bytesOf "Resolve address failed")]
  | unopened {rc} (hrc : rc < 0) : Requested host port
      (opened host port rc [.report (bytesOf "socket() failed")])
  | unconnected {rc connects} (hrc : 0 ≤ rc) (hconnects : Refused connects) :
      Requested host port
        (opened host port rc (connects ++ [.report (bytesOf "connect() failed")]))
  | noContext {rc connects} (hrc : 0 ≤ rc) (hconnects : Connected connects) :
      Requested host port (opened host port rc connects ++ [.contextNew false,
        .report (bytesOf "Unable to create SSL context"), .freeaddrinfo, .close])
  | noSession {rc connects} (hrc : 0 ≤ rc) (hconnects : Connected connects) :
      Requested host port (opened host port rc connects ++ [.contextNew true, .sslNew false,
        .report (bytesOf "SSL_new() failed"), .freeaddrinfo, .close, .contextFree])
  | session {rc connects talk} (hrc : 0 ≤ rc) (hconnects : Connected connects)
      (htalk : Talk talk) :
      Requested host port
        (opened host port rc connects ++ [.contextNew true, .sslNew true] ++ talk ++ release)

variable {peer : Peer} {stale : Vector UInt8 (responseSize + 1)} {fuel : Nat}
  {host port : List UInt8} {calls calls' : List Call}

theorem Talk.append (h : Talk calls) (h' : Talk calls') : Talk (calls ++ calls') :=
  List.forall_mem_append.2 ⟨h, h'⟩

/-- Some server has been connected to. -/
def Reached (calls : List Call) : Prop := ∃ addr, .connect addr 0 ∈ calls

/-- What becomes of each resource. -/
structure Releases (calls : List Call) : Prop where
  list : Reached calls ∧ addressList.ReleasedOnce calls ∨
    ¬ Reached calls ∧ calls.countP addressList.releases = 0
  closed : Reached calls ∧ calls.countP sockClient.releases = 1 ∨
    ¬ Reached calls ∧ calls.countP sockClient.releases = 0
  sock : sockClient.ReleasedOnce calls ↔ Reached calls ∧ .sslNew true ∉ calls
  context : .contextNew true ∈ calls → sslContext.ReleasedOnce calls
  session : .sslNew true ∈ calls → ssl.ReleasedOnce calls

/-- No resource is released. -/
structure Held (calls : List Call) : Prop where
  list : addressList.Kept calls
  sock : sockClient.Kept calls
  context : sslContext.Kept calls
  session : ssl.Kept calls

theorem Held.append (h : Held calls) (h' : Held calls') : Held (calls ++ calls') where
  list := h.list.append h'.list
  sock := h.sock.append h'.sock
  context := h.context.append h'.context
  session := h.session.append h'.session

theorem held_of_notMem (h : ∀ c ∈ calls, c ∉ release) : Held calls := by
  constructor <;> intro c hc <;> have hnot := h c hc <;> revert hnot <;> cases c <;>
    simp [release, addressList, sockClient, sslContext, ssl]

theorem Refused.not_reached (h : Refused calls) : ¬ Reached calls := by
  rintro ⟨addr, hmem⟩
  obtain ⟨addr', rc, heq, hne⟩ := h _ hmem
  cases heq
  exact hne rfl

/-- The connects have made nothing, and release nothing. -/
structure Connects (calls : List Call) : Prop extends Held calls where
  contextNew_notMem (made : Bool) : .contextNew made ∉ calls
  sslNew_notMem (made : Bool) : .sslNew made ∉ calls

theorem connects_of_forall (h : ∀ c ∈ calls, ∃ addr rc, c = .connect addr rc) :
    Connects calls where
  toHeld := held_of_notMem fun c hc => by
    obtain ⟨addr, rc, rfl⟩ := h c hc
    simp [release]
  contextNew_notMem made hmem := by
    obtain ⟨_, _, heq⟩ := h _ hmem
    cases heq
  sslNew_notMem made hmem := by
    obtain ⟨_, _, heq⟩ := h _ hmem
    cases heq

theorem Refused.connects (h : Refused calls) : Connects calls :=
  connects_of_forall fun c hc => by
    obtain ⟨addr, rc, rfl, -⟩ := h c hc
    exact ⟨addr, rc, rfl⟩

theorem Connected.connects (h : Connected calls) : Connects calls := by
  obtain ⟨refused, addr, hrefused, rfl⟩ := h
  refine connects_of_forall (List.forall_mem_append.2 ⟨fun c hc => ?_, ?_⟩)
  · obtain ⟨addr, rc, rfl, -⟩ := hrefused c hc
    exact ⟨addr, rc, rfl⟩
  · exact List.forall_mem_singleton.2 ⟨addr, 0, rfl⟩

theorem Talk.held (h : Talk calls) : Held calls :=
  held_of_notMem fun c hc => by
    have htalk := h c hc
    revert htalk
    cases c <;> simp [release]

theorem Held.opened {rc : Int} (h : Held calls) : Held (opened host port rc calls) :=
  Held.append (held_of_notMem (by simp [release])) h

/-- What a client that is not connected has obtained, it keeps. -/
theorem releases_unconnected (hheld : Held calls) (hreached : ¬ Reached calls)
    (hcontext : .contextNew true ∉ calls) (hssl : .sslNew true ∉ calls) :
    Releases calls where
  list := .inr ⟨hreached, hheld.list.countP⟩
  closed := .inr ⟨hreached, hheld.sock.countP⟩
  sock := iff_of_false hheld.sock.not_releasedOnce fun h => hreached h.1
  context h := absurd h hcontext
  session h := absurd h hssl

theorem Connected.reached {rc : Int} (h : Connected calls) (rest : List Call) :
    Reached (opened host port rc calls ++ rest) := by
  obtain ⟨refused, addr, -, rfl⟩ := h
  exact ⟨addr, by simp [opened]⟩

theorem Held.freed (h : Held calls) (hrest : addressList.Unused calls') :
    addressList.ReleasedOnce (calls ++ .freeaddrinfo :: calls') :=
  h.list.releasedOnce rfl hrest

theorem Held.closed (h : Held calls) (hrest : sockClient.Unused calls') :
    sockClient.ReleasedOnce (calls ++ .freeaddrinfo :: .close :: calls') := by
  have hkept : sockClient.Kept (calls ++ [.freeaddrinfo]) :=
    h.sock.append (by simp [Handle.Kept, sockClient])
  rw [List.append_cons]
  exact hkept.releasedOnce rfl hrest

/-- The end of a client that has no context. -/
theorem Connected.releases_noContext {rc : Int} (h : Connected calls) (message : List UInt8) :
    Releases (opened host port rc calls ++
      [.contextNew false, .report message, .freeaddrinfo, .close]) := by
  have hmade : Held [.contextNew false, .report message] := held_of_notMem (by simp [release])
  have hheld : Held (opened host port rc calls ++ _) := h.connects.opened.append hmade
  have hclosing : addressList.Unused [.close] := by simp [Handle.Unused, addressList]
  have hfreed := hheld.freed hclosing
  have hclosed := hheld.closed .nil
  rw [List.append_assoc] at hfreed hclosed
  have hnone : .sslNew true ∉ opened host port rc calls ++
      [.contextNew false, .report message, .freeaddrinfo, .close] := by
    simp [opened, h.connects.sslNew_notMem]
  refine ⟨.inl ⟨h.reached _, hfreed⟩, .inl ⟨h.reached _, hclosed.once⟩,
    iff_of_true hclosed ⟨h.reached _, hnone⟩, fun hmem => ?_, fun hmem => absurd hmem hnone⟩
  simp [opened, h.connects.contextNew_notMem] at hmem

/-- The end of a client that has no session. -/
theorem Connected.releases_noSession {rc : Int} (h : Connected calls) (message : List UInt8) :
    Releases (opened host port rc calls ++ [.contextNew true, .sslNew false,
      .report message, .freeaddrinfo, .close, .contextFree]) := by
  have hmade : Held [.contextNew true, .sslNew false, .report message] :=
    held_of_notMem (by simp [release])
  have hheld : Held (opened host port rc calls ++ _) := h.connects.opened.append hmade
  have hrest : addressList.Unused [.close, .contextFree] := by simp [Handle.Unused, addressList]
  have hrest' : sockClient.Unused [.contextFree] := by simp [Handle.Unused, sockClient]
  have hclosing : sslContext.Kept [.freeaddrinfo, .close] := by simp [Handle.Kept, sslContext]
  have hfreed := hheld.freed hrest
  have hclosed := hheld.closed hrest'
  have hcontext := (hheld.context.append hclosing).releasedOnce (c := .contextFree) rfl .nil
  simp only [List.append_assoc, List.cons_append, List.nil_append] at hfreed hclosed hcontext
  have hnone : .sslNew true ∉ opened host port rc calls ++ [.contextNew true, .sslNew false,
      .report message, .freeaddrinfo, .close, .contextFree] := by
    simp [opened, h.connects.sslNew_notMem]
  exact ⟨.inl ⟨h.reached _, hfreed⟩, .inl ⟨h.reached _, hclosed.once⟩,
    iff_of_true hclosed ⟨h.reached _, hnone⟩, fun _ => hcontext, fun hmem => absurd hmem hnone⟩

/-- The session is shut down after its socket has been closed. -/
theorem not_releasedOnce_release : ¬ sockClient.ReleasedOnce (calls ++ release) := by
  intro h
  have hlast := (List.pairwise_append.1 h.last).2.1
  simp [release, sockClient] at hlast

/-- The end of a client that has a session. -/
theorem Held.releases_session (h : Held calls) (hreached : Reached calls)
    (hssl : .sslNew true ∈ calls) : Releases (calls ++ release) := by
  have hreached : Reached (calls ++ release) :=
    hreached.imp fun _ hmem => List.mem_append_left _ hmem
  have hrest : addressList.Unused [.close, .contextFree, .shutdown, .sslFree] := by
    simp [Handle.Unused, addressList]
  have hcount : (calls ++ release).countP sockClient.releases = 1 := by
    rw [List.countP_append, h.sock.countP]
    rfl
  have hcontext : sslContext.ReleasedOnce (calls ++ release) := by
    have hclosing : sslContext.Kept [.freeaddrinfo, .close] := by simp [Handle.Kept, sslContext]
    have hrest : sslContext.Unused [.shutdown, .sslFree] := by simp [Handle.Unused, sslContext]
    simpa [release] using (h.context.append hclosing).releasedOnce (c := .contextFree) rfl hrest
  have hsession : ssl.ReleasedOnce (calls ++ release) := by
    have hclosing : ssl.Kept [.freeaddrinfo, .close, .contextFree, .shutdown] := by
      simp [Handle.Kept, ssl]
    simpa [release] using (h.session.append hclosing).releasedOnce (c := .sslFree) rfl .nil
  exact ⟨.inl ⟨hreached, h.freed hrest⟩, .inl ⟨hreached, hcount⟩,
    iff_of_false not_releasedOnce_release fun hnone => hnone.2 (List.mem_append_left _ hssl),
    fun _ => hcontext, fun _ => hsession⟩

theorem Requested.releases (h : Requested host port calls) : Releases calls := by
  cases h with
  | noProto =>
    exact releases_unconnected (held_of_notMem (by simp [release])) (by simp [Reached])
      (by simp) (by simp)
  | unresolved =>
    exact releases_unconnected (held_of_notMem (by simp [release])) (by simp [Reached])
      (by simp) (by simp)
  | unopened =>
    exact releases_unconnected (held_of_notMem (by simp [release, opened]))
      (by simp [Reached, opened]) (by simp [opened]) (by simp [opened])
  | unconnected _ hconnects =>
    have hnot := hconnects.not_reached
    have hconnects := hconnects.connects
    refine releases_unconnected
      (hconnects.append (held_of_notMem (by simp [release]))).opened ?_ ?_ ?_
    · simpa [Reached, opened] using hnot
    · simp [opened, hconnects.contextNew_notMem]
    · simp [opened, hconnects.sslNew_notMem]
  | noContext _ hconnects => exact hconnects.releases_noContext _
  | noSession _ hconnects => exact hconnects.releases_noSession _
  | session _ hconnects htalk =>
    have hmade : Held [.contextNew true, .sslNew true] := held_of_notMem (by simp [release])
    refine ((hconnects.connects.opened.append hmade).append htalk.held).releases_session ?_
      (by simp)
    rw [List.append_assoc]
    exact hconnects.reached _

end LinuxNet.HttpsClient
