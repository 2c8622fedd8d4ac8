-- SUMMARY: What a call of the redirecting client can do, hop by hop.
import LinuxNet.Base.Search
import LinuxNet.HttpClient.Redirection

/-! # The ways through a request

A hop ends at one of seven places, and a call makes hops until one of them does
not redirect, or there have been too many. -/

namespace LinuxNet.HttpClient

/-- The calls that look the host up. -/
def lookedUp (host : List UInt8) (port : UInt16) (resolved : Bool) : List Call :=
  [.text 6 (.store (portText port).length), .getaddrinfo host (portText port) resolved]

/-- The calls up to a request that can be sent. -/
def connected (host path : List UInt8) (port : UInt16) : List Call :=
  lookedUp host port true ++ [.socket true, .connect true,
    .text messageSize (.store (requestText path host).length)]

/-- What an exchange can come to. -/
inductive Exchanged (host path : List UInt8) : Hop → Prop
  | noProto :
      Exchanged host path
        ⟨host, path, [.report (bytesOf "TCP protocol is not supported")], 0, none⟩
  | noService :
      Exchanged host path
        ⟨host, path, [.report (bytesOf "HTTP service is not available")], 0, none⟩
  | unresolved {port} :
      Exchanged host path ⟨host, path, lookedUp host port false ++
        [.text messageSize (.store (failedToResolve ++ host).length),
          .report (failedToResolve ++ host)], 0, none⟩
  | unopened {port} :
      Exchanged host path ⟨host, path, lookedUp host port true ++
        [.socket false, .report (bytesOf "socket() failed"), .freeaddrinfo], 0, none⟩
  | unconnected {port} :
      Exchanged host path ⟨host, path, lookedUp host port true ++
        [.socket true, .connect false, .report (bytesOf "connect() failed"), .freeaddrinfo,
          .close], 0, none⟩
  | unsent {port} {s : Sending} (hs : s.Inside (requestText path host))
      (hlt : s.count < (requestText path host).length) :
      Exchanged host path ⟨host, path, connected host path port ++ s.sends.map .send ++
        [.report (bytesOf "Can not send a complete http request"), .freeaddrinfo, .close],
        s.count, none⟩
  | answered {port} {s : Sending} {r : Receiving} (hs : s.Inside (requestText path host))
      (hall : s.count = (requestText path host).length) (hr : r.Holds messageSize) :
      Exchanged host path ⟨host, path, connected host path port ++ s.sends.map .send ++
        recvCalls r, s.count, some r⟩

/-- What the buffer of the caller holds after a response has been copied into it. -/
def copied (response : Option (List UInt8)) (r : Receiving) : Option (List UInt8) :=
  response.map (storeAt · 0 (r.buffer.take r.count))

/-- The hop after it has looked for a redirection. -/
def Hop.searched (hop : Hop) (r : Receiving) : Hop :=
  hop.andThen ((redirection r.buffer).1.map (.text messageSize))

/-- What a hop has received. -/
def Hop.response (hop : Hop) : List UInt8 :=
  (hop.received.map fun r => r.chunks.flatten).getD []

/-- The host that the response of a hop redirects to. -/
def Hop.target (hop : Hop) : Option (List UInt8) :=
  hop.received.bind fun r => (redirection r.buffer).2

/-- What a call of `perform_http_request` can come to. -/
inductive Performed : List UInt8 → List UInt8 → Option (List UInt8) → Nat → Outcome → Prop
  | tooMany {host path response n} (hn : maxRedirection < n) :
      Performed host path response n ⟨.notFound, response, []⟩
  | failed {host path response n hop} (hn : n ≤ maxRedirection)
      (hhop : Exchanged host path hop) (hnone : hop.received = none) :
      Performed host path response n ⟨.unknown, response, [hop]⟩
  | final {host path response n hop r} (hn : n ≤ maxRedirection)
      (hhop : Exchanged host path hop) (hsome : hop.received = some r)
      (htarget : (redirection r.buffer).2 = none) :
      Performed host path response n
        ⟨.successful, copied response r, [(hop.searched r).andThen [.freeaddrinfo, .close]]⟩
  | redirected {host path response n hop r newHost rest} (hn : n ≤ maxRedirection)
      (hhop : Exchanged host path hop) (hsome : hop.received = some r)
      (htarget : (redirection r.buffer).2 = some newHost)
      (hrest : Performed newHost (bytesOf "/") (copied response r) (n + 1) rest) :
      Performed host path response n { rest with hops := hop.searched r :: rest.hops }

variable {peer : Peer} {env : Nat → Peer} {fuel fuel' n : Nat} {host path newHost : List UInt8}
  {response : Option (List UInt8)} {hop : Hop} {out : Outcome} {r : Receiving}

/-! ## Exchanges -/

theorem exchange_exchanged (h : exchange peer fuel host path = some hop) :
    Exchanged host path hop := by
  unfold exchange at h
  dsimp only at h
  split at h
  · cases h
    exact .noProto
  · split at h
    · cases h
      exact .noService
    · cases hresolves : peer.resolves with
      | false =>
        rw [hresolves, if_pos (by rfl)] at h
        cases h
        exact .unresolved
      | true =>
        rw [hresolves, if_neg (by simp)] at h
        split at h
        · cases h
          exact .unopened
        · split at h
          · cases h
            exact .unconnected
          · obtain ⟨⟨s, stopped⟩, hsend, h⟩ := Option.bind_eq_some_iff.1 h
            obtain ⟨hs, -⟩ := sendLoop_spec (by simp) hsend
            dsimp only at h
            split at h
            · cases h
              exact .unsent hs ‹_›
            · rename_i hlt
              obtain ⟨r, hrecv, h⟩ := Option.bind_eq_some_iff.1 h
              cases h
              exact .answered hs (le_antisymm hs.count_le (not_lt.1 hlt)) (recvLoop_spec hrecv)

theorem Hop.response_of_holds (hsome : hop.received = some r) (hr : r.Holds messageSize) :
    hop.response = r.buffer.take r.count := by
  rw [Hop.response, hsome, hr.buffer_eq, hr.count_eq, filled, List.take_left]
  rfl

theorem Exchanged.fields (h : Exchanged host path hop) : hop.host = host ∧ hop.path = path := by
  cases h <;> exact ⟨rfl, rfl⟩

theorem Exchanged.holds (h : Exchanged host path hop) (hsome : hop.received = some r) :
    r.Holds messageSize := by
  cases h with
  | answered hs hall hr =>
    cases hsome
    exact hr
  | _ => cases hsome

/-- The host that a response redirects to. -/
theorem redirection_target {httpResponse : List UInt8} :
    (redirection httpResponse).2 = some newHost ↔
      movedPermanently <:+: cString httpResponse ∧ ∃ before start after,
        FirstAt location (cString httpResponse) before start ∧
          FirstAt crlf start newHost after := by
  unfold redirection
  split
  · rename_i hmoved
    have hcontains := strstr_iff_contained.1 hmoved
    cases hlocation : splitFirst location (cString httpResponse) with
    | none =>
      refine iff_of_false (by simp) ?_
      rintro ⟨-, before, start, after, hfirst, -⟩
      exact splitFirst_eq_none.1 hlocation hfirst.isInfix
    | some parts =>
      obtain ⟨before, start⟩ := parts
      have hfirst := splitFirst_iff.1 hlocation
      cases hcrlf : splitFirst crlf start with
      | none =>
        refine iff_of_false (by simp [hcrlf]) ?_
        rintro ⟨-, before', start', after, hfirst', hend⟩
        obtain ⟨rfl, rfl⟩ := hfirst.unique hfirst'
        exact splitFirst_eq_none.1 hcrlf hend.isInfix
      | some parts =>
        obtain ⟨host, rest⟩ := parts
        have hend := splitFirst_iff.1 hcrlf
        simp only [hcrlf, Option.some.injEq]
        constructor
        · rintro rfl
          exact ⟨hcontains, before, start, rest, hfirst, hend⟩
        · rintro ⟨-, before', start', after, hfirst', hend'⟩
          obtain ⟨rfl, rfl⟩ := hfirst.unique hfirst'
          exact (hend.unique hend').1
  · rename_i hmoved
    refine iff_of_false (by simp) fun h => hmoved (strstr_iff_contained.2 h.1)

/-! ## Whole calls -/

theorem Hop.target_eq (hsome : hop.received = some r) :
    (hop.searched r).target = (redirection r.buffer).2 := by
  have hsome' : (hop.searched r).received = some r := hsome
  rw [Hop.target, hsome']
  rfl

theorem performHttpRequest_performed
    (h : performHttpRequest env fuel host path response n = some out) :
    Performed host path response n out := by
  induction fuel generalizing host path response n out with
  | zero => cases h
  | succ fuel ih =>
    unfold performHttpRequest at h
    split at h
    · cases h
      exact .tooMany ‹_›
    · rename_i hn
      have hle := not_lt.1 hn
      obtain ⟨hop, hexchange, h⟩ := Option.bind_eq_some_iff.1 h
      have hhop := exchange_exchanged hexchange
      split at h
      · cases h
        exact .failed hle hhop ‹_›
      · rename_i r hsome
        dsimp only at h
        split at h
        · rename_i newHost htarget
          obtain ⟨rest, hrest, h⟩ := Option.bind_eq_some_iff.1 h
          cases h
          exact .redirected hle hhop hsome htarget (ih hrest)
        · cases h
          exact .final hle hhop hsome ‹_›

theorem performHttpRequest_failed (hn : n ≤ maxRedirection)
    (hexchange : exchange (env n) fuel host path = some hop) (hnone : hop.received = none) :
    performHttpRequest env (fuel + 1) host path response n =
      some ⟨.unknown, response, [hop]⟩ := by
  unfold performHttpRequest
  rw [if_neg (not_lt.2 hn), hexchange]
  simp only [Option.bind_eq_bind, Option.bind_some, hnone]

theorem performHttpRequest_final (hn : n ≤ maxRedirection)
    (hexchange : exchange (env n) fuel host path = some hop) (hsome : hop.received = some r)
    (htarget : (redirection r.buffer).2 = none) :
    performHttpRequest env (fuel + 1) host path response n =
      some ⟨.successful, copied response r,
        [(hop.searched r).andThen [.freeaddrinfo, .close]]⟩ := by
  unfold performHttpRequest
  rw [if_neg (not_lt.2 hn), hexchange]
  simp only [Option.bind_eq_bind, Option.bind_some, hsome, htarget]
  rfl

theorem performHttpRequest_redirected {rest : Outcome} (hn : n ≤ maxRedirection)
    (hexchange : exchange (env n) fuel host path = some hop) (hsome : hop.received = some r)
    (htarget : (redirection r.buffer).2 = some newHost)
    (hrest : performHttpRequest env fuel newHost (bytesOf "/") (copied response r) (n + 1) =
      some rest) :
    performHttpRequest env (fuel + 1) host path response n =
      some { rest with hops := hop.searched r :: rest.hops } := by
  unfold performHttpRequest
  rw [if_neg (not_lt.2 hn), hexchange]
  rw [copied] at hrest
  simp only [Option.bind_eq_bind, Option.bind_some, hsome, htarget, hrest]
  rfl

/-! ## A server that answers -/

/-- A server that takes every request at once, and answers with `bytes`. -/
def Peer.answering (bytes : List UInt8) : Peer where
  proto := true
  service := some 80
  resolves := true
  opens := true
  connects := true
  send _ size := .sent size le_rfl
  recv k cap := if h : k = 0 ∧ bytes.length ≤ cap then .data bytes h.2 else .data [] (Nat.zero_le _)

/-- What is received from a server that answers with `bytes`. -/
def answer (bytes : List UInt8) : Receiving :=
  ⟨filled messageSize bytes, bytes.length, if bytes = [] then [] else [bytes]⟩

/-- An exchange with such a server. -/
def answeredHop (host path bytes : List UInt8) : Hop :=
  ⟨host, path, connected host path 80 ++
    [.send ⟨requestText path host, (requestText path host).length⟩] ++
    recvCalls (answer bytes), (requestText path host).length, some (answer bytes)⟩

/-- A redirection to a host. -/
def movedTo (host : List UInt8) : List UInt8 :=
  bytesOf "HTTP/1.1 301 Moved Permanently\r\nLocation: " ++ host ++ bytesOf "\r\n\r\n"

def okResponse : List UInt8 := bytesOf "HTTP/1.1 200 OK\r\n\r\n"

variable {bytes : List UInt8}

theorem recvLoop_answering (fuel : Nat) (hle : bytes.length ≤ messageSize) :
    loop (recvRound messageSize (Peer.answering bytes).recv) (fuel + 2) (.start messageSize) =
      some (answer bytes) := by
  by_cases hnil : bytes = []
  · subst hnil
    exact loop_inr rfl
  · have hfirst : recvRound messageSize (Peer.answering bytes).recv (.start messageSize) =
        .inl (answer bytes) := by
      have hlength : ([] : List UInt8).length + bytes.length ≤ messageSize := by simpa using hle
      have hstore := storeAt_filled hlength
      simp only [List.length_nil, List.nil_append, filled, Nat.sub_zero] at hstore
      simp [recvRound, Receiving.start, Peer.answering, answer, hle, RecvResult.bytes, hnil,
        hstore, filled]
    have hsecond : recvRound messageSize (Peer.answering bytes).recv (answer bytes) =
        .inr (answer bytes) := by
      simp [recvRound, Peer.answering, answer, RecvResult.bytes, hnil]
    exact (loop_inl hfirst).trans (loop_inr hsecond)

theorem sendLoop_answering (fuel : Nat) (bytes : List UInt8) {request : List UInt8}
    (hne : request ≠ []) :
    loop (sendRound (· ≤ 0) (Peer.answering bytes).send request) (fuel + 2) ⟨[], 0⟩ =
      some (⟨[⟨request, request.length⟩], request.length⟩, false) := by
  have hpos := List.length_pos_iff.2 hne
  exact sendLoop_once hpos (by simpa using hne) rfl

theorem exchange_answering (hle : bytes.length ≤ messageSize) :
    exchange (.answering bytes) (fuel + 2) host path =
      some (answeredHop host path bytes) := by
  have hne : requestText path host ≠ [] := by
    apply List.ne_nil_of_length_pos
    rw [requestText_length]
    omega
  have hsend := sendLoop_answering fuel bytes hne
  have hrecv := recvLoop_answering fuel hle
  unfold exchange
  dsimp only [Peer.answering] at hsend hrecv ⊢
  rw [hsend]
  simp only [Bool.not_true, Bool.false_eq_true, if_false, Option.bind_eq_bind, Option.bind_some,
    lt_irrefl]
  rw [hrecv]
  rfl

/-- The last hop, with such a server. -/
def finalHop (host path bytes : List UInt8) : Hop :=
  ((answeredHop host path bytes).searched (answer bytes)).andThen [.freeaddrinfo, .close]

theorem performHttpRequest_answered (host path : List UInt8) (response : Option (List UInt8))
    (hle : bytes.length ≤ messageSize)
    (hfinal : (redirection (answer bytes).buffer).2 = none) :
    performHttpRequest (fun _ => .answering bytes) 3 host path response 0 =
      some ⟨.successful, copied response (answer bytes), [finalHop host path bytes]⟩ :=
  performHttpRequest_final (Nat.zero_le _) (exchange_answering hle) rfl hfinal

/-- A server that redirects to another one. -/
def redirecting (first second : List UInt8) (n : Nat) : Peer :=
  .answering (if n = 0 then first else second)

theorem performHttpRequest_redirecting {first second : List UInt8} (host path : List UInt8)
    (response : Option (List UInt8)) (hfirst : first.length ≤ messageSize)
    (hsecond : second.length ≤ messageSize)
    (htarget : (redirection (answer first).buffer).2 = some newHost)
    (hfinal : (redirection (answer second).buffer).2 = none) :
    performHttpRequest (redirecting first second) 4 host path response 0 =
      some ⟨.successful, copied (copied response (answer first)) (answer second),
        [(answeredHop host path first).searched (answer first),
          finalHop newHost (bytesOf "/") second]⟩ :=
  performHttpRequest_redirected (Nat.zero_le _) (exchange_answering hfirst) rfl htarget
    (performHttpRequest_final (by decide) (exchange_answering hsecond) rfl hfinal)

end LinuxNet.HttpClient
