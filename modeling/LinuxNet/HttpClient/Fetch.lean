-- SUMMARY: The client that fetches a document (my_code/http_client/main.c), and what it sends besides its request.
import LinuxNet.Base.Stale
import LinuxNet.HttpClient.Client

/-! # The client that fetches a document

The request is formatted into an array on the stack that is not cleared, and the
array is sent as a whole. -/

namespace LinuxNet.HttpClient.Fetch

/-- `sizeof(http_request)` -/
def requestSize : Nat := 256

/-- `sizeof(buffer)` -/
def bufferSize : Nat := 1024

/-- `"GET / HTTP/1.1\nHost: %s\nConnection: close\n\n"` -/
def httpRequest (host : List UInt8) : List UInt8 :=
  bytesOf "GET / HTTP/1.1\nHost: " ++ host ++ bytesOf "\nConnection: close\n\n"

/-- A call, with its result. A receive of nothing has failed, or the site has closed
the connection. -/
inductive Call
  | print (text : List UInt8)
  | perror (text : List UInt8)
  | getaddrinfo (host service : List UInt8) (found : Bool)
  | socket (opened : Bool)
  | setsockopt (done : Bool)
  | connect (connected : Bool)
  | text (size : Nat) (a : Access)
  | send (c : SendCall)
  | recv (bytes : List UInt8)
  | close
  | freeaddrinfo
  deriving DecidableEq, Repr

/-- How the calls for a site end. -/
structure Site where
  resolves : Bool
  opens : Bool
  setsOption : Bool
  connects : Bool
  send : (size : Nat) → PartialSend size
  recv : Nat → RecvResult bufferSize

/-- The request is sent. The result says whether `main` goes on. -/
def sendRequest (site : Site) (host : List UInt8) (stale : Vector UInt8 requestSize) :
    List Call × Bool :=
  let array := overlay stale (httpRequest host ++ [0])
  let offered := array.take requestSize
  let sendBytes := (site.send offered.length).rc
  let calls := [.print (bytesOf "Sending http request...\n"),
    .text requestSize (.store (httpRequest host).length), .send ⟨offered, sendBytes⟩]
  if sendBytes > 0 then
    let count := decimal sendBytes.toNat
    (calls ++ [.print (bytesOf "Send " ++ count ++ bytesOf " bytes\n")], true)
  else if sendBytes = 0 then (calls ++ [.print (bytesOf "Connection closed by peer\n")], false)
  else (calls ++ [.perror (bytesOf "send failed")], false)

/-- A round of the receive loop, whose state is what has been received. The result
says whether the site has closed the connection. -/
def recvRound (site : Site) (chunks : List (List UInt8)) :
    List (List UInt8) ⊕ List (List UInt8) × Bool :=
  match site.recv chunks.length with
  | .fail _ => .inr (chunks, false)
  | .data bytes _ => if bytes = [] then .inr (chunks, true) else .inl (chunks ++ [bytes])

/-- The receives, each of which is printed up to a zero, as `"%.*s"` does. -/
def document (chunks : List (List UInt8)) : List Call :=
  chunks.flatMap fun bytes => [.recv bytes, .print (cString bytes)]

/-- `main`, with its exit status; `stale` is what `http_request` holds before. -/
def main (site : Site) (stale : Vector UInt8 requestSize) (fuel : Nat) :
    List (List UInt8) → Option (List Call × Int)
  | [_, host] =>
    let calls := [.print (bytesOf "Connecting...\n"),
      .getaddrinfo host (bytesOf "http") site.resolves]
    if !site.resolves then some (calls ++ [.perror (bytesOf "getaddrinfo")], 1)
    else if !site.opens then some (calls ++ [.socket false, .perror (bytesOf "socket")], 1)
    else if !site.setsOption then
      some (calls ++ [.socket true, .setsockopt false, .perror (bytesOf "setsockopt")], 1)
    else if !site.connects then
      some (calls ++ [.socket true, .setsockopt true, .connect false,
        .perror (bytesOf "connect")], 1)
    else
      let calls := calls ++ [.socket true, .setsockopt true, .connect true,
        .print (bytesOf "Connected\n")]
      let (sending, sent) := sendRequest site host stale
      let calls := calls ++ sending
      if !sent then some (calls, 1)
      else do
        let (chunks, closed) ← loop (recvRound site) fuel []
        let calls := calls ++ (.print (bytesOf "Receiving http response...\n") :: document chunks)
        if closed then
          some (calls ++ [.recv [], .print (bytesOf "\nConnection closed by peer\n"), .close,
            .freeaddrinfo], 0)
        else some (calls ++ [.recv [], .perror (bytesOf "recv failed")], 1)
  | _ => some ([.print (bytesOf "Usage: http_client <website url>\n")], 1)

/-! ## What is sent -/

def Call.offered? : Call → Option (List UInt8)
  | .send c => some c.offered
  | _ => none

/-- The bytes passed to send. -/
def offered (calls : List Call) : List (List UInt8) := calls.filterMap Call.offered?

/-- The bytes passed to send on a connection. -/
def sent (site : Site) (host : List UInt8) (stale : Vector UInt8 requestSize) :
    List (List UInt8) :=
  offered (sendRequest site host stale).1

/-- What the sends of `main` should come to: the request fits its array, and it is
what is passed to send, whatever the array held before. -/
structure SendsOnlyRequest (site : Site) (host : List UInt8) : Prop where
  fits : (httpRequest host).length + 1 ≤ requestSize
  staleFree : StaleFree requestSize (sent site host)
  alone : ∀ stale, sent site host stale = [httpRequest host]

variable {site : Site} {host prog : List UInt8} {stale : Vector UInt8 requestSize}
  {fuel : Nat} {calls : List Call} {code : Int}

theorem httpRequest_length : (httpRequest host).length = 41 + host.length := by
  simp only [httpRequest, List.length_append,
    (by decide : (bytesOf "GET / HTTP/1.1\nHost: ").length = 21),
    (by decide : (bytesOf "\nConnection: close\n\n").length = 20)]
  omega

theorem offered_between {front sending back : List Call}
    (hfront : ∀ c ∈ front, c.offered? = none) (hback : ∀ c ∈ back, c.offered? = none) :
    offered (front ++ sending ++ back) = offered sending := by
  simp only [offered, List.filterMap_append, List.filterMap_eq_nil_iff.2 hfront,
    List.filterMap_eq_nil_iff.2 hback, List.nil_append, List.append_nil]

/-- Nothing is sent while the document is received. -/
theorem offered_document {front sending back : List Call} {text : List UInt8}
    {chunks : List (List UInt8)} (hfront : ∀ c ∈ front, c.offered? = none)
    (hback : ∀ c ∈ back, c.offered? = none) :
    offered (front ++ sending ++ (.print text :: document chunks) ++ back) = offered sending := by
  have hdocument : ∀ c ∈ document chunks, c.offered? = none := by
    intro c hc
    obtain ⟨bytes, -, hc⟩ := List.mem_flatMap.1 hc
    simp only [List.mem_cons, List.not_mem_nil, or_false] at hc
    rcases hc with rfl | rfl <;> rfl
  rw [List.append_assoc]
  exact offered_between hfront
    (List.forall_mem_append.2 ⟨List.forall_mem_cons.2 ⟨rfl, hdocument⟩, hback⟩)

/-- The whole array is sent. -/
theorem sent_eq (site : Site) (host : List UInt8) (stale : Vector UInt8 requestSize) :
    sent site host stale = [overlay stale (httpRequest host ++ [0])] := by
  have htake : (overlay stale (httpRequest host ++ [0])).take requestSize =
      overlay stale (httpRequest host ++ [0]) := List.take_of_length_le (by simp)
  rw [sent, sendRequest, htake]
  dsimp only
  split
  · rfl
  · split <;> rfl

/-- A run of `main` sends this once it is connected, and nothing before. -/
theorem main_offered (h : main site stale fuel [prog, host] = some (calls, code)) :
    offered calls = if .connect true ∈ calls then sent site host stale else [] := by
  unfold main at h
  dsimp only at h
  split at h
  · cases h
    rw [if_neg (by simp)]
    rfl
  · split at h
    · cases h
      rw [if_neg (by simp)]
      rfl
    · split at h
      · cases h
        rw [if_neg (by simp)]
        rfl
      · split at h
        · cases h
          rw [if_neg (by simp)]
          rfl
        · split at h
          · cases h
            rw [if_pos (by simp)]
            rfl
          · obtain ⟨⟨chunks, closed⟩, -, h⟩ := Option.bind_eq_some_iff.1 h
            dsimp only at h
            split at h
            · cases h
              rw [if_pos (by simp)]
              exact offered_document (by simp [Call.offered?]) (by simp [Call.offered?])
            · cases h
              rw [if_pos (by simp)]
              exact offered_document (by simp [Call.offered?]) (by simp [Call.offered?])

/-- The request fits for hosts of up to 214 bytes. -/
theorem fits_iff : (httpRequest host).length + 1 ≤ requestSize ↔ host.length ≤ 214 := by
  rw [httpRequest_length, requestSize]
  omega

/-- What is sent shows what was on the stack unless the request with its terminator
fills the array. -/
theorem sent_staleFree_iff : StaleFree requestSize (sent site host) ↔ 214 ≤ host.length := by
  have hsent : sent site host = fun stale =>
      [(overlay stale (httpRequest host ++ [0])).take requestSize] := by
    funext stale
    rw [sent_eq, List.take_of_length_le (by simp)]
  have hone : (fun read : List UInt8 => [read]).Injective := fun _ _ => List.head_eq_of_cons_eq
  rw [hsent, StaleFree.comp_iff hone, staleFree_take_overlay_iff le_rfl, List.length_append,
    httpRequest_length, List.length_singleton, requestSize]
  omega

/-- What is sent is the request alone only if that fills the array, and its
terminator is stored behind it. -/
theorem sent_eq_request_iff :
    sent site host stale = [httpRequest host] ↔ host.length = 215 := by
  rw [sent_eq, List.cons.injEq, and_iff_left rfl]
  constructor
  · intro h
    have hlength := congrArg List.length h
    rw [overlay_length, httpRequest_length, requestSize] at hlength
    omega
  · intro h
    have hfull : (httpRequest host).length = requestSize := by
      rw [httpRequest_length, h, requestSize]
    rw [overlay_eq, List.append_assoc, List.take_left' hfull]

/-- A request that fits is never all that is sent. -/
theorem not_sendsOnlyRequest (site : Site) (host : List UInt8) :
    ¬ SendsOnlyRequest site host := by
  intro h
  have hfits := fits_iff.1 h.fits
  have halone := sent_eq_request_iff.1 (h.alone (Vector.replicate requestSize 0))
  omega

/-- A site that takes the whole array, and answers nothing. -/
def silentSite : Site where
  resolves := true
  opens := true
  setsOption := true
  connects := true
  send size := .sent size le_rfl
  recv _ := .data [] (Nat.zero_le _)

/-- Two runs for one host whose sends differ in what was on the stack. -/
theorem sent_stale :
    sent silentSite (bytesOf "httpstat.us") (Vector.replicate requestSize 0) ≠
        sent silentSite (bytesOf "httpstat.us") (Vector.replicate requestSize 65) ∧
      ¬ SendsOnlyRequest silentSite (bytesOf "httpstat.us") := by
  have hdiffer : sent silentSite (bytesOf "httpstat.us") (Vector.replicate requestSize 0) ≠
      sent silentSite (bytesOf "httpstat.us") (Vector.replicate requestSize 65) := by
    decide +kernel
  exact ⟨hdiffer, fun h => hdiffer (h.staleFree _ _)⟩

end LinuxNet.HttpClient.Fetch
