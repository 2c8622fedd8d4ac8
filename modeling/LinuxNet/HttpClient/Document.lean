-- SUMMARY: What the client that fetches a document prints of it (my_code/http_client/main.c).
import LinuxNet.Base.Printing
import LinuxNet.HttpClient.Fetch

/-! # The document on the screen

A receive is printed by "%.*s", which stops at a zero. -/

namespace LinuxNet.HttpClient.Fetch

variable {stream host prog : List UInt8} {site : Site} {s : Segmentation bufferSize stream}
  {stale : Vector UInt8 requestSize} {fuel : Nat}

/-- All calls succeed, and the receives are the pieces of a document up to its end. -/
structure Site.Delivers (site : Site) (s : Segmentation bufferSize stream) : Prop where
  resolves : site.resolves = true
  opens : site.opens = true
  setsOption : site.setsOption = true
  connects : site.connects = true
  send : 0 < (site.send requestSize).rc
  recv : ∀ k, site.recv k = (s.pieces[k]?).elim (.data [] (Nat.zero_le _)) Piece.result

def Call.printed? : Call → Option (List UInt8)
  | .print bytes => some bytes
  | _ => none

/-- What the calls print. -/
def printed (calls : List Call) : List UInt8 := (calls.filterMap Call.printed?).flatten

/-- What is printed before the document. -/
def banner (sendBytes : Nat) : List UInt8 :=
  bytesOf "Connecting...\n" ++ bytesOf "Connected\n" ++ bytesOf "Sending http request...\n" ++
    (bytesOf "Send " ++ decimal sendBytes ++ bytesOf " bytes\n") ++
    bytesOf "Receiving http response...\n"

/-- What is printed after it. -/
def farewell : List UInt8 := bytesOf "\nConnection closed by peer\n"

theorem printed_append (calls calls' : List Call) :
    printed (calls ++ calls') = printed calls ++ printed calls' := by
  simp [printed]

theorem printed_document (chunks : List (List UInt8)) :
    printed (document chunks) = chunks.flatMap cString := by
  induction chunks with
  | nil => rfl
  | cons bytes rest ih =>
    rw [document, List.flatMap_cons, printed_append, ← document, ih, List.flatMap_cons]
    exact congrArg (· ++ _) (List.append_nil _)

theorem recvRound_piece (h : site.Delivers s) {k : Nat} (hk : k < s.pieces.length) :
    recvRound site ((s.pieces.take k).map Subtype.val) =
      .inl ((s.pieces.take (k + 1)).map Subtype.val) := by
  have hlength : ((s.pieces.take k).map Subtype.val).length = k := by simp [hk.le]
  have hnext : (s.pieces.take (k + 1)).map Subtype.val =
      (s.pieces.take k).map Subtype.val ++ [(s.pieces[k]).1] := by
    rw [List.take_succ_eq_append_getElem hk, List.map_append]
    rfl
  rw [recvRound, hlength, h.recv, List.getElem?_eq_getElem hk, hnext]
  exact if_neg (s.pieces[k]).2.1

theorem recvRound_end (h : site.Delivers s) :
    recvRound site (s.pieces.map Subtype.val) = .inr (s.pieces.map Subtype.val, true) := by
  have hnone : s.pieces[(s.pieces.map Subtype.val).length]? = none := by simp
  rw [recvRound, h.recv, hnone]
  rfl

/-- The receive loop takes the pieces one after the other. -/
theorem loop_pieces (h : site.Delivers s) (hfuel : s.pieces.length < fuel) :
    loop (recvRound site) fuel [] = some (s.pieces.map Subtype.val, true) := by
  have hrest : ∀ n k, k + n = s.pieces.length → ∀ fuel, n < fuel →
      loop (recvRound site) fuel ((s.pieces.take k).map Subtype.val) =
        some (s.pieces.map Subtype.val, true) := by
    intro n
    induction n with
    | zero =>
      intro k hk fuel hfuel
      obtain ⟨fuel, rfl⟩ := Nat.exists_eq_add_of_lt hfuel
      rw [List.take_of_length_le (by omega)]
      exact loop_inr (recvRound_end h)
    | succ n ih =>
      intro k hk fuel hfuel
      obtain ⟨fuel, rfl⟩ : ∃ m, fuel = m + 1 := ⟨fuel - 1, by omega⟩
      rw [loop_inl (recvRound_piece h (by omega))]
      exact ih (k + 1) (by omega) fuel (by omega)
  exact hrest s.pieces.length 0 (by omega) fuel hfuel

theorem sendRequest_delivers (h : site.Delivers s) :
    ∃ sending, sendRequest site host stale = (sending, true) ∧
      printed sending = bytesOf "Sending http request...\n" ++ (bytesOf "Send " ++
        decimal (site.send requestSize).rc.toNat ++ bytesOf " bytes\n") := by
  have hsize : (overlay stale (httpRequest host ++ [0])).length = requestSize := overlay_length ..
  have htake : (overlay stale (httpRequest host ++ [0])).take requestSize =
      overlay stale (httpRequest host ++ [0]) := List.take_of_length_le hsize.le
  rw [sendRequest, htake, hsize]
  dsimp only
  rw [if_pos h.send]
  exact ⟨_, rfl, by simp [printed, List.filterMap_cons, Call.printed?]⟩

/-- The client prints its pieces of the document, between its own messages. -/
theorem main_delivers (h : site.Delivers s) (hfuel : s.pieces.length < fuel) :
    ∃ calls, main site stale fuel [prog, host] = some (calls, 0) ∧
      printed calls = banner (site.send requestSize).rc.toNat ++ s.text ++ farewell := by
  obtain ⟨sending, hsending, htext⟩ := @sendRequest_delivers _ host _ _ stale h
  have hmain : main site stale fuel [prog, host] =
      some ([.print (bytesOf "Connecting...\n"), .getaddrinfo host (bytesOf "http") true] ++
        [.socket true, .setsockopt true, .connect true, .print (bytesOf "Connected\n")] ++
        sending ++ (.print (bytesOf "Receiving http response...\n") ::
          document (s.pieces.map Subtype.val)) ++
        [.recv [], .print (bytesOf "\nConnection closed by peer\n"), .close, .freeaddrinfo], 0) := by
    simp only [main, h.resolves, h.opens, h.setsOption, h.connects, hsending, loop_pieces h hfuel]
    rfl
  have hdocument : printed (.print (bytesOf "Receiving http response...\n") ::
      document (s.pieces.map Subtype.val)) = bytesOf "Receiving http response...\n" ++ s.text := by
    rw [← List.singleton_append, printed_append, printed_document]
    rfl
  refine ⟨_, hmain, ?_⟩
  rw [printed_append, printed_append, printed_append, htext, hdocument]
  simp [printed, List.filterMap_cons, Call.printed?, banner, farewell]

/-! ## When the document is shown -/

/-- A site that takes the whole array and sends a document in pieces. -/
def delivering (s : Segmentation bufferSize stream) : Site where
  resolves := true
  opens := true
  setsOption := true
  connects := true
  send size := .sent size le_rfl
  recv k := (s.pieces[k]?).elim (.data [] (Nat.zero_le _)) Piece.result

theorem delivering_delivers (s : Segmentation bufferSize stream) : (delivering s).Delivers s :=
  ⟨rfl, rfl, rfl, rfl, Int.natCast_pos.2 (by decide), fun _ => rfl⟩

/-- What the client prints of a document that comes in pieces. -/
def shown (host : List UInt8) (stale : Vector UInt8 requestSize)
    (s : Segmentation bufferSize stream) : Option (List UInt8) :=
  (main (delivering s) stale (s.pieces.length + 1) [bytesOf "http_client", host]).map
    fun r => printed r.1

theorem shown_eq (s : Segmentation bufferSize stream) :
    shown host stale s = some (banner requestSize ++ s.text ++ farewell) := by
  obtain ⟨calls, hmain, hprinted⟩ := @main_delivers _ host (bytesOf "http_client") _ _ stale _
    (delivering_delivers s) (Nat.lt_succ_self _)
  rw [shown, hmain]
  exact congrArg some hprinted

/-- A document is shown as it is, in whatever pieces it comes, exactly if it has no zero.
What is shown of it does not depend on the pieces exactly if no zero in it is followed by
another byte. -/
theorem document_shown_iff (host : List UInt8) (stale : Vector UInt8 requestSize)
    (stream : List UInt8) :
    (∀ s : Segmentation bufferSize stream,
        shown host stale s = some (banner requestSize ++ stream ++ farewell) ↔ 0 ∉ stream) ∧
      ((∀ s t : Segmentation bufferSize stream, shown host stale s = shown host stale t) ↔
        ∀ before b after, stream = before ++ 0 :: b :: after → b = 0) := by
  constructor
  · intro s
    rw [shown_eq, Option.some.injEq, List.append_left_inj, List.append_right_inj]
    exact s.text_eq_stream_iff
  · simp only [shown_eq, Option.some.injEq, List.append_left_inj, List.append_right_inj]
    exact Segmentation.text_eq_iff (by decide)

end LinuxNet.HttpClient.Fetch
