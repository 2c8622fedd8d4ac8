-- SUMMARY: The client that fetches a document and the HTTP server: whatever TCP makes of the request, the page comes.
import LinuxNet.HttpClient.Document
import LinuxNet.HttpServer.LineEndings
import LinuxNet.HttpServer.Service

/-! # Fetching a page from the server

The client of my_code/http_client sends its array as a whole, with what is behind the
request in it. The server answers the first piece of that, and looks at no more of it
than its path. -/

namespace LinuxNet

namespace HttpServer

variable {raw line key val y u v : Bytes}

/-- A field has its key and a colon at its start. -/
theorem field_prefix (h : field line = some (key, val)) : key ++ [colon] <+: line := by
  unfold field at h
  dsimp only at h
  have hstrip : (if line.getLast? = some carriageReturn then line.dropLast else line) <+: line := by
    split
    · exact List.dropLast_prefix line
    · exact List.prefix_rfl
  generalize (if line.getLast? = some carriageReturn then line.dropLast else line) = s at h hstrip
  refine List.IsPrefix.trans ?_ hstrip
  split at h
  · cases h
  · rename_i b rest hdrop
    obtain ⟨rfl, -⟩ := Prod.mk.inj (Option.some.inj h)
    have hhead := List.head?_dropWhile_not (· ≠ colon) s
    rw [hdrop] at hhead
    obtain rfl : b = colon := by simpa using hhead
    refine ⟨rest, ?_⟩
    rw [List.append_assoc, List.singleton_append, ← hdrop, List.takeWhile_append_dropWhile]

/-- Each line but the first one follows the end of another. -/
theorem line_infix_intercalate {first : Bytes} {rest : List Bytes} (h : line ∈ rest) :
    newline :: line <:+: [newline].intercalate (first :: rest) := by
  induction rest generalizing first with
  | nil => cases h
  | cons next rest ih =>
    rw [List.intercalate_cons_cons]
    rcases List.mem_cons.1 h with rfl | h
    · have hinitial : line <+: [newline].intercalate (line :: rest) := by
        cases rest with
        | nil => rw [List.intercalate_singleton]
        | cons next rest =>
          rw [List.intercalate_cons_cons, List.append_assoc]
          exact List.prefix_append _ _
      rw [List.append_assoc]
      exact (List.cons_prefix_cons.2 ⟨rfl, hinitial⟩).isInfix.trans
        (List.suffix_append first _).isInfix
    · exact (ih h).trans (List.suffix_append _ _).isInfix

theorem lastValue_mem {fields : List (Bytes × Bytes)} (h : lastValue key fields = some val) :
    (key, val) ∈ fields := by
  induction fields with
  | nil => cases h
  | cons f fields ih =>
    rw [lastValue_cons] at h
    rcases Option.or_eq_some_iff.1 h with h | ⟨-, h⟩
    · exact List.mem_cons_of_mem _ (ih h)
    · split at h
      · rename_i hkey
        rw [hkey, ← Option.some.inj h]
        exact List.mem_cons_self
      · cases h

/-- A header that is found starts a line. -/
theorem infix_of_requestHeaders (h : requestHeaders raw key = some val) :
    newline :: (key ++ [colon]) <:+: raw := by
  obtain ⟨line, hline, hfield⟩ := List.mem_filterMap.1 (lastValue_mem h)
  have htail := (List.takeWhile_prefix _).subset hline
  obtain ⟨first, rest, hsplit⟩ := List.exists_cons_of_ne_nil (List.splitOn_ne_nil newline raw)
  rw [hsplit] at htail
  have hinside : newline :: line <:+: [newline].intercalate (first :: rest) :=
    line_infix_intercalate htail
  rw [← hsplit, List.intercalate_splitOn] at hinside
  exact (List.cons_prefix_cons.2 ⟨rfl, field_prefix hfield⟩).isInfix.trans hinside

/-- What follows the end of a line is where the next one starts, or further on. -/
theorem infix_line (hu : newline ∉ u) (h : newline :: y <:+: u ++ newline :: v) :
    y <+: v ∨ newline :: y <:+: v := by
  induction u with
  | nil =>
    rcases List.infix_cons_iff.1 h with h | h
    · exact .inl (List.cons_prefix_cons.1 h).2
    · exact .inr h
  | cons b u ih =>
    rcases List.infix_cons_iff.1 h with h | h
    · exact absurd (List.cons_prefix_cons.1 h).1 fun heq => hu (heq ▸ List.mem_cons_self)
    · exact ih (List.not_mem_of_not_mem_cons hu) h

end HttpServer

namespace HttpClient.Fetch

open HttpServer

variable {env : Environment} {host : List UInt8} {stale : Vector UInt8 requestSize}
  {response : HTTPResponse} {n k : Nat}

theorem httpRequest_lines (host : List UInt8) : httpRequest host =
    bytesOf "GET / HTTP/1.1" ++ newline ::
      ((bytesOf "Host: " ++ host) ++ newline :: bytesOf "Connection: close\n\n") := by
  rw [httpRequest]
  simp only [List.append_assoc]
  rfl

/-- The client announces no body, in no part of its request. -/
theorem contentLength_none (hline : newline ∉ host) (n : Nat) :
    requestHeaders ((httpRequest host).take n) contentLength = none := by
  cases hval : requestHeaders ((httpRequest host).take n) contentLength with
  | none => rfl
  | some val =>
    have hinside := (infix_of_requestHeaders hval).trans (List.take_prefix n _).isInfix
    rw [httpRequest_lines] at hinside
    have hhost : newline ∉ bytesOf "Host: " ++ host := fun hmem =>
      (List.mem_append.1 hmem).elim (by decide) hline
    rcases infix_line (by decide) hinside with h | h
    · exact absurd (List.cons_prefix_cons.1 h).1 (by decide)
    · rcases infix_line hhost h with h | h
      · exact absurd h (by decide)
      · exact absurd h (by decide)

/-- The path in the first bytes of the request. -/
theorem requestLine_take (host : List UInt8) (hn : 0 < n) :
    (requestLine ((httpRequest host).take n)).2 = (bytesOf "/").take (n - 4) := by
  have htake : ((httpRequest host).take n).takeWhile (· ≠ newline) =
      (bytesOf "GET / HTTP/1.1").take n := by
    rw [httpRequest_lines]
    exact takeWhile_take_line (by decide) _ n
  have hpath := @readFirstLine_take (bytesOf "GET") (bytesOf "/") n (by decide)
    (by decide +kernel) (by decide) (by decide +kernel) (bytesOf "HTTP/1.1") hn
  obtain ⟨k, rfl⟩ : ∃ k, n = k + 1 := ⟨n - 1, by omega⟩
  rw [requestLine, htake, if_neg]
  · exact hpath
  · exact fun h => absurd (List.cons.inj h).1 (by decide)

/-- The first bytes of the request are answered with the first page. -/
theorem respond_take (hline : newline ∉ host) (hn : 0 < n) :
    respond env ((httpRequest host).take n) = ((routeNames env.fs env.cwd
      (UnixPath.names httpRootPath)).mapError .filesystem).map HTTPResponse.toBytes := by
  have hparse := @parse_of_none _ env.limits (contentLength_none hline n)
  have hpath := requestLine_take host hn
  have hroot : UnixPath.names (httpRootPath ++ (bytesOf "/").take (n - 4)) =
      UnixPath.names httpRootPath := by
    rcases Nat.eq_zero_or_pos (n - 4) with hzero | hpos
    · rw [hzero, List.take_zero, List.append_nil]
    · rw [List.take_of_length_le (show (bytesOf "/").length ≤ n - 4 from hpos)]
      decide
  rw [respond_eq hparse, hpath, hroot]
  rw [hpath]
  exact fun hmem => absurd (List.mem_of_mem_take hmem) (by decide)

/-- The bytes that are on their way after the client has sent its array. -/
def taken (site : Site) (host : List UInt8) (stale : Vector UInt8 requestSize) :
    List UInt8 :=
  (sent site host stale).flatten.take (site.send HttpClient.Fetch.requestSize).rc.toNat

/-- Up to a zero, what is on its way is the request, or its first bytes. -/
theorem cString_taken (site : Site) (hlength : host.length ≤ 214) (hzero : 0 ∉ host)
    (n : Nat) : cString ((taken site host stale).take n) =
      (httpRequest host).take (min n (site.send HttpClient.Fetch.requestSize).rc.toNat) := by
  have hfits := fits_iff.2 hlength
  have hrequest : 0 ∉ httpRequest host := by
    rw [httpRequest]
    simp only [List.mem_append, not_or]
    exact ⟨⟨by decide, hzero⟩, by decide⟩
  have hle : (httpRequest host ++ [0]).length ≤ requestSize := by
    rw [List.length_append]
    exact hfits
  rw [taken, sent_eq, List.flatten_singleton, List.take_take, ← take_cString,
    overlay_of_le hle, List.append_assoc, List.singleton_append, cString_terminated,
    cString_eq_self hrequest]

/-- The server answers whatever it receives first of the client with the page of its root
directory, and with nothing else. -/
theorem answers_taken {site : Site} (hlength : host.length ≤ 214) (hzero : 0 ∉ host)
    (hline : newline ∉ host) (hsend : 0 < (site.send HttpClient.Fetch.requestSize).rc)
    (hroute : routeNames env.fs env.cwd (UnixPath.names httpRootPath) = .ok response)
    (cut : Segmentation HttpServer.messageSize (taken site host stale)) :
    answers env cut.results = .ok [response.toBytes] := by
  have hne : taken site host stale ≠ [] := by
    have hsize : (overlay stale (httpRequest host ++ [0])).length = 256 := overlay_length ..
    rw [taken, sent_eq, List.flatten_singleton, ← List.length_pos_iff, List.length_take]
    omega
  obtain ⟨p, pieces, hpieces, -, tail, happend⟩ := cut.exists_first hne
  have hfirst : p.1 = (taken site host stale).take p.1.length := by
    rw [happend, List.take_left]
  have hpos : 0 < min p.1.length (site.send HttpClient.Fetch.requestSize).rc.toNat := by
    have hlen := List.length_pos_iff.2 p.2.1
    omega
  rw [Segmentation.results, hpieces, List.map_cons, answers_cons, cString_filled, hfirst,
    cString_taken site hlength hzero, respond_take hline hpos, hroute]
  rfl

/-- A client that fetches the document of the server is sent the page of the root
directory, and shows it exactly if there is no zero in it. The name of the server, the
memory of the client, and how TCP cuts the request and the page, make no difference. -/
theorem page_fetched {site : Site} {s : Segmentation bufferSize response.toBytes}
    {fuel : Nat} (prog : List UInt8) (hlength : host.length ≤ 214) (hzero : 0 ∉ host)
    (hline : newline ∉ host)
    (hroute : routeNames env.fs env.cwd (UnixPath.names httpRootPath) = .ok response)
    (cut : Segmentation HttpServer.messageSize (taken site host stale)) (hsite : site.Delivers s)
    (hfuel : s.pieces.length < fuel) :
    answers env cut.results = .ok [response.toBytes] ∧
      ∃ calls, main site stale fuel [prog, host] = some (calls, 0) ∧
        (printed calls = banner (site.send HttpClient.Fetch.requestSize).rc.toNat ++
          response.toBytes ++ farewell ↔ 0 ∉ response.toBytes) := by
  obtain ⟨calls, hmain, hprinted⟩ := @main_delivers _ host prog _ _ stale _ hsite hfuel
  refine ⟨answers_taken hlength hzero hline hsite.send hroute cut, calls, hmain, ?_⟩
  rw [hprinted, List.append_left_inj, List.append_right_inj]
  exact s.text_eq_stream_iff

/-- The page of a root directory in which it is empty. -/
def emptyPage : HTTPResponse := HTTPResponse.setBody [] ⟨http200, [], []⟩

def wholePage : Segmentation bufferSize emptyPage.toBytes :=
  .whole (by decide) (by decide)

/-- The stack of the client is full of letters. -/
def letters : Vector UInt8 requestSize := Vector.replicate requestSize 65

/-- What the client sends arrives byte by byte. -/
def bytewisePieces : Segmentation HttpServer.messageSize
    (taken (delivering wholePage) (bytesOf "localhost") letters) :=
  .bytewise (by decide) _

theorem page_fetched_bytewise :
    answers emptyPages bytewisePieces.results = .ok [emptyPage.toBytes] ∧
      ∃ calls, main (delivering wholePage) letters 2 [bytesOf "http_client", bytesOf "localhost"] =
          some (calls, 0) ∧
        printed calls = banner 256 ++ emptyPage.toBytes ++ farewell := by
  have hroute : routeNames emptyPages.fs emptyPages.cwd (UnixPath.names httpRootPath) =
      .ok emptyPage := rfl
  obtain ⟨hanswers, calls, hmain, hprinted⟩ := page_fetched (bytesOf "http_client") (by decide)
    (by decide) (by decide) hroute bytewisePieces (delivering_delivers wholePage)
    (by decide : 1 < 2)
  exact ⟨hanswers, calls, hmain, hprinted.2 (by decide)⟩

end HttpClient.Fetch

end LinuxNet
