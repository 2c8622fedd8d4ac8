-- SUMMARY: Which host and path the redirecting client asks for after a redirection to an absolute URL.
import LinuxNet.HttpClient.RedirectionSpec

/-! # The target of a redirection

The client takes all that follows "Location: " for a host, the scheme and the path
of the URL included, and always asks for the path "/". -/

namespace LinuxNet.HttpClient

def slash : UInt8 := 47

/-- A response with status 301 whose Location header is `http://host`, followed by
a slash and a path if there is one. Other headers stand in front of it, and other
headers and a body behind it. -/
structure MovedResponse where
  version : List UInt8
  reason : List UInt8
  headers : List (List UInt8)
  host : List UInt8
  path : Option (List UInt8)
  rest : List UInt8
  slash_not_mem : slash ∉ host

namespace MovedResponse

/-- The status line, and the headers in front of the Location header. -/
def front (m : MovedResponse) : List UInt8 :=
  bytesOf "HTTP/" ++ m.version ++ bytesOf " 301 " ++ m.reason ++ crlf ++
    m.headers.flatMap (· ++ crlf)

def url (m : MovedResponse) : List UInt8 :=
  bytesOf "http://" ++ m.host ++ (m.path.map (slash :: ·)).getD []

def text (m : MovedResponse) : List UInt8 :=
  m.front ++ location ++ (m.url ++ crlf ++ m.rest)

/-- The path to ask for. -/
def target (m : MovedResponse) : List UInt8 := slash :: m.path.getD []

/-- Something in front of the Location header ends in "Location: ", the host and a
line end, and is the first "Location: " of the response. -/
def Announced (m : MovedResponse) : Prop :=
  ∃ before start after, FirstAt location (cString m.front) before start ∧
    FirstAt crlf start m.host after

/-- The reason phrase is found, the URL has no path but "/", and the host is
announced in front of the Location header. -/
def Followed (m : MovedResponse) : Prop :=
  movedPermanently <:+: cString m.text ∧ m.target = bytesOf "/" ∧ m.Announced

end MovedResponse

variable {m : MovedResponse} {env : Nat → Peer} {fuel n : Nat}
  {host path newHost before start after : List UInt8} {response : Option (List UInt8)}
  {hop : Hop} {out : Outcome} {r : Receiving}

namespace MovedResponse

theorem exists_front (m : MovedResponse) : ∃ lines, m.front = lines ++ crlf := by
  unfold front
  cases m.headers using List.reverseRecOn with
  | nil => exact ⟨_, List.append_nil _⟩
  | append_singleton headers header =>
    refine ⟨bytesOf "HTTP/" ++ m.version ++ bytesOf " 301 " ++ m.reason ++ crlf ++
      headers.flatMap (· ++ crlf) ++ header, ?_⟩
    simp

/-- The value of the header is no host without a slash. -/
theorem url_ne {host rest after : List UInt8} (hslash : slash ∉ host)
    (h : host ++ crlf ++ after = bytesOf "http://" ++ rest) : False := by
  rw [List.append_assoc] at h
  rcases List.append_eq_append_iff.1 h with ⟨tail, hscheme, htail⟩ | ⟨tail, rfl, -⟩
  · cases tail with
    | nil =>
      rw [List.append_nil] at hscheme
      exact hslash (hscheme ▸ by decide)
    | cons c tail =>
      have hc : c = 13 := (List.cons.inj htail).1.symm
      have hmem : (13 : UInt8) ∈ bytesOf "http://" := by
        rw [hscheme, hc]
        simp
      exact absurd hmem (by decide)
  · exact hslash (List.mem_append_left _ (by decide))

/-- What ends in front of the Location header ends in a line of its own. -/
theorem mem_of_front {before tail : List UInt8} (h : m.front = before ++ tail) (hne : tail ≠ []) :
    10 ∈ tail := by
  obtain ⟨lines, hlines⟩ := m.exists_front
  have hlast : (before ++ tail).getLast? = some 10 := by
    rw [← h, hlines, List.getLast?_append_of_ne_nil _ (by decide)]
    rfl
  rw [List.getLast?_append_of_ne_nil _ hne] at hlast
  exact List.mem_of_getLast? hlast

theorem crlf_infix_of_front {before tail : List UInt8} (h : m.front = before ++ location ++ tail) :
    crlf <:+: tail := by
  obtain ⟨lines, hlines⟩ := m.exists_front
  rcases List.append_eq_append_iff.1 (hlines.symm.trans h) with ⟨k, hk, htail⟩ | ⟨k, -, htail⟩
  · cases k with
    | nil =>
      rw [List.nil_append] at htail
      exact htail ▸ List.infix_refl crlf
    | cons c k =>
      -- a part of the line end would be in "Location: "
      have hc : c = 13 := (List.cons.inj htail).1.symm
      have hlength := congrArg List.length htail
      have hcrlf : crlf.length = 2 := by decide
      rw [List.length_append] at hlength
      have hsuffix : c :: k <:+ location :=
        List.suffix_of_suffix_length_le ⟨lines, hk.symm⟩ (List.suffix_append before location)
          (by have : location.length = 10 := by decide
              omega)
      exact absurd (hsuffix.subset List.mem_cons_self) (hc ▸ by decide)
  · exact ⟨k, [], by rw [List.append_nil, htail]⟩

/-- "Location: " in front of the Location header lies there as a whole. -/
theorem exists_of_lt {before start tail : List UInt8}
    (h : m.front ++ (location ++ tail) = before ++ location ++ start)
    (hlt : before.length < m.front.length) :
    ∃ start', m.front = before ++ location ++ start' ∧ crlf <:+: start' := by
  rw [List.append_assoc] at h
  rcases List.append_eq_append_iff.1 h with ⟨k, hk, -⟩ | ⟨k, hk, hstart⟩
  · have hlength := congrArg List.length hk
    rw [List.length_append] at hlength
    omega
  · have hne : k ≠ [] := by
      rintro rfl
      rw [List.append_nil] at hk
      rw [hk] at hlt
      exact lt_irrefl _ hlt
    have hmem := mem_of_front hk hne
    rcases List.append_eq_append_iff.1 hstart with ⟨k', rfl, -⟩ | ⟨k', hlocation, -⟩
    · rw [← List.append_assoc] at hk
      exact ⟨k', hk, crlf_infix_of_front hk⟩
    · exact absurd (hlocation ▸ List.mem_append_left _ hmem) (by decide : (10 : UInt8) ∉ location)

/-- The text of the response up to a zero, when there is none in front of the header. -/
theorem cString_text (h : 0 ∉ m.front) : ∃ tail, cString m.text =
    m.front ++ (location ++ (bytesOf "http://" ++ tail)) := by
  have hscheme : (0 : UInt8) ∉ location ++ bytesOf "http://" := by decide
  refine ⟨cString (m.host ++ (m.path.map (slash :: ·)).getD [] ++ (crlf ++ m.rest)), ?_⟩
  have htext : m.text = m.front ++ ((location ++ bytesOf "http://") ++
      (m.host ++ (m.path.map (slash :: ·)).getD [] ++ (crlf ++ m.rest))) := by
    simp only [text, url, List.append_assoc]
  rw [htext, cString_append h, cString_append hscheme, List.append_assoc]

theorem announced_iff : (∃ before start after, FirstAt location (cString m.text) before start ∧
    FirstAt crlf start m.host after) ↔ m.Announced := by
  by_cases hzero : 0 ∈ m.front
  · have htext : cString m.text = cString m.front := by
      rw [text, List.append_assoc, cString_append_of_mem hzero]
    rw [htext, Announced]
  · obtain ⟨tail, htext⟩ := cString_text hzero
    rw [htext, Announced, cString_eq_self hzero]
    constructor
    · rintro ⟨before, start, after, hfirst, hend⟩
      have hle := hfirst.first m.front (bytesOf "http://" ++ tail) (List.append_assoc ..).symm
      rcases hle.lt_or_eq with hlt | heq
      · obtain ⟨start', hfront, hcontains⟩ := exists_of_lt hfirst.eq hlt
        obtain ⟨start'', hfirst', hstart⟩ := hfirst.of_append ⟨before, start', hfront.symm⟩
        obtain rfl : start' = start'' :=
          List.append_cancel_left (hfront.symm.trans hfirst'.eq)
        obtain ⟨after', hend', -⟩ := (hstart ▸ hend).of_append hcontains
        exact ⟨before, start', after', hfirst', hend'⟩
      · -- the first one is the header itself
        have hfirst' := hfirst.eq
        rw [List.append_assoc before] at hfirst'
        obtain ⟨rfl, hrest⟩ := List.append_inj hfirst'.symm heq
        have hvalue := List.append_cancel_left hrest
        exact absurd (hend.eq.symm.trans hvalue) (url_ne m.slash_not_mem)
    · rintro ⟨before, start, after, hfirst, hend⟩
      exact ⟨before, _, _, hfirst.append _, hend.append _⟩

end MovedResponse

/-! ## The next hop -/

theorem redirection_host_iff {buffer : List UInt8} (hbuffer : cString buffer = cString m.text) :
    (redirection buffer).2 = some m.host ↔
      movedPermanently <:+: cString m.text ∧ m.Announced := by
  rw [redirection_target, hbuffer, MovedResponse.announced_iff]

theorem Exchanged.cString_buffer (h : Exchanged host path hop) (hsome : hop.received = some r) :
    cString r.buffer = cString hop.response := by
  rw [(h.holds hsome).buffer_eq, cString_filled, Hop.response, hsome]
  rfl

/-- The calls of a hop that is answered. -/
theorem Exchanged.answered_calls (h : Exchanged host path hop) (hsome : hop.received ≠ none) :
    handedBy hop.calls = requestText path host ∧
      ∀ name, (∃ port, .getaddrinfo name port true ∈ hop.calls) ↔ name = host := by
  cases h with
  | @answered port s r hs hall hr =>
    constructor
    · rw [handedBy_append, handedBy_append, handedBy_sends, hs.handed_eq, hall, List.take_length,
        handedBy_eq_nil (by simp [connected, lookedUp, Call.send?]),
        handedBy_eq_nil (by simp [recvCalls, or_imp, forall_and, Call.send?])]
      simp
    · simp [connected, lookedUp, recvCalls]
  | _ => exact absurd rfl hsome

/-- The first hop of a call, to which it adds only uses of arrays and releases. -/
theorem Performed.first (h : Performed host path response n out) (hn : n ≤ maxRedirection) :
    ∃ hop extra, Exchanged host path hop ∧ out.hops.head? = some (hop.andThen extra) ∧
      ∀ c ∈ extra, c.send? = none ∧ ∀ name port, c ≠ .getaddrinfo name port true := by
  cases h with
  | tooMany hn' => omega
  | failed _ hhop hnone => exact ⟨_, [], hhop, congrArg some (Hop.andThen_nil _).symm, by simp⟩
  | final _ hhop hsome htarget =>
    refine ⟨_, _, hhop, congrArg some (Hop.andThen_andThen _ _ _), ?_⟩
    simp [Call.send?, or_imp, forall_and]
  | redirected _ hhop hsome htarget hrest =>
    exact ⟨_, _, hhop, rfl, by simp [Call.send?]⟩

/-- What the first hop of a call asks for, if it is answered. -/
theorem Performed.first_calls (h : Performed host path response n out) (hn : n ≤ maxRedirection)
    (hanswered : ∀ hop, out.hops.head? = some hop → hop.received ≠ none) :
    ∃ hop, out.hops.head? = some hop ∧ handedBy hop.calls = requestText path host ∧
      ∀ name, (∃ port, .getaddrinfo name port true ∈ hop.calls) ↔ name = host := by
  obtain ⟨hop, extra, hhop, hhead, hextra⟩ := h.first hn
  obtain ⟨hhanded, hname⟩ := hhop.answered_calls (hanswered (hop.andThen extra) hhead)
  refine ⟨_, hhead, ?_, fun name => ?_⟩
  · rw [Hop.andThen, handedBy_append, hhanded, handedBy_eq_nil fun c hc => (hextra c hc).1,
      List.append_nil]
  · rw [← hname name]
    refine exists_congr fun port => ?_
    rw [Hop.andThen, List.mem_append, or_iff_left]
    exact fun hmem => (hextra _ hmem).2 name port rfl

theorem requestText_injective {path path' : List UInt8}
    (h : requestText path host = requestText path' host) : path = path' := by
  simp only [requestText, List.append_assoc] at h
  exact List.append_cancel_right (List.append_cancel_left h)

/-- After a redirection to an absolute URL the next hop looks up its host and asks
it for its path exactly if the URL has no path, and its host is what an earlier
"Location: " says. -/
theorem redirect_target_iff
    (h : performHttpRequest env fuel host path response n = some out) (hn : n < maxRedirection)
    (hfirst : out.hops.head? = some hop) (hresponse : hop.response = m.text)
    (hanswered : ∀ next, out.hops[1]? = some next → next.received ≠ none) :
    (∃ next, out.hops[1]? = some next ∧ (∃ port, .getaddrinfo m.host port true ∈ next.calls) ∧
      handedBy next.calls = requestText m.target m.host) ↔ m.Followed := by
  have hne : m.text ≠ [] := by
    simp [MovedResponse.text, location, bytesOf]
  cases performHttpRequest_performed h with
  | tooMany hn' => cases hfirst
  | failed _ hhop hnone =>
    cases hfirst
    rw [Hop.response, hnone] at hresponse
    exact absurd hresponse.symm hne
  | final _ hhop hsome htarget =>
    cases hfirst
    have hbuffer := (hhop.cString_buffer hsome).trans (congrArg cString hresponse)
    refine iff_of_false ?_ fun hfollowed => ?_
    · rintro ⟨next, hnext, -⟩
      cases hnext
    have hhost := (redirection_host_iff hbuffer).2 ⟨hfollowed.1, hfollowed.2.2⟩
    exact Option.some_ne_none _ (hhost.symm.trans htarget)
  | @redirected _ _ _ _ first r newHost rest _ hhop hsome htarget hrest =>
    cases hfirst
    have hbuffer := (hhop.cString_buffer hsome).trans (congrArg cString hresponse)
    have htail : ∀ next, rest.hops.head? = some next ↔
        (first.searched r :: rest.hops)[1]? = some next := fun next => by
      rw [List.getElem?_cons_succ, List.head?_eq_getElem?]
    obtain ⟨next, hhead, hhanded, hname⟩ := hrest.first_calls hn fun next hnext =>
      hanswered next ((htail next).1 hnext)
    have hnext : newHost = m.host ↔ movedPermanently <:+: cString m.text ∧ m.Announced := by
      rw [← redirection_host_iff hbuffer, htarget, Option.some.injEq]
    constructor
    · rintro ⟨next', hnext', hport, hhanded'⟩
      obtain rfl := Option.some.inj (hhead.symm.trans ((htail next').2 hnext'))
      have hhost := ((hname m.host).1 hport).symm
      rw [hhanded, hhost] at hhanded'
      exact ⟨(hnext.1 hhost).1, (requestText_injective hhanded').symm, (hnext.1 hhost).2⟩
    · rintro ⟨hmoved, hpath, hannounced⟩
      have hhost := hnext.2 ⟨hmoved, hannounced⟩
      refine ⟨next, (htail next).1 hhead, (hname m.host).2 hhost.symm, ?_⟩
      rw [hhanded, hhost, hpath]

/-- A redirection whose host another header happens to name first. -/
def announcedResponse : MovedResponse where
  version := bytesOf "1.1"
  reason := bytesOf "Moved Permanently"
  headers := [bytesOf "Content-Location: a"]
  host := bytesOf "a"
  path := none
  rest := crlf
  slash_not_mem := by decide

theorem redirect_target_iff_announced :
    ∃ out next, performHttpRequest (redirecting announcedResponse.text okResponse) 4
        (bytesOf "httpstat.us") (bytesOf "/301") none 0 = some out ∧
      out.hops[1]? = some next ∧ handedBy next.calls = requestText (bytesOf "/") (bytesOf "a") := by
  have hle : announcedResponse.text.length ≤ messageSize := by decide
  have hle' : okResponse.length ≤ messageSize := by decide
  have htarget : (redirection (answer announcedResponse.text).buffer).2 = some (bytesOf "a") := by
    decide +kernel
  have hrun := performHttpRequest_redirecting (bytesOf "httpstat.us") (bytesOf "/301") none hle
    hle' htarget (by decide +kernel)
  have hannounced : announcedResponse.Announced :=
    ⟨_, _, _, splitFirst_sound rfl, splitFirst_sound rfl⟩
  obtain ⟨next, hnext, -, hhanded⟩ := (redirect_target_iff (m := announcedResponse) hrun
    (by decide) rfl (by decide) (fun next hnext => by cases hnext; decide)).2
      ⟨by decide, rfl, hannounced⟩
  exact ⟨_, next, hrun, hnext, hhanded⟩

/-- A redirection to `http://a/b`. -/
def movedToPath : MovedResponse where
  version := bytesOf "1.1"
  reason := bytesOf "Moved Permanently"
  headers := []
  host := bytesOf "a"
  path := some (bytesOf "b")
  rest := crlf
  slash_not_mem := by decide

/-- The whole URL is looked up as a host, and asked for "/". -/
theorem redirect_target_url :
    ∃ out next port, performHttpRequest (redirecting movedToPath.text okResponse) 4
        (bytesOf "httpstat.us") (bytesOf "/301") none 0 = some out ∧
      out.hops[1]? = some next ∧ .getaddrinfo (bytesOf "http://a/b") port true ∈ next.calls ∧
      handedBy next.calls = requestText (bytesOf "/") (bytesOf "http://a/b") ∧
      handedBy next.calls ≠ requestText movedToPath.target movedToPath.host := by
  have hle : movedToPath.text.length ≤ messageSize := by decide
  have hle' : okResponse.length ≤ messageSize := by decide
  have htarget : (redirection (answer movedToPath.text).buffer).2 =
      some (bytesOf "http://a/b") := by
    decide +kernel
  have hrun := performHttpRequest_redirecting (bytesOf "httpstat.us") (bytesOf "/301") none hle
    hle' htarget (by decide +kernel)
  exact ⟨_, _, portText 80, hrun, rfl, by decide +kernel, by decide +kernel, by decide +kernel⟩

end LinuxNet.HttpClient
