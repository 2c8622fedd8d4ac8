-- SUMMARY: Which bytes of a request end up in its body, and which in its method, path and headers.
import LinuxNet.HttpServer.Message

/-! # Head and body

The body has the length of the last Content-Length, whatever has arrived behind
the blank line. The rest of the result depends on what is before it only. -/

namespace LinuxNet.HttpServer

variable {raw : Bytes} {lines : List Bytes} {limits : StringLimits} {request : HTTPRequest}

/-! ## The body -/

/-- The length that the last Content-Length announces, 0 without one. -/
def declaredLength (raw : Bytes) : Nat :=
  ((requestHeaders raw contentLength).bind fun val => (stoi val).toOption).elim 0 Int.toNat

/-- The body is what has arrived behind the blank line, up to the announced length. -/
structure OnlyReceived (raw : Bytes) (request : HTTPRequest) : Prop where
  body : request.body = (afterHead raw).take (declaredLength raw)
  sent : request.body <:+: raw
  length : request.body.length ≤ raw.length

theorem padded_zero (bytes : Bytes) : padded 0 bytes = [] := by
  simp [padded]

theorem length_padded (k : Nat) (bytes : Bytes) : (padded k bytes).length = k := by
  simp only [padded, List.length_append, List.length_take, List.length_replicate]
  omega

/-- The body always has the announced length. -/
theorem parse_body (h : parse limits raw = .ok request) :
    request.body = padded (declaredLength raw) (afterHead raw) := by
  unfold declaredLength
  cases hval : requestHeaders raw contentLength with
  | none =>
    rw [parse_of_none hval] at h
    obtain rfl := Except.ok.inj h
    exact (padded_zero _).symm
  | some val =>
    obtain ⟨k, hnum, hlt, hbody⟩ := parse_length h hval
    have hstoi : stoi val = .ok (k : Int) := stoi_ok_iff.2 ⟨hnum, by omega⟩
    rw [Option.bind_some, hstoi, hbody]
    rfl

theorem intercalate_tail_suffix (sep : Bytes) (lines : List Bytes) :
    sep.intercalate lines.tail <:+ sep.intercalate lines := by
  match lines with
  | [] => exact List.suffix_rfl
  | [line] => exact List.nil_suffix
  | line :: next :: rest =>
    rw [List.intercalate_cons_cons, List.tail_cons]
    exact List.suffix_append _ _

theorem intercalate_suffix (sep : Bytes) {lines : List Bytes} {rest : List Bytes}
    (h : rest <:+ lines) : sep.intercalate rest <:+ sep.intercalate lines := by
  obtain ⟨front, rfl⟩ := h
  induction front with
  | nil => exact List.suffix_rfl
  | cons line front ih => exact ih.trans (intercalate_tail_suffix sep (line :: (front ++ rest)))

/-- What follows the blank line is the end of the string. -/
theorem afterHead_suffix (raw : Bytes) : afterHead raw <:+ raw := by
  have hlines : ((raw.splitOn newline).tail.dropWhile (· ≠ [carriageReturn])).tail <:+
      raw.splitOn newline :=
    (List.tail_suffix _).trans ((List.dropWhile_suffix _).trans (List.tail_suffix _))
  have hbytes := intercalate_suffix [newline] hlines
  rwa [List.intercalate_splitOn] at hbytes

/-- Without a Content-Length there is no body. -/
theorem parse_whole_none (hval : requestHeaders raw contentLength = none) :
    (∃ request, parse limits raw = .ok request ∧ request.body = afterHead raw) ↔
      afterHead raw = [] := by
  rw [parse_of_none hval]
  constructor
  · rintro ⟨request, hparse, hsame⟩
    obtain rfl := Except.ok.inj hparse
    exact hsame.symm
  · exact fun hnil => ⟨_, rfl, hnil.symm⟩

/-- All of what has arrived is the body exactly if its length is announced. -/
theorem parse_whole_some {val : Bytes} (hval : requestHeaders raw contentLength = some val)
    (hlt : (afterHead raw).length < 2 ^ 31) (hmem : raw.length ≤ limits.memory) :
    (∃ request, parse limits raw = .ok request ∧ request.body = afterHead raw) ↔
      IntNumeral val (afterHead raw).length := by
  constructor
  · rintro ⟨request, hparse, hsame⟩
    obtain ⟨k, hnum, -, hbody⟩ := parse_length hparse hval
    have hlength : k = (afterHead raw).length := by
      rw [← length_padded k (afterHead raw), ← hbody, hsame]
    rwa [← hlength]
  · intro hnum
    have hstoi : stoi val = .ok ((afterHead raw).length : Int) := stoi_ok_iff.2 ⟨hnum, by omega⟩
    have hle : (afterHead raw).length ≤ limits.memory :=
      (afterHead_suffix raw).length_le.trans hmem
    exact ⟨_, parse_of_stoi hval hstoi hle, padded_length _⟩

/-- The body consists of received bytes exactly if as many have arrived as are
announced. -/
theorem onlyReceived_iff (h : parse limits raw = .ok request) :
    OnlyReceived raw request ↔ declaredLength raw ≤ (afterHead raw).length := by
  have hbody := parse_body h
  constructor
  · intro honly
    have hlength := congrArg List.length honly.body
    rw [hbody, length_padded, List.length_take] at hlength
    omega
  · intro hle
    have htake : request.body = (afterHead raw).take (declaredLength raw) := by
      rw [hbody, padded, Nat.sub_eq_zero_of_le hle, List.replicate_zero, List.append_nil]
    have hsent : request.body <:+: raw := by
      rw [htake]
      exact (List.take_prefix _ _).isInfix.trans (afterHead_suffix raw).isInfix
    exact ⟨htake, hsent, hsent.length_le⟩

/-- Some data follow the body that is announced. -/
theorem onlyReceived_iff_pipelined : ∃ request,
    OnlyReceived (bytesOf "POST / HTTP/1.1\r\nContent-Length: 2\r\n\r\nabGET") request ∧
      request.body = bytesOf "ab" := by
  obtain ⟨request, hparse, hbody⟩ : ∃ request, parse stringLimits
      (bytesOf "POST / HTTP/1.1\r\nContent-Length: 2\r\n\r\nabGET") = .ok request ∧
        request.body = bytesOf "ab" := ⟨_, rfl, rfl⟩
  exact ⟨request, (onlyReceived_iff hparse).2 (by decide), hbody⟩

/-- Two bytes arrive of a body of five, and the parser adds three zeros. -/
theorem not_onlyReceived : ¬ ∀ raw request, parse stringLimits raw = .ok request →
    OnlyReceived raw request := by
  intro hall
  let raw := bytesOf "POST / HTTP/1.1\r\nContent-Length: 5\r\n\r\nab"
  obtain ⟨request, hparse, hbody⟩ : ∃ request, parse stringLimits raw = .ok request ∧
      request.body = bytesOf "ab" ++ [0, 0, 0] := ⟨_, rfl, rfl⟩
  have hreceived := (hall raw request hparse).body
  rw [hbody] at hreceived
  exact absurd hreceived (by decide)

/-! ## The head -/

/-- `"\r\n"` -/
def crlf : Bytes := [carriageReturn, newline]

/-- Two results of `parse` have the same method, path and headers, or they are the
same exception. -/
structure SameHead (x y : Except StdException HTTPRequest) : Prop where
  returned : ∀ r₁ r₂, x = .ok r₁ → y = .ok r₂ →
    r₁.method = r₂.method ∧ r₁.path = r₂.path ∧ r₁.headers = r₂.headers
  thrown : ∀ e, x = .error e ↔ y = .error e

theorem takeWhile_append_stop {stop : Bytes} (rest : List Bytes) :
    (lines ++ stop :: rest).takeWhile (· ≠ stop) = lines.takeWhile (· ≠ stop) := by
  rw [List.takeWhile_append]
  split
  · rename_i hlength
    rw [(List.takeWhile_prefix _).eq_of_length hlength]
    simp
  · rfl

/-- The header lines are those before the blank line. -/
theorem headerLines_blank (h b : Bytes) :
    headerLines (h ++ newline :: (crlf ++ b)) = headerLines h := by
  have hblank : newline ∉ [carriageReturn] := by decide
  have hsplit : (h ++ newline :: (crlf ++ b)).splitOn newline =
      h.splitOn newline ++ [carriageReturn] :: b.splitOn newline := by
    rw [List.splitOn_append_cons_self]
    exact congrArg _ (List.splitOn_append_cons_self_of_not_mem hblank b)
  rw [headerLines, hsplit, List.tail_append_of_ne_nil (List.splitOn_ne_nil _ _),
    takeWhile_append_stop]
  rfl

theorem requestHeaders_blank (h b : Bytes) :
    requestHeaders (h ++ newline :: (crlf ++ b)) = requestHeaders h := by
  unfold requestHeaders
  rw [headerLines_blank]

theorem requestLine_append (h rest : Bytes) :
    requestLine (h ++ newline :: rest) = requestLine h := by
  have hline : (h ++ newline :: rest).takeWhile (· ≠ newline) = h.takeWhile (· ≠ newline) := by
    rw [List.takeWhile_append]
    split
    · rename_i hlength
      rw [(List.takeWhile_prefix _).eq_of_length hlength]
      simp
    · rfl
  unfold requestLine
  rw [hline]

/-- The method, the path and the headers are those of what is before the blank line,
and so is the exception. -/
theorem parse_blank (limits : StringLimits) (h b₁ b₂ : Bytes) :
    SameHead (parse limits (h ++ newline :: (crlf ++ b₁)))
      (parse limits (h ++ newline :: (crlf ++ b₂))) := by
  rw [parse_result, parse_result]
  simp only [requestHeaders_blank, requestLine_append]
  cases requestHeaders h contentLength with
  | none =>
    refine ⟨fun r₁ r₂ h₁ h₂ => ?_, fun e => ⟨nofun, nofun⟩⟩
    obtain rfl := Except.ok.inj h₁
    obtain rfl := Except.ok.inj h₂
    exact ⟨rfl, rfl, rfl⟩
  | some val =>
    dsimp only
    cases stoi val with
    | error e => exact ⟨nofun, fun e => Iff.rfl⟩
    | ok n =>
      rw [Except.bind_ok, Except.bind_ok]
      cases resize limits n with
      | error e => exact ⟨nofun, fun e => Iff.rfl⟩
      | ok bodyLength =>
        refine ⟨fun r₁ r₂ h₁ h₂ => ?_, fun e => ⟨nofun, nofun⟩⟩
        obtain rfl := Except.ok.inj h₁
        obtain rfl := Except.ok.inj h₂
        exact ⟨rfl, rfl, rfl⟩

/-- What follows the blank line has no influence on the method, the path and the
headers, nor on whether `parse` throws, whatever is before it. -/
theorem parse_sameHead (limits : StringLimits) (h b₁ b₂ : Bytes) :
    SameHead (parse limits (h ++ crlf ++ crlf ++ b₁)) (parse limits (h ++ crlf ++ crlf ++ b₂)) ∧
      SameHead (parse limits (h ++ newline :: (crlf ++ b₁)))
        (parse limits (h ++ newline :: (crlf ++ b₂))) := by
  have hline : ∀ b, h ++ crlf ++ crlf ++ b = h ++ [carriageReturn] ++ newline :: (crlf ++ b) := by
    simp [crlf]
  rw [hline, hline]
  exact ⟨parse_blank limits _ b₁ b₂, parse_blank limits h b₁ b₂⟩

end LinuxNet.HttpServer
