-- SUMMARY: What the parser returns, in one equation: its request line, its header lines and the bytes behind its blank line.
import LinuxNet.HttpServer.ParserSpec

/-! # The result of the parser

The parser takes a string apart into a first line, the lines up to a blank one,
and the bytes behind that. A `message` puts them together. -/

namespace LinuxNet.HttpServer

variable {rest raw line str val first body : Bytes} {lines : List Bytes} {headers : Headers}
  {limits : StringLimits} {request : HTTPRequest} {n k : Nat}

/-- The method and the path in the first line, none if it is blank. -/
def requestLine (raw : Bytes) : Bytes × Bytes :=
  let line := raw.takeWhile (· ≠ newline)
  if line = [carriageReturn] then ([], []) else readFirstLine line

/-- The bytes behind the first blank line of some lines. -/
def behindBlank (lines : List Bytes) : Bytes :=
  [newline].intercalate (lines.dropWhile (· ≠ [carriageReturn])).tail

/-- The bytes behind the first blank line that follows the first line. -/
def afterHead (raw : Bytes) : Bytes := behindBlank (raw.splitOn newline).tail

/-- A zeroed buffer of `k` bytes into which as many bytes as there are have been read. -/
def padded (k : Nat) (bytes : Bytes) : Bytes :=
  bytes.take k ++ List.replicate (k - bytes.length) 0

theorem padded_length (bytes : Bytes) : padded bytes.length bytes = bytes := by
  simp [padded]

/-! ## What the header loop leaves -/

theorem read_ofBytes : ((IStream.ofBytes rest).read k).2 = padded k rest := rfl

theorem read_end {iss : IStream} (h : iss.good = false) : (iss.read k).2 = padded k [] := by
  simp [IStream.read, h, padded]

theorem readHeaders_end_good {iss : IStream} (h : iss.good = false) :
    (readHeaders n iss line headers).1.good = false := by
  cases n with
  | zero => exact h
  | succ n =>
    have hfail : (⟨iss.rest, iss.eof, true⟩ : IStream).good = false := Bool.and_false _
    simp [readHeaders, IStream.getline_end h, hfail]

/-- The header loop leaves the bytes behind the first blank line. -/
theorem readHeaders_read (hn : rest.length < n) :
    ((readHeaders n (.ofBytes rest) str headers).1.read k).2 =
      padded k (behindBlank (rest.splitOn newline)) := by
  induction n generalizing rest str headers with
  | zero => omega
  | succ n ih =>
    by_cases hmem : newline ∈ rest
    · obtain ⟨line, rest, rfl, hline⟩ := List.eq_append_cons_of_mem hmem
      rw [List.splitOn_append_cons_self_of_not_mem hline]
      by_cases hblank : line = [carriageReturn]
      · rw [hblank, List.singleton_append, readHeaders_blank, read_ofBytes, behindBlank,
          List.dropWhile_cons_of_neg (by simp), List.tail_cons, List.intercalate_splitOn]
      · rw [readHeaders_line hline hblank, behindBlank,
          List.dropWhile_cons_of_pos (by simpa using hblank)]
        apply ih
        simp only [List.length_append, List.length_cons] at hn
        omega
    · -- the last line ends the stream, whatever it is
      have hnone : behindBlank [rest] = [] := by
        by_cases hblank : rest = [carriageReturn] <;> simp [behindBlank, hblank]
      have hlast := IStream.getline_last hmem str
      rw [List.splitOn_eq_singleton hmem, hnone]
      apply read_end
      simp only [readHeaders, hlast]
      split
      · exact readHeaders_end_good rfl
      · rfl

theorem readHeaders_getline_read {iss : IStream}
    (h : (IStream.ofBytes raw).getline [] = (iss, line)) :
    ((readHeaders (raw.length + 1) iss line fun _ => none).1.read k).2 =
      padded k (afterHead raw) := by
  by_cases hmem : newline ∈ raw
  · obtain ⟨first, rest, rfl, hfirst⟩ := List.eq_append_cons_of_mem hmem
    obtain ⟨rfl, rfl⟩ := Prod.mk.inj ((IStream.getline_line hfirst rest []).symm.trans h)
    rw [readHeaders_read (by simp; omega), afterHead,
      List.splitOn_append_cons_self_of_not_mem hfirst, List.tail_cons]
  · obtain ⟨rfl, rfl⟩ := Prod.mk.inj ((IStream.getline_last hmem []).symm.trans h)
    rw [read_end (readHeaders_end_good rfl), afterHead, List.splitOn_eq_singleton hmem]
    rfl

theorem readFirstLine_getline {iss : IStream}
    (h : (IStream.ofBytes raw).getline [] = (iss, line)) :
    (if !iss.fail && line ≠ [carriageReturn] then readFirstLine line else ([], [])) =
      requestLine raw := by
  obtain ⟨hline, hfail⟩ := IStream.getline_first raw
  rw [h] at hline hfail
  dsimp only at hline hfail
  unfold requestLine
  dsimp only
  rw [← hline] at hfail ⊢
  by_cases hnil : line = []
  · have hempty : readFirstLine [] = ([], []) := rfl
    simp [hnil, hempty]
  · by_cases hblank : line = [carriageReturn]
    · simp [hblank]
    · simp [hfail hnil, hblank]

/-- `parse` as a function of the parts of the string. -/
theorem parse_result (limits : StringLimits) (raw : Bytes) : parse limits raw =
    match requestHeaders raw contentLength with
    | none => .ok ⟨(requestLine raw).1, (requestLine raw).2, requestHeaders raw, []⟩
    | some val => stoi val >>= fun n => resize limits n >>= fun bodyLength =>
      .ok ⟨(requestLine raw).1, (requestLine raw).2, requestHeaders raw,
        padded bodyLength (afterHead raw)⟩ := by
  obtain ⟨⟨iss, line⟩, hline⟩ := (⟨_, rfl⟩ : ∃ r, (IStream.ofBytes raw).getline [] = r)
  obtain ⟨⟨iss', headers⟩, hloop⟩ :=
    (⟨_, rfl⟩ : ∃ r, readHeaders (raw.length + 1) iss line (fun _ => none) = r)
  have hheaders : headers = requestHeaders raw := by
    rw [← readHeaders_getline hline, hloop]
  have hbody : ∀ k, (iss'.read k).2 = padded k (afterHead raw) := fun k => by
    rw [← readHeaders_getline_read hline, hloop]
  simp only [parse, hline, hloop, hheaders, hbody, ← readFirstLine_getline hline]
  rfl

theorem parse_parts (h : parse limits raw = .ok request) :
    requestLine raw = (request.method, request.path) ∧ request.headers = requestHeaders raw := by
  rw [parse_result] at h
  split at h
  · obtain rfl := Except.ok.inj h
    exact ⟨rfl, rfl⟩
  · obtain ⟨n, -, h⟩ := Except.bind_eq_ok.1 h
    obtain ⟨bodyLength, -, h⟩ := Except.bind_eq_ok.1 h
    obtain rfl := Except.ok.inj h
    exact ⟨rfl, rfl⟩

theorem parse_of_none (hval : requestHeaders raw contentLength = none) : parse limits raw =
    .ok ⟨(requestLine raw).1, (requestLine raw).2, requestHeaders raw, []⟩ := by
  rw [parse_result, hval]

/-- The body has the length that Content-Length starts with. -/
theorem parse_length (h : parse limits raw = .ok request)
    (hval : requestHeaders raw contentLength = some val) :
    ∃ k : Nat, IntNumeral val k ∧ k < 2 ^ 31 ∧ request.body = padded k (afterHead raw) := by
  rw [parse_result, hval] at h
  obtain ⟨n, hstoi, h⟩ := Except.bind_eq_ok.1 h
  obtain ⟨k, hresize, h⟩ := Except.bind_eq_ok.1 h
  obtain rfl := Except.ok.inj h
  obtain ⟨hnum, hlow, hhigh⟩ := stoi_ok_iff.1 hstoi
  obtain ⟨rfl, -⟩ := (resize_ok_iff hlow hhigh).1 hresize
  exact ⟨k, hnum, by omega, rfl⟩

theorem parse_of_stoi (hval : requestHeaders raw contentLength = some val)
    (hstoi : stoi val = .ok (k : Int)) (hmem : k ≤ limits.memory) : parse limits raw =
      .ok ⟨(requestLine raw).1, (requestLine raw).2, requestHeaders raw,
        padded k (afterHead raw)⟩ := by
  obtain ⟨-, hlow, hhigh⟩ := stoi_ok_iff.1 hstoi
  have hresize : resize limits k = .ok k := (resize_ok_iff hlow hhigh).2 ⟨rfl, hmem⟩
  rw [parse_result, hval]
  dsimp only
  rw [hstoi, Except.bind_ok, hresize, Except.bind_ok]

theorem parse_of_decimal (hval : requestHeaders raw contentLength = some (decimal k))
    (hlt : k < 2 ^ 31) (hmem : k ≤ limits.memory) : parse limits raw =
      .ok ⟨(requestLine raw).1, (requestLine raw).2, requestHeaders raw,
        padded k (afterHead raw)⟩ := parse_of_stoi hval (stoi_decimal hlt) hmem

/-! ## Messages -/

/-- A first line, header lines, a blank line and a body. -/
def message (first : Bytes) (lines : List Bytes) (body : Bytes) : Bytes :=
  first ++ newline :: (lines.flatMap (· ++ [newline]) ++ carriageReturn :: newline :: body)

theorem splitOn_flatMap (h : ∀ line ∈ lines, newline ∉ line) (rest : Bytes) :
    (lines.flatMap (· ++ [newline]) ++ rest).splitOn newline =
      lines ++ rest.splitOn newline := by
  induction lines with
  | nil => rfl
  | cons line lines ih =>
    have happend : (line :: lines).flatMap (· ++ [newline]) ++ rest =
        line ++ newline :: (lines.flatMap (· ++ [newline]) ++ rest) := by
      simp
    rw [happend, List.splitOn_append_cons_self_of_not_mem (h line List.mem_cons_self),
      ih fun l hl => h l (List.mem_cons_of_mem _ hl), List.cons_append]

/-- The lines behind the first one. -/
theorem tail_splitOn_message (hfirst : newline ∉ first) (h : ∀ line ∈ lines, newline ∉ line)
    (body : Bytes) : ((message first lines body).splitOn newline).tail =
      lines ++ [carriageReturn] :: body.splitOn newline := by
  have hblank : newline ∉ [carriageReturn] := by decide
  rw [message, List.splitOn_append_cons_self_of_not_mem hfirst, List.tail_cons, splitOn_flatMap h,
    ← List.singleton_append (l := newline :: body),
    List.splitOn_append_cons_self_of_not_mem hblank]

theorem takeWhile_message (hfirst : newline ∉ first) (lines : List Bytes) (body : Bytes) :
    (message first lines body).takeWhile (· ≠ newline) = first := by
  have hall : ∀ b ∈ first, decide (b ≠ newline) = true := fun b hb =>
    decide_eq_true fun he => hfirst (he ▸ hb)
  rw [message, List.takeWhile_append_of_pos hall]
  simp

theorem headerLines_message (hfirst : newline ∉ first)
    (h : ∀ line ∈ lines, newline ∉ line ∧ line ≠ [carriageReturn]) (body : Bytes) :
    headerLines (message first lines body) = lines := by
  have hall : ∀ line ∈ lines, decide (line ≠ [carriageReturn]) = true := fun line hline =>
    decide_eq_true (h line hline).2
  rw [headerLines, tail_splitOn_message hfirst fun line hline => (h line hline).1,
    List.takeWhile_append_of_pos hall]
  simp

theorem requestHeaders_message (hfirst : newline ∉ first)
    (h : ∀ line ∈ lines, newline ∉ line ∧ line ≠ [carriageReturn]) (body : Bytes) :
    requestHeaders (message first lines body) = fun key =>
      lastValue key (lines.filterMap field) := by
  funext key
  rw [requestHeaders, headerLines_message hfirst h]

theorem requestLine_message (hfirst : newline ∉ first) (hne : first ≠ [carriageReturn])
    (lines : List Bytes) (body : Bytes) :
    requestLine (message first lines body) = readFirstLine first := by
  unfold requestLine
  rw [takeWhile_message hfirst]
  dsimp only
  rw [if_neg hne]

theorem afterHead_message (hfirst : newline ∉ first)
    (h : ∀ line ∈ lines, newline ∉ line ∧ line ≠ [carriageReturn]) (body : Bytes) :
    afterHead (message first lines body) = body := by
  have hall : ∀ line ∈ lines, decide (line ≠ [carriageReturn]) = true := fun line hline =>
    decide_eq_true (h line hline).2
  rw [afterHead, tail_splitOn_message hfirst fun line hline => (h line hline).1, behindBlank,
    List.dropWhile_append_of_pos hall, List.dropWhile_cons_of_neg (by simp), List.tail_cons,
    List.intercalate_splitOn]

/-- A message has one first line, one list of header lines and one body. -/
theorem message_injective {first' body' : Bytes} {lines' : List Bytes} (hfirst : newline ∉ first)
    (hfirst' : newline ∉ first') (h : ∀ line ∈ lines, newline ∉ line ∧ line ≠ [carriageReturn])
    (h' : ∀ line ∈ lines', newline ∉ line ∧ line ≠ [carriageReturn])
    (he : message first lines body = message first' lines' body') :
    first = first' ∧ lines = lines' ∧ body = body' := by
  have hline := congrArg (List.takeWhile (· ≠ newline)) he
  have hlines := congrArg headerLines he
  have hbody := congrArg afterHead he
  rw [takeWhile_message hfirst, takeWhile_message hfirst'] at hline
  rw [headerLines_message hfirst h, headerLines_message hfirst' h'] at hlines
  rw [afterHead_message hfirst h, afterHead_message hfirst' h'] at hbody
  exact ⟨hline, hlines, hbody⟩

end LinuxNet.HttpServer
