-- SUMMARY: On which requests the parser returns, for every string of bytes.
import LinuxNet.HttpServer.Parser

/-! # When the parser returns

The parser reads the lines after the first one up to a blank line. Of the
fields in these lines the last one with a key counts, and the value of the last
Content-Length field decides whether the parser returns. -/

namespace LinuxNet.HttpServer

variable {rest line raw key str : Bytes} {headers : Headers} {limits : StringLimits}

/-- The lines of `raw` which the parser takes for header lines. -/
def headerLines (raw : Bytes) : List Bytes :=
  (raw.splitOn newline).tail.takeWhile (· ≠ [carriageReturn])

/-- The value of the last field with a key. -/
def lastValue (key : Bytes) (fields : List (Bytes × Bytes)) : Option Bytes :=
  fields.reverse.lookup key

/-! ## The header loop -/

/-- A stream that is at its end yields no line. -/
theorem readHeaders_end {n : Nat} {iss : IStream} (h : iss.good = false) :
    (readHeaders n iss line headers).2 = headers := by
  cases n with
  | zero => rfl
  | succ n => simp [readHeaders, IStream.getline, h]

theorem readHeaders_line {n : Nat} (h : newline ∉ line) (hne : line ≠ [carriageReturn]) :
    readHeaders (n + 1) (.ofBytes (line ++ newline :: rest)) str headers =
      readHeaders n (.ofBytes rest) line (addHeader headers line) := by
  have hline := IStream.getline_line h rest str
  have hfail : (IStream.ofBytes rest).fail = false := rfl
  simp only [readHeaders, hline, hfail]
  simp [hne]

theorem readHeaders_blank {n : Nat} :
    readHeaders (n + 1) (.ofBytes (carriageReturn :: newline :: rest)) str headers =
      (.ofBytes rest, headers) := by
  have hnot : newline ∉ [carriageReturn] := by decide
  have hline := IStream.getline_line hnot rest str
  rw [List.singleton_append] at hline
  simp [readHeaders, hline]

theorem addHeader_nil : addHeader headers [] = headers := rfl

/-- A last line without a newline. -/
theorem readHeaders_last {n : Nat} (h : newline ∉ line) :
    (readHeaders (n + 1) (.ofBytes line) str headers).2 =
      if line = [carriageReturn] then headers else addHeader headers line := by
  have hline := IStream.getline_last h str
  have hend : (⟨[], true, false⟩ : IStream).good = false := rfl
  simp only [readHeaders, hline]
  by_cases hnil : line = []
  · simp [hnil, addHeader_nil]
  · by_cases hblank : line = [carriageReturn]
    · simp [hblank]
    · simp [hnil, hblank, readHeaders_end hend]

/-- The header loop adds the header lines, up to a blank one. -/
theorem readHeaders_spec {n : Nat} (hn : rest.length < n) :
    (readHeaders n (.ofBytes rest) str headers).2 =
      ((rest.splitOn newline).takeWhile (· ≠ [carriageReturn])).foldl addHeader headers := by
  induction n generalizing rest str headers with
  | zero => omega
  | succ n ih =>
    by_cases hmem : newline ∈ rest
    · obtain ⟨line, rest, rfl, hline⟩ := List.eq_append_cons_of_mem hmem
      rw [List.splitOn_append_cons_self_of_not_mem hline]
      by_cases hblank : line = [carriageReturn]
      · rw [hblank, List.singleton_append, readHeaders_blank]
        simp
      · rw [readHeaders_line hline hblank, List.takeWhile_cons_of_pos (by simpa using hblank),
          List.foldl_cons]
        apply ih
        simp only [List.length_append, List.length_cons] at hn
        omega
    · rw [List.splitOn_eq_singleton hmem, readHeaders_last hmem]
      by_cases hblank : rest = [carriageReturn] <;> simp [hblank]

/-! ## The last field with a key -/

theorem lastValue_cons {fields : List (Bytes × Bytes)} {f : Bytes × Bytes} :
    lastValue key (f :: fields) =
      (lastValue key fields).or (if key = f.1 then some f.2 else none) := by
  obtain ⟨k, val⟩ := f
  simp only [lastValue, List.reverse_cons, List.lookup_append, List.lookup_cons, List.lookup_nil]
  by_cases hkey : key = k
  · simp [hkey]
  · have hne : (key == k) = false := beq_false_of_ne hkey
    simp [hkey, hne]

/-- The headers that the lines add are their fields, the last one of a key winning. -/
theorem foldl_addHeader {lines : List Bytes} :
    (lines.foldl addHeader headers) key =
      (lastValue key (lines.filterMap field)).or (headers key) := by
  induction lines generalizing headers with
  | nil => rfl
  | cons line lines ih =>
    rw [List.foldl_cons, ih]
    cases hfield : field line with
    | none => simp [addHeader, hfield]
    | some f =>
      rw [List.filterMap_cons_some hfield, lastValue_cons]
      by_cases hkey : key = f.1 <;> simp [addHeader, hfield, hkey]

/-! ## When parse returns -/

/-- The conversion of an `int` to a length, and the length check. -/
theorem resize_ok_iff {n : Int} {bodyLength : Nat} (hlow : -2 ^ 31 ≤ n) (hhigh : n < 2 ^ 31) :
    resize limits n = .ok bodyLength ↔ n = bodyLength ∧ bodyLength ≤ limits.memory := by
  have hlimits := limits.lt_negative
  have hmemory := limits.memory_le
  simp only [resize]
  split
  · simp only [Except.throw_eq, reduceCtorEq, false_iff]
    omega
  · split
    · simp only [Except.throw_eq, reduceCtorEq, false_iff]
      omega
    · simp only [Except.pure_eq, Except.ok.injEq]
      omega

/-- The headers of a request. -/
def requestHeaders (raw : Bytes) : Headers :=
  fun key => lastValue key ((headerLines raw).filterMap field)

/-- The header loop after the first line. -/
theorem readHeaders_getline {iss : IStream} (h : (IStream.ofBytes raw).getline [] = (iss, line)) :
    (readHeaders (raw.length + 1) iss line fun _ => none).2 = requestHeaders raw := by
  have hlines : (readHeaders (raw.length + 1) iss line fun _ => none).2 =
      (headerLines raw).foldl addHeader fun _ => none := by
    by_cases hmem : newline ∈ raw
    · obtain ⟨first, rest, rfl, hfirst⟩ := List.eq_append_cons_of_mem hmem
      obtain ⟨rfl, rfl⟩ := Prod.mk.inj ((IStream.getline_line hfirst rest []).symm.trans h)
      rw [readHeaders_spec (by simp; omega), headerLines,
        List.splitOn_append_cons_self_of_not_mem hfirst, List.tail_cons]
    · obtain ⟨rfl, rfl⟩ := Prod.mk.inj ((IStream.getline_last hmem []).symm.trans h)
      have hend : (⟨[], true, raw = []⟩ : IStream).good = false := rfl
      rw [readHeaders_end hend, headerLines, List.splitOn_eq_singleton hmem]
      rfl
  funext key
  rw [hlines, foldl_addHeader, Option.or_none, requestHeaders]

/-- `parse` up to the body: what is left to do is to convert the last
Content-Length and to read the body. -/
theorem parse_spec (limits : StringLimits) (raw : Bytes) :
    ∃ (method path : Bytes) (iss : IStream), parse limits raw =
    match requestHeaders raw contentLength with
    | none => .ok ⟨method, path, requestHeaders raw, []⟩
    | some val => stoi val >>= fun n => resize limits n >>= fun bodyLength =>
      .ok ⟨method, path, requestHeaders raw, (iss.read bodyLength).2⟩ := by
  obtain ⟨⟨iss, line⟩, hline⟩ := (⟨_, rfl⟩ : ∃ r, (IStream.ofBytes raw).getline [] = r)
  obtain ⟨⟨iss', headers⟩, hloop⟩ :=
    (⟨_, rfl⟩ : ∃ r, readHeaders (raw.length + 1) iss line (fun _ => none) = r)
  have hheaders : headers = requestHeaders raw := by
    rw [← readHeaders_getline hline, hloop]
  simp only [parse, hline, hloop, hheaders]
  exact ⟨_, _, iss', rfl⟩

/-- The values of the last Content-Length on which `parse` returns. -/
def LengthOk (limits : StringLimits) (raw : Bytes) : Prop :=
  ∀ val, requestHeaders raw contentLength = some val →
    ∃ n : Nat, IntNumeral val n ∧ n < 2 ^ 31 ∧ n ≤ limits.memory

theorem parse_ok_iff : (∃ request, parse limits raw = .ok request) ↔ LengthOk limits raw := by
  obtain ⟨method, path, iss, hparse⟩ := parse_spec limits raw
  rw [hparse, LengthOk]
  cases hval : requestHeaders raw contentLength with
  | none => simp
  | some val =>
    simp only [Option.some.injEq, forall_eq']
    constructor
    · rintro ⟨request, hok⟩
      obtain ⟨n, hstoi, hok⟩ := Except.bind_eq_ok.1 hok
      obtain ⟨bodyLength, hresize, -⟩ := Except.bind_eq_ok.1 hok
      obtain ⟨hnum, hlow, hhigh⟩ := stoi_ok_iff.1 hstoi
      obtain ⟨rfl, hmem⟩ := (resize_ok_iff hlow hhigh).1 hresize
      exact ⟨bodyLength, hnum, by omega, hmem⟩
    · rintro ⟨n, hnum, hint, hmem⟩
      have hstoi : stoi val = .ok (n : Int) := stoi_ok_iff.2 ⟨hnum, by omega⟩
      have hresize : resize limits n = .ok n :=
        (resize_ok_iff (by omega) (by omega)).2 ⟨rfl, hmem⟩
      exact ⟨_, by rw [hstoi, Except.bind_ok, hresize, Except.bind_ok]⟩

/-- `parse` returns on the requests without a Content-Length, and on those whose
last Content-Length starts with a numeral from 0 to the largest `int`, for a
length that there is memory for. -/
theorem parse_returns_iff : (∃ request, parse limits raw = .ok request) ↔
    ∀ val, lastValue contentLength ((headerLines raw).filterMap field) = some val →
      ∃ n : Nat, IntNumeral val n ∧ n < 2 ^ 31 ∧ n ≤ limits.memory := parse_ok_iff

/-- A 64-bit library, with memory for strings of 1 GiB. -/
def stringLimits : StringLimits := ⟨2 ^ 63 - 1, 2 ^ 30, by decide, by decide⟩

/-- The four ways in which a Content-Length makes `parse` throw. -/
theorem parse_throws :
    parse stringLimits (bytesOf "GET / HTTP/1.1\r\nContent-Length: abc\r\n\r\n") =
      .error .invalidArgument ∧
    parse stringLimits (bytesOf "GET / HTTP/1.1\r\nContent-Length: 2147483648\r\n\r\n") =
      .error .outOfRange ∧
    parse stringLimits (bytesOf "GET / HTTP/1.1\r\nContent-Length: -1\r\n\r\n") =
      .error .lengthError ∧
    parse stringLimits (bytesOf "GET / HTTP/1.1\r\nContent-Length: 2147483647\r\n\r\n") =
      .error .badAlloc := by
  refine ⟨?_, ?_, ?_, ?_⟩ <;> rfl

end LinuxNet.HttpServer
