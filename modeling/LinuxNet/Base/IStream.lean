-- SUMMARY: Input string streams of the C++ library: getline, word extraction and read, with their error states.
import Mathlib.Data.List.TakeWhile

/-! # std::istringstream

A stream is the bytes it has left and its `eofbit` and `failbit`. A line is
always shorter than the longest possible string. -/

namespace LinuxNet

abbrev Bytes := List UInt8

/-- `isspace` in the C locale: space, and the bytes from tab to carriage return. -/
def isSpace (b : UInt8) : Bool := b = 32 || (9 ≤ b && b ≤ 13)

def newline : UInt8 := 10

def carriageReturn : UInt8 := 13

structure IStream where
  rest : Bytes
  eof : Bool
  fail : Bool
  deriving DecidableEq, Repr

namespace IStream

/-- A stream over a string. -/
def ofBytes (bytes : Bytes) : IStream := ⟨bytes, false, false⟩

def good (s : IStream) : Bool := !s.eof && !s.fail

/-- `std::getline(is, str)`, with the string it leaves in `str`. A stream that
is not good leaves `str` as it is. -/
def getline (s : IStream) (str : Bytes) : IStream × Bytes :=
  if s.good then
    let line := s.rest.takeWhile (· ≠ newline)
    match s.rest.dropWhile (· ≠ newline) with
    | _ :: rest => ({ s with rest := rest }, line)
    | [] => (⟨[], true, line = []⟩, line)
  else ({ s with fail := true }, str)

/-- `is >> str`, with the string it leaves in `str`. -/
def extract (s : IStream) (str : Bytes) : IStream × Bytes :=
  if s.good then
    let word := s.rest.dropWhile isSpace
    if word = [] then (⟨[], true, true⟩, str)
    else
      let rest := word.dropWhile (!isSpace ·)
      (⟨rest, rest = [], false⟩, word.takeWhile (!isSpace ·))
  else ({ s with fail := true }, str)

/-- `is.read(buf, n)` into a zeroed buffer of `n` bytes, with the buffer it leaves. -/
def read (s : IStream) (n : Nat) : IStream × Bytes :=
  if s.good then
    let short : Bool := s.rest.length < n
    (⟨s.rest.drop n, short, short⟩,
      s.rest.take n ++ List.replicate (n - s.rest.length) 0)
  else ({ s with fail := true }, List.replicate n 0)

/-! ## Reading what was written -/

variable {line word : Bytes} {sep : UInt8}

theorem getline_line (h : newline ∉ line) (rest str : Bytes) :
    (ofBytes (line ++ newline :: rest)).getline str = (ofBytes rest, line) := by
  have hall : ∀ b ∈ line, decide (b ≠ newline) = true := fun b hb =>
    decide_eq_true fun he => h (he ▸ hb)
  have htake : (line ++ newline :: rest).takeWhile (· ≠ newline) = line := by
    rw [List.takeWhile_append_of_pos hall]
    simp
  have hdrop : (line ++ newline :: rest).dropWhile (· ≠ newline) = newline :: rest := by
    rw [List.dropWhile_append_of_pos hall]
    simp
  simp only [getline, good, ofBytes, Bool.not_false, Bool.and_self, if_true, htake, hdrop]

/-- A stream that is not good yields nothing. -/
theorem getline_end {s : IStream} (h : s.good = false) (str : Bytes) :
    s.getline str = ({ s with fail := true }, str) := by
  simp [getline, h]

/-- The last line of a string that does not end with a newline. -/
theorem getline_last (h : newline ∉ line) (str : Bytes) :
    (ofBytes line).getline str = (⟨[], true, line = []⟩, line) := by
  have hall : ∀ b ∈ line, decide (b ≠ newline) = true := fun b hb =>
    decide_eq_true fun he => h (he ▸ hb)
  have htake : line.takeWhile (· ≠ newline) = line := List.takeWhile_eq_self_iff.2 hall
  have hdrop : line.dropWhile (· ≠ newline) = [] := List.dropWhile_eq_nil_iff.2 hall
  simp only [getline, good, ofBytes, Bool.not_false, Bool.and_self, if_true, htake, hdrop]

/-- A word before a space, after no space. -/
theorem extract_word (hne : word ≠ []) (hword : ∀ b ∈ word, isSpace b = false)
    (hsep : isSpace sep = true) (rest str : Bytes) :
    (ofBytes (word ++ sep :: rest)).extract str = (ofBytes (sep :: rest), word) := by
  obtain ⟨b, word, rfl⟩ := List.exists_cons_of_ne_nil hne
  have hall : ∀ c ∈ b :: word, (!isSpace c) = true := fun c hc => by rw [hword c hc]; rfl
  have hskip : (b :: word ++ sep :: rest).dropWhile isSpace = b :: word ++ sep :: rest := by
    rw [List.cons_append, List.dropWhile_cons_of_neg (by simp [hword b])]
  have htake : (b :: word ++ sep :: rest).takeWhile (!isSpace ·) = b :: word := by
    rw [List.takeWhile_append_of_pos hall]
    simp [hsep]
  have hdrop : (b :: word ++ sep :: rest).dropWhile (!isSpace ·) = sep :: rest := by
    rw [List.dropWhile_append_of_pos hall]
    simp [hsep]
  simp only [extract, good, ofBytes, Bool.not_false, Bool.and_self, if_true, hskip, htake, hdrop]
  simp

/-- A word at the end of a string. -/
theorem extract_last (hne : word ≠ []) (hword : ∀ b ∈ word, isSpace b = false) (str : Bytes) :
    (ofBytes word).extract str = (⟨[], true, false⟩, word) := by
  obtain ⟨b, word, rfl⟩ := List.exists_cons_of_ne_nil hne
  have hall : ∀ c ∈ b :: word, (!isSpace c) = true := fun c hc => by rw [hword c hc]; rfl
  have hskip : (b :: word).dropWhile isSpace = b :: word :=
    List.dropWhile_cons_of_neg (by simp [hword b])
  have htake : (b :: word).takeWhile (!isSpace ·) = b :: word := List.takeWhile_eq_self_iff.2 hall
  have hdrop : (b :: word).dropWhile (!isSpace ·) = [] := List.dropWhile_eq_nil_iff.2 hall
  simp only [extract, good, ofBytes, Bool.not_false, Bool.and_self, if_true, hskip, htake, hdrop]
  simp

/-- Where there is no word, the string keeps what it had. -/
theorem extract_none (s : IStream) (h : s.good = false ∨ s.rest.dropWhile isSpace = [])
    (str : Bytes) : (s.extract str).2 = str := by
  unfold extract
  split
  · rename_i hgood
    have hnone := h.resolve_left (by rw [hgood]; exact Bool.noConfusion)
    dsimp only
    rw [if_pos hnone]
  · rfl

/-- The first line, whether or not a newline ends it. -/
theorem getline_first (bytes : Bytes) :
    ((ofBytes bytes).getline []).2 = bytes.takeWhile (· ≠ newline) ∧
      (bytes.takeWhile (· ≠ newline) ≠ [] → ((ofBytes bytes).getline []).1.fail = false) := by
  unfold getline
  simp only [good, ofBytes, Bool.not_false, Bool.and_self, if_true]
  split
  · exact ⟨rfl, fun _ => rfl⟩
  · exact ⟨rfl, fun hne => decide_eq_false hne⟩

/-- Spaces before a word are skipped. -/
theorem extract_space (hsep : isSpace sep = true) (rest str : Bytes) :
    (ofBytes (sep :: rest)).extract str = (ofBytes rest).extract str := by
  have hskip : (sep :: rest).dropWhile isSpace = rest.dropWhile isSpace :=
    List.dropWhile_cons_of_pos hsep
  by_cases hnil : rest.dropWhile isSpace = [] <;> simp [extract, good, ofBytes, hskip, hnil]

end IStream

end LinuxNet
