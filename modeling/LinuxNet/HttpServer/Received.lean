-- SUMMARY: Which receives the connection handler passes on to the parser as they are.
import LinuxNet.Base.Buffer
import LinuxNet.HttpServer.Handler

/-! # From the buffer to the parser

`m_parser.parse(buffer)` makes a string of the buffer, up to the first zero byte
in memory. -/

namespace LinuxNet.HttpServer

variable {bytes beyond : Bytes} {env : Environment}

/-- The string that the parser gets after a receive, where `beyond` is the memory
behind the buffer. -/
def handed (bytes beyond : Bytes) : Bytes := cString (filled messageSize bytes ++ beyond)

/-- The parser gets what has been received, whatever lies behind the buffer, and
nothing behind it is read. -/
structure HandsOver (bytes : Bytes) : Prop where
  same : ∀ beyond, handed bytes beyond = bytes
  inArray : (Access.string (filled messageSize bytes)).InArray messageSize

/-- The handler answers the string in the buffer. -/
theorem handleClient_handed (p : Piece messageSize) : handleClient env p.result =
    respond env (handed p.1 []) >>= fun response =>
      match env.send response with
      | .fail _ => pure (.disconnect, some response)
      | .sent n => pure (if 0 < n then .completed else .disconnect, some response) := by
  obtain ⟨bytes, hne, hle⟩ := p
  rw [handed, List.append_nil]
  exact if_neg hne

/-- A short receive is cut at its first zero byte. -/
theorem handed_short (h : bytes.length < messageSize) (beyond : Bytes) :
    handed bytes beyond = cString bytes := by
  rw [handed, cString_append_of_mem (zero_mem_filled h), cString_filled]

/-- Behind a full buffer the string goes on. -/
theorem handed_full (h : bytes.length = messageSize) (hzero : 0 ∉ bytes) (beyond : Bytes) :
    handed bytes beyond = bytes ++ cString beyond := by
  rw [handed, filled, h, Nat.sub_self, List.replicate_zero, List.append_nil, cString_append hzero]

/-- The parser gets what has been received exactly if that has no zero byte and
leaves room for one. -/
theorem handsOver_iff (p : Piece messageSize) :
    HandsOver p.1 ↔ 0 ∉ p.1 ∧ p.1.length < messageSize := by
  obtain ⟨bytes, hne, hle⟩ := p
  dsimp only
  constructor
  · rintro ⟨hsame, -⟩
    have hzero : 0 ∉ bytes := fun hmem => by
      rw [← hsame []] at hmem
      exact zero_not_mem_cString hmem
    refine ⟨hzero, lt_of_le_of_ne hle fun hfull => ?_⟩
    -- the byte behind the buffer becomes part of the string
    have hlonger := handed_full hfull hzero [1]
    rw [hsame] at hlonger
    exact absurd (List.self_eq_append_right.1 hlonger) (by decide)
  · rintro ⟨hzero, hlt⟩
    refine ⟨fun beyond => ?_, zero_mem_filled hlt⟩
    rw [handed_short hlt, cString_eq_self hzero]

/-- A body of two bytes, the first of which is zero: the parser gets the head only. -/
theorem not_handsOver : ¬ ∀ p : Piece messageSize, HandsOver p.1 := by
  intro hall
  let bytes := bytesOf "POST / HTTP/1.1\r\nContent-Length: 2\r\n\r\n" ++ [0, 97]
  have hsame := (hall ⟨bytes, by decide, by decide⟩).same []
  have hhead : handed bytes [] = bytesOf "POST / HTTP/1.1\r\nContent-Length: 2\r\n\r\n" := by
    rw [handed_short (by decide)]
    decide
  rw [hhead] at hsame
  exact absurd hsame (by decide)

end LinuxNet.HttpServer
