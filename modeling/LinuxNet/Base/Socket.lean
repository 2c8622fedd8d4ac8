-- SUMMARY: Results of recv(2), send(2) and poll(2), C strings in byte buffers, and the ways in which TCP cuts a stream.
import Mathlib.Data.List.Infix

/-! # Sockets and buffers -/

namespace LinuxNet

/-- The `errno` of a failed call. -/
abbrev Errno := { n : Int // 0 < n }

def ebadf : Errno := ⟨9, by decide⟩

def eagain : Errno := ⟨11, by decide⟩

/-- The result of a `recv` that may store at most `cap` bytes. No bytes mean
that the peer has closed the connection. -/
inductive RecvResult (cap : Nat)
  | fail (errno : Errno)
  | data (bytes : List UInt8) (h : bytes.length ≤ cap)

/-- The result of a `send`. -/
inductive SendResult
  | fail (errno : Errno)
  | sent (n : Nat)

/-! ## C strings -/

/-- The bytes of an ASCII literal. -/
def bytesOf (s : String) : List UInt8 := s.toList.map fun c => UInt8.ofNat c.toNat

/-- The string in a buffer: the bytes before the first zero. -/
def cString (buf : List UInt8) : List UInt8 := buf.takeWhile (· ≠ 0)

/-- Whether `strstr(buf, needle)` finds something. -/
def strstr (buf needle : List UInt8) : Bool := decide (needle <:+: cString buf)

/-- A zeroed buffer of `size` bytes after `bytes` have been stored at its start. -/
def filled (size : Nat) (bytes : List UInt8) : List UInt8 :=
  bytes ++ List.replicate (size - bytes.length) 0

/-! ## poll(2) -/

/-- The event bits of a `pollfd`, a C `short`. -/
abbrev Events := BitVec 16

def pollIn : Events := 0x0001
def pollErr : Events := 0x0008
def pollHup : Events := 0x0010

/-- `struct pollfd`. -/
structure PollFd where
  fd : Int
  events : Events
  revents : Events
  deriving DecidableEq, Repr

/-- The test `revents & mask` of a C condition. -/
def Events.has (e mask : Events) : Bool := e &&& mask != 0

@[simp] theorem Events.zero_has (mask : Events) : Events.has 0#16 mask = false := by
  simp [Events.has]

/-- What poll(2) does to one entry: it reports `revents`, and nothing for a
negative descriptor. -/
def PollFd.report (p : PollFd) (revents : Events) : PollFd :=
  { p with revents := if p.fd < 0 then 0 else revents }

@[simp] theorem PollFd.report_fd (p : PollFd) (r : Events) : (p.report r).fd = p.fd := rfl

/-- The entry after `p->revents = 0`. -/
def PollFd.clear (p : PollFd) : PollFd := { p with revents := 0 }

@[simp] theorem PollFd.clear_fd (p : PollFd) : p.clear.fd = p.fd := rfl

@[simp] theorem PollFd.clear_clear (p : PollFd) : p.clear.clear = p.clear := rfl

@[simp] theorem PollFd.clear_revents (p : PollFd) : p.clear.revents = 0#16 := rfl

/-- A condition on what poll reports, once poll has reported. -/
theorem forall_reported_iff {ρ : Type*} {poll : Option ρ} {revents : ρ} {P : ρ → Prop}
    (hpoll : poll = some revents) : (∀ r ∈ poll, P r) ↔ P revents := by
  rw [hpoll]
  constructor
  · exact fun hall => hall revents rfl
  · rintro h _ ⟨rfl⟩
    exact h

/-! ## Segmentation

TCP keeps the order of the bytes and nothing else. -/

/-- What one `recv` of at most `cap` bytes returns while the stream has not ended. -/
abbrev Piece (cap : Nat) := { bytes : List UInt8 // bytes ≠ [] ∧ bytes.length ≤ cap }

def Piece.result {cap : Nat} (p : Piece cap) : RecvResult cap := .data p.1 p.2.2

/-- Whether `recv` of at most `cap` bytes can return `n`, where `stream` has been
sent and not yet received. It returns 0 only once the sender has closed. -/
def Receives (cap : Nat) (stream : List UInt8) (closed : Bool) (n : Nat) : Prop :=
  if stream = [] then closed = true ∧ n = 0 else 0 < n ∧ n ≤ cap ∧ n ≤ stream.length

instance (cap : Nat) (stream : List UInt8) (closed : Bool) (n : Nat) :
    Decidable (Receives cap stream closed n) := by
  unfold Receives
  infer_instance

/-- A way of cutting a stream into successive receives of at most `cap` bytes. -/
structure Segmentation (cap : Nat) (stream : List UInt8) where
  pieces : List (Piece cap)
  flatten : (pieces.map Subtype.val).flatten = stream

namespace Segmentation

variable {cap : Nat} {stream : List UInt8}

/-- The whole stream in one piece. -/
def whole (hne : stream ≠ []) (hle : stream.length ≤ cap) : Segmentation cap stream :=
  ⟨[⟨stream, hne, hle⟩], by simp⟩

/-- The results of the receives. -/
def results (s : Segmentation cap stream) : List (RecvResult cap) := s.pieces.map Piece.result

/-- The first piece, or nothing where the stream is empty. -/
def first (s : Segmentation cap stream) : List UInt8 := (s.pieces.head?.map Subtype.val).getD []

theorem exists_first (s : Segmentation cap stream) (hne : stream ≠ []) :
    ∃ p rest, s.pieces = p :: rest ∧ s.first = p.1 ∧ ∃ tail, stream = p.1 ++ tail := by
  obtain ⟨pieces, hflatten⟩ := s
  cases pieces with
  | nil => exact absurd hflatten.symm hne
  | cons p rest => exact ⟨p, rest, rfl, rfl, _, hflatten.symm⟩

end Segmentation

end LinuxNet
