-- SUMMARY: A TLS session over a non-blocking socket, as a buffer of records: what a read returns and what it keeps.
import LinuxNet.Base.Socket
import Mathlib.Algebra.GroupWithZero.Nat

/-! # TLS records

The peer writes records, and the network delivers their bytes in pieces. A read
takes one whole record from the socket and keeps what its buffer has no room for.
It keeps a part of a record as well, to go on when the rest arrives. -/

namespace LinuxNet.Tls

/-- A record, and the bytes that it takes on the wire. -/
structure Record where
  payload : List UInt8
  wire : Nat
  bound : payload.length ≤ 16384
  header : payload.length < wire

/-- One side of a connection, with what the other side has written to it. -/
structure Conn where
  /-- What has been written and not decrypted, first to last. -/
  records : List Record
  /-- The bytes of these that the session has taken from the socket. -/
  taken : Nat
  /-- The bytes of these that are in the socket. -/
  socket : Nat
  /-- What has been decrypted and not been read. -/
  pending : List UInt8
  /-- The end of the stream has arrived. -/
  closed : Bool
  /-- The connection has been reset. -/
  failed : Bool

/-- The first payload that is not empty among the whole records in `n` bytes, then
the records and the bytes behind it. Without one, the bytes are those of a part of
the first record left. -/
def decrypt : List Record → Nat → List UInt8 × List Record × Nat
  | [], n => ([], [], n)
  | r :: rest, n =>
    if r.wire ≤ n then
      if r.payload = [] then decrypt rest (n - r.wire) else (r.payload, rest, n - r.wire)
    else ([], r :: rest, n)

namespace Conn

def new : Conn := ⟨[], 0, 0, [], false, false⟩

/-! ## The peer and the network -/

/-- The bytes that have not arrived. -/
def inFlight (c : Conn) : Nat := (c.records.map Record.wire).sum - c.taken - c.socket

def write (r : Record) (c : Conn) : Conn := { c with records := c.records ++ [r] }

def arrive (n : Nat) (c : Conn) : Conn := { c with socket := c.socket + n }

def close (c : Conn) : Conn := { c with closed := true }

def reset (c : Conn) : Conn := { c with failed := true }

/-! ## The session -/

/-- Whether poll reports the socket. It does not see what the session keeps. -/
def Readable (c : Conn) : Prop := 0 < c.socket ∨ c.closed = true ∨ c.failed = true

instance (c : Conn) : Decidable c.Readable := by unfold Readable; infer_instance

/-- The connection has not ended. -/
def Alive (c : Conn) : Prop := c.closed = false ∧ c.failed = false

instance (c : Conn) : Decidable c.Alive := by unfold Alive; infer_instance

/-- What a read finds decrypted, or can decrypt. -/
def incoming (c : Conn) : List UInt8 :=
  if c.pending ≠ [] then c.pending
  else if c.failed then []
  else (decrypt c.records (c.taken + c.socket)).1

/-- The result of a read of at most `cap` bytes. -/
def read (cap : Nat) (c : Conn) : RecvResult cap :=
  if c.incoming ≠ [] then .data (c.incoming.take cap) (List.length_take_le _ _)
  else if c.closed ∧ ¬ c.failed then .data [] (Nat.zero_le _)
  else .fail eagain

/-- The connection after a read of at most `cap` bytes. -/
def afterRead (cap : Nat) (c : Conn) : Conn :=
  if c.pending ≠ [] then { c with pending := c.pending.drop cap }
  else if c.failed then c
  else
    let (payload, records, n) := decrypt c.records (c.taken + c.socket)
    if payload ≠ [] then
      { c with records := records, taken := 0, socket := n, pending := payload.drop cap }
    else { c with records := records, taken := n, socket := 0 }

variable {c : Conn} {cap : Nat}

theorem read_of_incoming (h : c.incoming ≠ []) :
    c.read cap = .data (c.incoming.take cap) (List.length_take_le _ _) := if_pos h

theorem afterRead_pending : (c.afterRead cap).pending = c.incoming.drop cap := by
  unfold afterRead incoming
  split
  · rfl
  · rename_i hpending
    have hnone : c.pending = [] := not_not.1 hpending
    split
    · rw [hnone, List.drop_nil]
    · dsimp only
      split
      · rfl
      · rename_i hpayload
        rw [not_not.1 hpayload, List.drop_nil]
        exact hnone

end Conn

end LinuxNet.Tls
