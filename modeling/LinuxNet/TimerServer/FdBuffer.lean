-- SUMMARY: The growing descriptor array of the timer server (server_fd.h), with its allocation and its undefined behaviour.
import LinuxNet.Base.Socket
import Mathlib.Algebra.Group.Int.Defs
import Mathlib.Algebra.Group.Nat.Defs

/-! # The descriptor buffer

`fds_buf` is an array of `pollfd` entries that grows by doubling. The model
keeps the allocation itself: a block of cells which malloc leaves
uninitialised, so that an access outside the block, or a read of a cell that
was never written, is a fault and not a value. The C fields `size` and `len`
are never negative; `int` arithmetic that leaves 32 bits is a fault too. -/

namespace LinuxNet.TimerServer

/-- Undefined behaviour of the C code. -/
inductive Fault
  | outOfBounds
  | uninitialised
  | nullPointer
  | overflow
  deriving DecidableEq, Repr

/-- A cell of an allocation, `none` until it is first written. -/
abbrev Cell := Option PollFd

/-- `struct FdBuffer`; `fds` is `none` for the null pointer. -/
structure FdBuffer where
  size : Nat
  len : Nat
  fds : Option (List Cell)
  deriving DecidableEq, Repr

/-- `struct FdBuffer fds_buf = {0};` -/
def FdBuffer.zero : FdBuffer := ⟨0, 0, none⟩

/-- `sizeof(struct pollfd)`: an `int` and two `short`s. -/
def sizeofPollfd : Nat := 8

def enomem : Int := 12

/-! ## Memory -/

/-- A block of `bytes` bytes from malloc. -/
def malloc (bytes : Nat) : List Cell := List.replicate (bytes / sizeofPollfd) none

/-- The block after a successful realloc to `bytes` bytes. -/
def realloc (cells : List Cell) (bytes : Nat) : List Cell :=
  cells.take (bytes / sizeofPollfd) ++
    List.replicate (bytes / sizeofPollfd - cells.length) none

/-- The result of an `int` computation that must not overflow. -/
def checkInt (n : Nat) : Except Fault Nat :=
  if n < 2 ^ 31 then .ok n else .error .overflow

/-- Read `fds_buf.fds[i]`. -/
def FdBuffer.load (b : FdBuffer) (i : Nat) : Except Fault PollFd :=
  match b.fds with
  | none => .error .nullPointer
  | some cells =>
    match cells[i]? with
    | none => .error .outOfBounds
    | some none => .error .uninitialised
    | some (some p) => .ok p

/-- Write `fds_buf.fds[i]`. -/
def FdBuffer.store (b : FdBuffer) (i : Nat) (p : PollFd) : Except Fault FdBuffer :=
  match b.fds with
  | none => .error .nullPointer
  | some cells =>
    if i < cells.length then .ok { b with fds := some (cells.set i (some p)) }
    else .error .outOfBounds

/-! ## The functions of server_fd.h

A `Bool` argument says whether the malloc or realloc of the call succeeds. -/

def initFdsQueue (mallocOk : Bool) (b : FdBuffer) : Int × FdBuffer :=
  if b.fds.isSome then (0, b)
  else if mallocOk then (0, ⟨16, 0, some (malloc (sizeofPollfd * 16))⟩)
  else (enomem, ⟨16, 0, none⟩)

/-- The doubling of `insert_fd`; `none` when the realloc fails. -/
def FdBuffer.grow (reallocOk : Bool) (b : FdBuffer) : Except Fault (Option FdBuffer) :=
  if b.len + 1 = b.size then do
    let doubled ← checkInt (b.size * 2)
    if reallocOk then
      pure (some { b with
        size := doubled, fds := some (realloc (b.fds.getD []) (doubled * sizeofPollfd)) })
    else pure none
  else pure (some b)

def insertFd (reallocOk : Bool) (fd : PollFd) (b : FdBuffer) : Except Fault (Int × FdBuffer) := do
  match ← b.grow reallocOk with
  | none => pure (enomem, b)
  | some grown =>
    let stored ← grown.store grown.len fd
    pure (0, { stored with len := stored.len + 1 })

/-- `while (i-- > 0) { if (fd == fds[i].fd) break; }`, the value left in `i`. -/
def FdBuffer.searchDown (b : FdBuffer) (fd : Int) : Nat → Except Fault Int
  | 0 => pure (-1)
  | i + 1 => do
    let p ← b.load i
    if fd = p.fd then pure (i : Int) else b.searchDown fd i

/-- `for (; i < len; i++) fds[i - 1] = fds[i];` with `len - i` rounds to go. -/
def FdBuffer.shiftDown (b : FdBuffer) : Nat → Nat → Except Fault FdBuffer
  | 0, _ => pure b
  | n + 1, i => do
    let p ← b.load i
    let b' ← b.store (i - 1) p
    b'.shiftDown n (i + 1)

/-- The last part of `remove_fd`. `new_size` is a `uint32_t` number of bytes,
and it is compared with `len`, a number of entries. -/
def FdBuffer.shrink (reallocOk : Bool) (b : FdBuffer) : FdBuffer :=
  let newSize := b.size * sizeofPollfd % 2 ^ 32
  if b.len > newSize / 2 ∧ newSize % 2 = 0 then
    if reallocOk then
      { b with size := newSize / 2, fds := b.fds.map (realloc · (newSize / 2)) }
    else b
  else b

/-- `remove_fd`, with the descriptor it closes. -/
def removeFd (reallocOk : Bool) (fd : Int) (b : FdBuffer) :
    Except Fault (Option Int × FdBuffer) := do
  let i ← b.searchDown fd b.len
  -- index 0 is the listening socket, and -1 means that no entry has `fd`
  if i ≤ 0 then pure (none, b)
  else
    let from_ := i.toNat + 1
    let shifted ← b.shiftDown (b.len - from_) from_
    pure (some fd, { shifted with len := shifted.len - 1 }.shrink reallocOk)

/-- The loop of `find_fd` from index `i`, with `len - i` rounds to go. -/
def FdBuffer.findFrom (b : FdBuffer) (fd : Int) : Nat → Nat → Except Fault (Option Nat)
  | 0, _ => pure none
  | n + 1, i => do
    let p ← b.load i
    if p.fd = fd then pure (some i) else b.findFrom fd n (i + 1)

/-- `find_fd`: the index of the entry it returns a pointer to. -/
def findFd (fd : Int) (b : FdBuffer) : Except Fault (Option Nat) :=
  b.findFrom fd b.len 0

/-- What poll(2) does to the first `len` entries of a block. -/
def reportCells (revents : Nat → Events) (len : Nat) (cells : List Cell) : List Cell :=
  cells.mapIdx fun i c => if i < len then c.map (·.report (revents i)) else c

/-- A `mypoll` in which poll(2) returns the events `revents`. -/
def FdBuffer.poll (revents : Nat → Events) (b : FdBuffer) : FdBuffer :=
  { b with fds := b.fds.map (reportCells revents b.len) }

end LinuxNet.TimerServer
