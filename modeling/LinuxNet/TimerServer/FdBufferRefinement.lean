-- SUMMARY: Every sequence of calls on the descriptor buffer behaves as calls on a list.
import LinuxNet.Base.Transition
import LinuxNet.TimerServer.FdBufferSpec

/-! # Refinement of a list

The abstract machine is a list of entries. `ListStep` says what each call may
answer and what list it leaves; `CallStep` is the same call on the buffer. -/

namespace LinuxNet.TimerServer

/-- A call of server_fd.h, with the success of its malloc or realloc. -/
inductive Call
  | init (mallocOk : Bool)
  | insert (fd : PollFd) (reallocOk : Bool)
  | remove (fd : Int) (reallocOk : Bool)
  | find (fd : Int)
  deriving DecidableEq, Repr

/-- What a call hands back: an error code, the descriptor it closed, or the
index of the entry it points to. -/
inductive Reply
  | code (r : Int)
  | closed (fd : Option Int)
  | entry (i : Option Nat)
  deriving DecidableEq, Repr

def exec (b : FdBuffer) : Call → Except Fault (Reply × FdBuffer)
  | .init mallocOk =>
    let (r, b') := initFdsQueue mallocOk b
    pure (.code r, b')
  | .insert fd reallocOk => do
    let (r, b') ← insertFd reallocOk fd b
    pure (.code r, b')
  | .remove fd reallocOk => do
    let (closed, b') ← removeFd reallocOk fd b
    pure (.closed closed, b')
  | .find fd => do
    let i ← findFd fd b
    pure (.entry i, b)

/-- A call on a buffer with fewer than 2^27 entries. -/
def CallStep (b : FdBuffer) (l : Call × Reply) (b' : FdBuffer) : Prop :=
  b.len < 2 ^ 27 ∧ exec b l.1 = .ok (l.2, b')

/-- The calls on a list of entries. -/
inductive ListStep : List PollFd → Call × Reply → List PollFd → Prop
  | init {L mallocOk} : ListStep L (.init mallocOk, .code 0) L
  | insert {L p reallocOk} : ListStep L (.insert p reallocOk, .code 0) (L ++ [p])
  | insertFail {L p} : ListStep L (.insert p false, .code enomem) L
  | remove {L fd reallocOk} :
      ListStep L (.remove fd reallocOk, .closed (closedBy fd L)) (removeEntry fd L)
  | find {L fd} : ListStep L (.find fd, .entry (L.findIdx? fun p => p.fd = fd)) L

/-- The entries of the first `len` cells. -/
def FdBuffer.contents (b : FdBuffer) : List PollFd :=
  ((b.fds.getD []).take b.len).filterMap id

theorem FdBuffer.Holds.contents_eq {b : FdBuffer} {L : List PollFd} (h : b.Holds L) :
    b.contents = L := by
  obtain ⟨junk, hfds, _⟩ := h.fds
  rw [FdBuffer.contents, hfds, h.len, Option.getD_some, List.take_append_of_le_length (by simp),
    List.take_of_length_le (by simp), List.filterMap_map]
  simp

/-- No call faults on a buffer that holds a list, and its answer and the list
it leaves are those of a list call. -/
theorem FdBuffer.Holds.exec_spec {b : FdBuffer} {L : List PollFd} (h : b.Holds L)
    (hL : L.length < 2 ^ 27) (c : Call) :
    ∃ r b' L', exec b c = .ok (r, b') ∧ ListStep L (c, r) L' ∧ b'.Holds L' := by
  cases c with
  | init mallocOk =>
    exact ⟨_, b, L, by simp [exec, h.initFdsQueue_eq], .init, h⟩
  | insert p reallocOk =>
    obtain ⟨r, b', hok, hcase⟩ := h.insertFd_spec hL reallocOk p
    have hexec : exec b (.insert p reallocOk) = .ok (.code r, b') := by
      simp [exec, hok]
    rcases hcase with ⟨rfl, h'⟩ | ⟨rfl, rfl, rfl⟩
    · exact ⟨_, _, _, hexec, .insert, h'⟩
    · exact ⟨_, _, _, hexec, .insertFail, h⟩
  | remove fd reallocOk =>
    obtain ⟨b', hok, h', _⟩ := h.removeFd_spec reallocOk fd
    refine ⟨_, b', _, ?_, .remove, h'⟩
    simp [exec, hok]
  | find fd =>
    refine ⟨_, b, L, ?_, .find, h⟩
    simp [exec, h.findFd_eq]

/-- Every call on the buffer is the list call with the same answer. -/
theorem CallStep.simulates {b b' : FdBuffer} {l : Call × Reply} {L : List PollFd}
    (h : b.Holds L) (hstep : CallStep b l b') : ∃ L', ListStep L l L' ∧ b'.Holds L' := by
  obtain ⟨hlen, hexec⟩ := hstep
  obtain ⟨r, b₁, L', hok, hlist, h'⟩ := h.exec_spec (by rw [← h.len]; exact hlen) l.1
  rw [hexec] at hok
  obtain ⟨hr, rfl⟩ := Prod.mk.inj (Except.ok.inj hok)
  exact ⟨L', by rwa [← hr] at hlist, h'⟩

/-- After a successful `init_fds_queue`, calls on the buffer answer as calls on
a list do and leave the list's entries. At every point the allocation has
exactly `size` cells, one of them free, and no further call faults: it stays
inside the allocation and reads no cell that was not written. -/
theorem fdBuffer_refines_list {b : FdBuffer} {calls : List (Call × Reply)}
    (h : Run CallStep (initFdsQueue true .zero).2 calls b) :
    ∃ L, Run ListStep [] calls L ∧ b.contents = L ∧ b.len = L.length ∧
      (b.fds.map List.length = some b.size) ∧ 1 ≤ b.size - b.len ∧
      (b.len < 2 ^ 27 → ∀ c, ∃ r b', exec b c = .ok (r, b')) := by
  have hsim : ∀ (b : FdBuffer) (c : Call × Reply) (b' : FdBuffer) (L : List PollFd),
      b.Holds L → CallStep b c b' → ∃ L', ListStep L c L' ∧ b'.Holds L' :=
    fun _ _ _ _ hR hstep => CallStep.simulates hR hstep
  obtain ⟨L, hrun, hL⟩ := Run.simulation hsim h initFdsQueue_holds
  refine ⟨L, hrun, hL.contents_eq, hL.len, ?_, ?_, fun hlen c => ?_⟩
  · obtain ⟨junk, hfds, hjunk⟩ := hL.fds
    simp [hfds, hjunk]
  · have := hL.room
    have := hL.len
    omega
  · obtain ⟨r, b', _, hok, _⟩ := hL.exec_spec (by rw [← hL.len]; exact hlen) c
    exact ⟨r, b', hok⟩

/-- A run that inserts two entries and removes the first and the second again. -/
theorem fdBuffer_refines_list_insert_remove :
    ∃ b L, Run ListStep []
      [(.insert ⟨4, pollIn, 0⟩ true, .code 0), (.insert ⟨5, pollIn, 0⟩ true, .code 0),
        (.remove 5 true, .closed (some 5)), (.remove 4 true, .closed none)] L ∧
      FdBuffer.contents b = L ∧ L = [⟨4, pollIn, 0⟩] := by
  obtain ⟨b, hrun, hb⟩ : ∃ b, Run CallStep (initFdsQueue true .zero).2
      [(.insert ⟨4, pollIn, 0⟩ true, .code 0), (.insert ⟨5, pollIn, 0⟩ true, .code 0),
        (.remove 5 true, .closed (some 5)), (.remove 4 true, .closed none)] b ∧
      b.contents = [⟨4, pollIn, 0⟩] :=
    ⟨_, .cons ⟨by decide, rfl⟩ (.cons ⟨by decide, rfl⟩ (.cons ⟨by decide, rfl⟩
      (.single ⟨by decide, rfl⟩))), rfl⟩
  obtain ⟨L, hlist, hcontents, _⟩ := fdBuffer_refines_list hrun
  exact ⟨b, L, hlist, hcontents, by rw [← hcontents, hb]⟩

end LinuxNet.TimerServer
