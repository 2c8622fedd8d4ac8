-- SUMMARY: What a program does with a buffer that it has received into, and when this stays inside the array.
import LinuxNet.Base.CString

/-! # Receive buffers

A buffer is zeroed, `recv` stores bytes at its start, a zero is stored behind
them, and the buffer is then read as a string. -/

namespace LinuxNet

/-- A use of an array of bytes: a store, or the string at its start, when the
array holds the given bytes. -/
inductive Access
  | store (index : Nat)
  | string (array : List UInt8)
  deriving DecidableEq, Repr

/-- The access stays inside an array of `size` bytes. The string does if there is
a zero to end it. -/
def Access.InArray (size : Nat) : Access → Prop
  | .store index => index < size
  | .string array => 0 ∈ array

/-- The buffer after `buffer[received_bytes] = 0`. -/
def terminated (size : Nat) (bytes : List UInt8) : List UInt8 :=
  (filled size bytes).set bytes.length 0

/-- The strings read by `strcmp(array, word) == 0 || ..`, which stops at the
first word that is equal. -/
def comparisons (array : List UInt8) : List (List UInt8) → List Access
  | [] => []
  | word :: words =>
    .string array :: if cString array = word then [] else comparisons array words

namespace RecvResult

variable {size : Nat}

/-- The bytes that have been received, none if the call has failed. -/
def bytes : RecvResult size → List UInt8
  | .fail _ => []
  | .data bytes _ => bytes

/-- The receive leaves room for a zero. -/
def Short (r : RecvResult size) : Prop := r.bytes.length < size

/-- Where a server that has received something stores a zero. -/
def stored (r : RecvResult size) : Option Nat :=
  if r.bytes = [] then none else some r.bytes.length

/-- The strings that a server reads then: it prints the request and compares it
with the given words. -/
def strings (words : List (List UInt8)) (r : RecvResult size) : List Access :=
  if r.bytes = [] then []
  else
    .string (terminated size r.bytes) :: comparisons (terminated size r.bytes) words

end RecvResult

variable {size : Nat} {bytes array : List UInt8} {words : List (List UInt8)}
  {r : RecvResult size}

/-- There is a zero behind the bytes stored as long as these do not fill the buffer. -/
theorem terminated_eq : terminated size bytes = filled size bytes := by
  unfold terminated filled
  cases size - bytes.length with
  | zero => simpa using List.set_eq_of_length_le le_rfl
  | succ n => simp [List.replicate_succ]

theorem zero_mem_filled (h : bytes.length < size) : 0 ∈ filled size bytes := by
  apply List.mem_append_right
  exact List.mem_replicate.2 ⟨by omega, rfl⟩

/-- A string that is shorter than the array ends inside it. -/
theorem zero_mem_of_cString_ne (h : cString array ≠ array) : 0 ∈ array := by
  by_contra hzero
  exact h (cString_eq_self hzero)

theorem comparisons_eq_string {words : List (List UInt8)} {a : Access}
    (h : a ∈ comparisons array words) : a = .string array := by
  induction words with
  | nil => cases h
  | cons word words ih =>
    rcases List.mem_cons.1 h with rfl | h
    · rfl
    · split at h
      · cases h
      · exact ih h

/-- What a server does after a receive. -/
theorem RecvResult.stored_append_strings (words : List (List UInt8)) (r : RecvResult size) :
    r.stored.toList.map .store ++ r.strings words =
      if r.bytes = [] then []
      else .store r.bytes.length :: .string (terminated size r.bytes) ::
        comparisons (terminated size r.bytes) words := by
  unfold RecvResult.stored RecvResult.strings
  split <;> rfl

/-- What is done after a receive stays inside the array exactly if there is room
for the terminator. -/
theorem RecvResult.inArray_iff (hsize : 0 < size) :
    (∀ a ∈ r.stored.toList.map .store ++ r.strings words, a.InArray size) ↔ r.Short := by
  rw [RecvResult.stored_append_strings]
  unfold RecvResult.Short
  by_cases hnil : r.bytes = []
  · simp [hnil, hsize]
  · rw [if_neg hnil]
    constructor
    · exact fun h => h (.store r.bytes.length) List.mem_cons_self
    · intro hlt a ha
      have hstring : (Access.string (terminated size r.bytes)).InArray size := by
        rw [terminated_eq]
        exact zero_mem_filled hlt
      rcases List.mem_cons.1 ha with rfl | ha
      · exact hlt
      · rcases List.mem_cons.1 ha with rfl | ha
        · exact hstring
        · rw [comparisons_eq_string ha]
          exact hstring

/-! ## Logs of calls -/

/-- How the calls that a program makes show what it does with its buffer: what a
call receives, where it stores a zero, and where it should store one and which
strings are read after a receive. -/
structure BufferLog (C : Type) (size : Nat) where
  recv : C → Option (RecvResult size)
  store : C → Option Nat
  stored : RecvResult size → Option Nat
  strings : RecvResult size → List Access

namespace BufferLog

variable {C : Type} {log : BufferLog C size} {calls tail : List C} {call : C}

def received (log : BufferLog C size) (calls : List C) : List (RecvResult size) :=
  calls.filterMap log.recv

def stores (log : BufferLog C size) (calls : List C) : List Nat := calls.filterMap log.store

/-- The accesses to the buffer. -/
def accesses (log : BufferLog C size) (calls : List C) : List Access :=
  (log.stores calls).map .store ++ (log.received calls).flatMap log.strings

/-- The zeros stored are those behind what has been received. -/
def Terminated (log : BufferLog C size) (calls : List C) : Prop :=
  log.stores calls = (log.received calls).filterMap log.stored

theorem terminated_nil : log.Terminated [] := rfl

theorem Terminated.append (h : log.Terminated calls) (htail : log.Terminated tail) :
    log.Terminated (calls ++ tail) := by
  unfold Terminated stores received at *
  rw [List.filterMap_append, List.filterMap_append, List.filterMap_append, h, htail]

/-- A call that has nothing to do with the buffer. -/
theorem Terminated.other (h : log.Terminated calls) (call : C) (hrecv : log.recv call = none)
    (hstore : log.store call = none) : log.Terminated (calls ++ [call]) := by
  apply h.append
  simp [Terminated, stores, received, hrecv, hstore]

/-- A receive after which nothing is stored. -/
theorem Terminated.unstored (h : log.Terminated calls) (hrecv : log.recv call = some r)
    (hstore : log.store call = none) (hr : log.stored r = none) :
    log.Terminated (calls ++ [call]) := by
  apply h.append
  simp [Terminated, stores, received, hrecv, hstore, hr]

/-- A receive, and the store after it. -/
theorem Terminated.stored {index : Nat} (h : log.Terminated calls) (call' : C)
    (hrecv : log.recv call = some r) (hstore : log.store call = none)
    (hrecv' : log.recv call' = none) (hstore' : log.store call' = some index)
    (hr : log.stored r = some index) : log.Terminated (calls ++ [call] ++ [call']) := by
  rw [List.append_assoc]
  apply h.append
  simp [Terminated, stores, received, hrecv, hstore, hrecv', hstore', hr]

/-- What is done after each receive stays inside the array on its own. -/
theorem Terminated.inArray_iff {P : RecvResult size → Prop} (h : log.Terminated calls)
    (hone : ∀ r, (∀ a ∈ (log.stored r).toList.map .store ++ log.strings r, a.InArray size) ↔
      P r) : (∀ a ∈ log.accesses calls, a.InArray size) ↔ ∀ r ∈ log.received calls, P r := by
  simp only [← hone, accesses, (show log.stores calls = _ from h), List.mem_append, List.mem_map,
    List.mem_filterMap, List.mem_flatMap, Option.mem_toList]
  constructor
  · rintro h r hr a (⟨index, hindex, rfl⟩ | ha)
    · exact h _ (.inl ⟨index, ⟨r, hr, hindex⟩, rfl⟩)
    · exact h a (.inr ⟨r, hr, ha⟩)
  · rintro h a (⟨index, ⟨r, hr, hindex⟩, rfl⟩ | ⟨r, hr, ha⟩)
    · exact h r hr _ (.inl ⟨index, hindex, rfl⟩)
    · exact h r hr a (.inr ha)

end BufferLog

end LinuxNet
