-- SUMMARY: What each function of the descriptor buffer does to the list of entries it holds.
import LinuxNet.Base.EraseLast
import LinuxNet.Base.Loop
import LinuxNet.TimerServer.FdBuffer
import Mathlib.Data.List.Induction
import Mathlib.Tactic.Ring

/-! # The descriptor buffer as a list

`b.Holds L` relates a buffer to the list of its entries. Each operation has one
specification: it does not fault on a buffer that holds a list, and it leaves
one that holds the list of the matching list operation. -/

namespace LinuxNet.TimerServer

/-- `b` holds the entries `L`: they fill the first cells of an allocation of
exactly `size` cells, of which at least one is left. -/
structure FdBuffer.Holds (b : FdBuffer) (L : List PollFd) : Prop where
  fds : ∃ junk, b.fds = some (L.map some ++ junk) ∧ L.length + junk.length = b.size
  len : b.len = L.length
  room : L.length < b.size
  size : ∃ k, b.size = 16 * 2 ^ k
  bound : b.size ≤ 2 ^ 28

/-- `remove_fd` on lists: the last entry with `fd` goes, unless it is at index 0. -/
def removeEntry (fd : Int) : List PollFd → List PollFd
  | [] => []
  | p :: L => p :: eraseLast (fun q => q.fd = fd) L

/-- The descriptor `remove_fd` closes. -/
def closedBy (fd : Int) (L : List PollFd) : Option Int :=
  if fd ∈ L.tail.map PollFd.fd then some fd else none

/-! ## Loads and stores -/

/-- Every index of `L` can be read, and holds the entry of `L`. -/
def FdBuffer.Reads (b : FdBuffer) (L : List PollFd) : Prop :=
  ∀ i p, L[i]? = some p → b.load i = .ok p

theorem FdBuffer.load_cell {b : FdBuffer} {cells : List Cell} {i : Nat} {p : PollFd}
    (hb : b.fds = some cells) (hp : cells[i]? = some (some p)) : b.load i = .ok p := by
  simp only [FdBuffer.load, hb, hp]

theorem FdBuffer.store_cell {b : FdBuffer} {cells : List Cell} {i : Nat} (p : PollFd)
    (hb : b.fds = some cells) (hi : i < cells.length) :
    b.store i p = .ok { b with fds := some (cells.set i (some p)) } := by
  simp only [FdBuffer.store, hb, hi, if_true]

theorem FdBuffer.reads_of_fds {b : FdBuffer} {L : List PollFd} {junk : List Cell}
    (hb : b.fds = some (L.map some ++ junk)) : b.Reads L := by
  intro i p hp
  apply FdBuffer.load_cell hb
  obtain ⟨hi, rfl⟩ := List.getElem?_eq_some_iff.1 hp
  rw [List.getElem?_append_left (by simpa using hi)]
  simp [hi]

theorem FdBuffer.Holds.reads {b : FdBuffer} {L : List PollFd} (h : b.Holds L) : b.Reads L := by
  obtain ⟨junk, hfds, _⟩ := h.fds
  exact FdBuffer.reads_of_fds hfds

theorem FdBuffer.Reads.of_append {b : FdBuffer} {L M : List PollFd} (h : b.Reads (L ++ M)) :
    b.Reads L := by
  intro i p hp
  obtain ⟨hi, _⟩ := List.getElem?_eq_some_iff.1 hp
  exact h i p (by rw [List.getElem?_append_left hi, hp])

theorem FdBuffer.Reads.load_middle {b : FdBuffer} {A B : List PollFd} {x : PollFd}
    (h : b.Reads (A ++ x :: B)) : b.load A.length = .ok x :=
  h _ _ (by simp)

/-! ## The search loops -/

theorem FdBuffer.Reads.searchDown_found {b : FdBuffer} {A B : List PollFd} {x : PollFd} {fd : Int}
    (h : b.Reads (A ++ x :: B)) (hx : x.fd = fd) (hB : ∀ y ∈ B, y.fd ≠ fd) :
    b.searchDown fd (A ++ x :: B).length = .ok (A.length : Int) := by
  -- from the right: the entries of `B` are passed one by one
  induction B using List.reverseRecOn with
  | nil =>
    have hload := h.load_middle
    simp only [List.length_append, List.length_singleton, FdBuffer.searchDown, hload]
    simp [hx]
  | append_singleton B y ih =>
    have hy : y.fd ≠ fd := hB y (by simp)
    have hsplit : A ++ x :: (B ++ [y]) = (A ++ x :: B) ++ y :: [] := by simp
    have hlen : (A ++ x :: (B ++ [y])).length = (A ++ x :: B).length + 1 := by
      rw [hsplit, List.length_append, List.length_singleton]
    rw [hsplit] at h
    have hload := h.load_middle
    rw [hlen, FdBuffer.searchDown, hload]
    simp only [Except.bind_ok, if_neg (Ne.symm hy)]
    exact ih h.of_append fun z hz => hB z (by simp [hz])

theorem FdBuffer.Reads.searchDown_absent {b : FdBuffer} {L : List PollFd} {fd : Int}
    (h : b.Reads L) (hL : ∀ y ∈ L, y.fd ≠ fd) : b.searchDown fd L.length = .ok (-1) := by
  induction L using List.reverseRecOn with
  | nil => rfl
  | append_singleton L y ih =>
    have hload := h.load_middle
    rw [List.length_append, List.length_singleton, FdBuffer.searchDown, hload]
    simp only [Except.bind_ok, if_neg (Ne.symm (hL y (by simp)))]
    exact ih h.of_append fun z hz => hL z (by simp [hz])

theorem FdBuffer.Reads.findFrom_eq {b : FdBuffer} {A B : List PollFd} (fd : Int)
    (h : b.Reads (A ++ B)) :
    b.findFrom fd B.length A.length =
      .ok ((B.findIdx? fun p => p.fd = fd).map (· + A.length)) := by
  induction B generalizing A with
  | nil => rfl
  | cons y B ih =>
    have hload := h.load_middle
    rw [List.length_cons, FdBuffer.findFrom, hload]
    simp only [Except.bind_ok]
    by_cases hy : y.fd = fd
    · simp [hy, List.findIdx?_cons]
    · have hA : (A ++ [y]).length = A.length + 1 := by simp
      have hrest := ih (A := A ++ [y]) (by simpa using h)
      rw [hA] at hrest
      rw [if_neg hy, hrest, List.findIdx?_cons]
      simp [hy, Option.map_map, Function.comp_def, Nat.add_assoc, Nat.add_comm 1]

/-! ## The shift of `remove_fd` -/

/-- Shifting the entries after `d` down by one overwrites `d`, and leaves the
last entry twice. -/
theorem FdBuffer.shiftDown_eq {b : FdBuffer} {A B : List PollFd} {d : PollFd} {junk : List Cell}
    (hb : b.fds = some ((A ++ d :: B).map some ++ junk)) :
    ∃ d', b.shiftDown B.length (A.length + 1) =
      .ok { b with fds := some ((A ++ B).map some ++ some d' :: junk) } := by
  induction B generalizing b A d with
  | nil =>
    refine ⟨d, ?_⟩
    have hcells : (A ++ [d]).map some ++ junk = (A ++ []).map some ++ some d :: junk := by simp
    rw [← hcells, ← hb]
    rfl
  | cons y B ih =>
    have hload : b.load (A.length + 1) = .ok y := by
      apply FdBuffer.reads_of_fds hb _ _
      simp
    have hstore : b.store A.length y =
        .ok { b with fds := some ((A ++ y :: y :: B).map some ++ junk) } := by
      rw [FdBuffer.store_cell y hb (by simp)]
      simp
    obtain ⟨d', hd'⟩ := ih (b := { b with fds := some ((A ++ y :: y :: B).map some ++ junk) })
      (A := A ++ [y]) (d := y) (by simp)
    refine ⟨d', ?_⟩
    rw [List.length_cons, FdBuffer.shiftDown, hload]
    simp only [Except.bind_ok, Nat.add_sub_cancel, hstore]
    simpa using hd'

/-! ## Specifications -/

theorem initFdsQueue_holds : (initFdsQueue true .zero).2.Holds [] := by
  refine ⟨⟨List.replicate 16 none, rfl, rfl⟩, rfl, ?_, ⟨0, rfl⟩, ?_⟩
  · simp [initFdsQueue, FdBuffer.zero]
  · simp [initFdsQueue, FdBuffer.zero]

/-- The buffer of a second `init_fds_queue` is the old one. -/
theorem FdBuffer.Holds.initFdsQueue_eq {b : FdBuffer} {L : List PollFd} (h : b.Holds L)
    (mallocOk : Bool) : initFdsQueue mallocOk b = (0, b) := by
  obtain ⟨junk, hfds, _⟩ := h.fds
  simp [initFdsQueue, hfds]

/-- Storing behind the last entry and counting it appends it. -/
theorem FdBuffer.Holds.store_append {b : FdBuffer} {L : List PollFd} (h : b.Holds L)
    (hroom : L.length + 1 < b.size) (p : PollFd) :
    ∃ b', b.store b.len p = .ok b' ∧ { b' with len := b'.len + 1 }.Holds (L ++ [p]) ∧
      b'.size = b.size := by
  obtain ⟨junk, hfds, hjunk⟩ := h.fds
  obtain ⟨c, junk, rfl⟩ : ∃ c junk', junk = c :: junk' := by
    cases junk with
    | nil => simp at hjunk; omega
    | cons c junk' => exact ⟨c, junk', rfl⟩
  refine ⟨{ b with fds := some ((L ++ [p]).map some ++ junk) }, ?_, ?_, rfl⟩
  · rw [FdBuffer.store_cell p hfds (by simp [h.len]), h.len]
    simp
  · refine ⟨⟨junk, rfl, ?_⟩, ?_, ?_, h.size, h.bound⟩
    · simp at hjunk ⊢; omega
    · simp [h.len]
    · simpa using hroom

/-- With a free cell left after the new entry, nothing is allocated. -/
theorem FdBuffer.Holds.insertFd_room {b : FdBuffer} {L : List PollFd} (h : b.Holds L)
    (hroom : L.length + 1 < b.size) (reallocOk : Bool) (p : PollFd) :
    ∃ b', insertFd reallocOk p b = .ok (0, b') ∧ b'.Holds (L ++ [p]) ∧ b'.size = b.size := by
  have hgrow : b.grow reallocOk = .ok (some b) := by
    rw [FdBuffer.grow, if_neg (by rw [h.len]; omega)]
    rfl
  obtain ⟨b', hstore, h', hsize⟩ := h.store_append hroom p
  refine ⟨{ b' with len := b'.len + 1 }, ?_, h', hsize⟩
  simp only [insertFd, hgrow, Except.bind_ok, hstore, Except.pure_eq]

/-- The capacity is even, so one cell more than needed is free next to an even
number of entries. -/
theorem FdBuffer.Holds.room_even {b : FdBuffer} {L : List PollFd} (h : b.Holds L)
    (heven : L.length % 2 = 0) : L.length + 1 < b.size := by
  obtain ⟨k, hk⟩ := h.size
  have hlt := h.room
  omega

/-- The doubled buffer holds the same entries, and has room for one more. -/
theorem FdBuffer.Holds.grow_full {b : FdBuffer} {L : List PollFd} (h : b.Holds L)
    (hfull : L.length + 1 = b.size) (hL : L.length < 2 ^ 27) :
    ∃ b', b.grow true = .ok (some b') ∧ b'.Holds L ∧ L.length + 1 < b'.size := by
  obtain ⟨junk, hfds, hjunk⟩ := h.fds
  obtain ⟨k, hk⟩ := h.size
  have hcheck : checkInt (b.size * 2) = .ok (b.size * 2) := by
    rw [checkInt, if_pos (by omega)]
  have hcells : realloc (L.map some ++ junk) (b.size * 2 * sizeofPollfd) =
      L.map some ++ (junk ++ List.replicate b.size none) := by
    have hdiv : b.size * 2 * sizeofPollfd / sizeofPollfd = b.size * 2 := by
      simp [sizeofPollfd]
    rw [realloc, hdiv, List.take_of_length_le (by simp; omega)]
    have hmore : b.size * 2 - (L.map some ++ junk).length = b.size := by simp; omega
    rw [hmore, List.append_assoc]
  let b' : FdBuffer :=
    ⟨b.size * 2, b.len, some (L.map some ++ (junk ++ List.replicate b.size none))⟩
  refine ⟨b', ?_, ?_, ?_⟩
  · rw [FdBuffer.grow, if_pos (by rw [h.len]; exact hfull)]
    simp only [hcheck, Except.bind_ok, if_true, hfds, Option.getD_some, hcells, Except.pure_eq, b']
  · refine ⟨⟨_, rfl, ?_⟩, h.len, ?_, ⟨k + 1, ?_⟩, ?_⟩
    · simp [b']; omega
    · simp [b']; omega
    · simp only [b', hk]; ring
    · simp only [b']; omega
  · simp only [b']; omega

/-- `insert_fd` appends, or returns ENOMEM after a failed realloc and changes
nothing. -/
theorem FdBuffer.Holds.insertFd_spec {b : FdBuffer} {L : List PollFd} (h : b.Holds L)
    (hL : L.length < 2 ^ 27) (reallocOk : Bool) (p : PollFd) :
    ∃ r b', insertFd reallocOk p b = .ok (r, b') ∧
      (r = 0 ∧ b'.Holds (L ++ [p]) ∨ r = enomem ∧ b' = b ∧ reallocOk = false) := by
  by_cases hfull : L.length + 1 = b.size
  · cases reallocOk with
    | false =>
      have hcheck : checkInt (b.size * 2) = .ok (b.size * 2) := by
        rw [checkInt, if_pos (by omega)]
      refine ⟨enomem, b, ?_, .inr ⟨rfl, rfl, rfl⟩⟩
      rw [insertFd, FdBuffer.grow, if_pos (by rw [h.len]; exact hfull)]
      simp [hcheck]
    | true =>
      obtain ⟨b₁, hgrow, h₁, hroom⟩ := h.grow_full hfull hL
      obtain ⟨b₂, hstore, h₂, _⟩ := h₁.store_append hroom p
      refine ⟨0, { b₂ with len := b₂.len + 1 }, ?_, .inl ⟨rfl, h₂⟩⟩
      simp only [insertFd, hgrow, Except.bind_ok, hstore, Except.pure_eq]
  · obtain ⟨b', hins, h', _⟩ := h.insertFd_room (by have := h.room; omega) reallocOk p
    exact ⟨0, b', hins, .inl ⟨rfl, h'⟩⟩

/-- The shrinking of `remove_fd` never happens: `len` entries are fewer than
`size`, and the test compares them with half the size in bytes. -/
theorem FdBuffer.shrink_eq {b : FdBuffer} (hlen : b.len < b.size) (hsize : b.size ≤ 2 ^ 28)
    (reallocOk : Bool) : b.shrink reallocOk = b := by
  have hmod : b.size * sizeofPollfd % 2 ^ 32 = b.size * 8 := by
    rw [sizeofPollfd]; omega
  rw [FdBuffer.shrink]
  simp only [hmod]
  rw [if_neg (by omega)]

/-- An entry behind the first one, the last one with its descriptor, is erased. -/
theorem FdBuffer.Holds.removeFd_found {b : FdBuffer} {p x : PollFd} {A B : List PollFd}
    (h : b.Holds (p :: A ++ x :: B)) (hB : ∀ y ∈ B, y.fd ≠ x.fd) (reallocOk : Bool) :
    ∃ b', removeFd reallocOk x.fd b = .ok (some x.fd, b') ∧ b'.Holds (p :: A ++ B) ∧
      b'.size = b.size := by
  obtain ⟨junk, hfds, hjunk⟩ := h.fds
  obtain ⟨d', hshift⟩ := FdBuffer.shiftDown_eq hfds
  have hlen : (p :: A ++ x :: B).length - ((p :: A).length + 1) = B.length := by
    simp; omega
  have hroom := h.room
  simp only [List.length_append, List.length_cons] at hroom hjunk
  let b' : FdBuffer :=
    { b with fds := some ((p :: A ++ B).map some ++ some d' :: junk), len := b.len - 1 }
  refine ⟨b', ?_, ?_, rfl⟩
  · have hpos : ¬ ((p :: A).length : Int) ≤ 0 := by simp
    have hlt : b'.len < b'.size := by
      simp only [b', h.len, List.length_append, List.length_cons]; omega
    have hshrink : b'.shrink reallocOk = b' := FdBuffer.shrink_eq hlt h.bound reallocOk
    rw [removeFd, h.len, h.reads.searchDown_found rfl hB]
    simp only [Except.bind_ok, if_neg hpos, Int.toNat_natCast, hlen, hshift, Except.pure_eq]
    rw [← hshrink]
  · refine ⟨⟨some d' :: junk, rfl, ?_⟩, ?_, ?_, h.size, h.bound⟩
    · simp [b']; omega
    · simp [b', h.len]; omega
    · simp [b']; omega

/-- Where no entry behind the first one has the descriptor, nothing is done. -/
theorem FdBuffer.Holds.removeFd_first {b : FdBuffer} {p : PollFd} {L : List PollFd} {fd : Int}
    (h : b.Holds (p :: L)) (hL : ∀ y ∈ L, y.fd ≠ fd) (reallocOk : Bool) :
    removeFd reallocOk fd b = .ok (none, b) := by
  rw [removeFd, h.len]
  by_cases hp : p.fd = fd
  · have hsearch := FdBuffer.Reads.searchDown_found (A := []) h.reads hp hL
    rw [List.nil_append] at hsearch
    rw [hsearch]
    rfl
  · have habsent : ∀ y ∈ p :: L, y.fd ≠ fd := List.forall_mem_cons.2 ⟨hp, hL⟩
    rw [h.reads.searchDown_absent habsent]
    rfl

/-- `remove_fd` erases the last entry with `fd` and closes `fd`, or does
nothing when that entry is missing or is the first one. -/
theorem FdBuffer.Holds.removeFd_spec {b : FdBuffer} {L : List PollFd} (h : b.Holds L)
    (reallocOk : Bool) (fd : Int) :
    ∃ b', removeFd reallocOk fd b = .ok (closedBy fd L, b') ∧ b'.Holds (removeEntry fd L) ∧
      b'.size = b.size := by
  cases L with
  | nil =>
    refine ⟨b, ?_, h, rfl⟩
    rw [removeFd, h.len]
    rfl
  | cons p L =>
    by_cases hfound : ∃ x ∈ L, decide (x.fd = fd)
    · obtain ⟨A, x, B, rfl, hx, hB⟩ := exists_last_split (p := fun q : PollFd => q.fd = fd) hfound
      obtain rfl : x.fd = fd := by simpa using hx
      have herase : removeEntry x.fd (p :: (A ++ x :: B)) = p :: A ++ B := by
        rw [removeEntry, eraseLast_split (p := fun q : PollFd => q.fd = x.fd) hx hB]
        rfl
      have hclosed : closedBy x.fd (p :: (A ++ x :: B)) = some x.fd := by
        rw [closedBy, if_pos]
        simp
      rw [herase, hclosed]
      exact h.removeFd_found (by simpa using hB) reallocOk
    · have hno : ∀ y ∈ L, y.fd ≠ fd := fun y hy hyfd => hfound ⟨y, hy, by simpa using hyfd⟩
      have herase : removeEntry fd (p :: L) = p :: L := by
        rw [removeEntry, eraseLast_of_forall_not (by simpa using hno)]
      have hclosed : closedBy fd (p :: L) = none := by
        apply if_neg
        intro hfd
        obtain ⟨y, hy, hyfd⟩ := List.mem_map.1 hfd
        exact hno y hy hyfd
      rw [herase, hclosed]
      exact ⟨b, h.removeFd_first hno reallocOk, h, rfl⟩

/-- `find_fd` returns the first entry with `fd`. -/
theorem FdBuffer.Holds.findFd_eq {b : FdBuffer} {L : List PollFd} (h : b.Holds L) (fd : Int) :
    findFd fd b = .ok (L.findIdx? fun p => p.fd = fd) := by
  have hreads : b.Reads ([] ++ L) := h.reads
  have hfrom := hreads.findFrom_eq fd
  rw [findFd, h.len]
  simpa using hfrom

end LinuxNet.TimerServer
