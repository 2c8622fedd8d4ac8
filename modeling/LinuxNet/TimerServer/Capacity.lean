-- SUMMARY: How much memory the descriptor buffer keeps after its entries have been removed.
import LinuxNet.TimerServer.FdBufferRefinement

/-! # The capacity of the descriptor buffer

`remove_fd` means to halve the array, but its test never holds, so the capacity
is decided by the most entries there have ever been. -/

namespace LinuxNet.TimerServer

/-- The buffer, and the most entries it has held. -/
structure Usage where
  buffer : FdBuffer
  peak : Nat
  deriving DecidableEq, Repr

/-- After a successful `init_fds_queue`. -/
def Usage.start : Usage := ⟨(initFdsQueue true .zero).2, 0⟩

/-- A call on a buffer with fewer than 2^27 entries, and its reply. -/
def Usage.next (s : Usage) (l : Call × Reply) : Option Usage :=
  if s.buffer.len < 2 ^ 27 then
    match exec s.buffer l.1 with
    | .ok (r, b) => if r = l.2 then some ⟨b, max s.peak b.len⟩ else none
    | .error _ => none
  else none

/-- The reply of a `remove_fd` that erased an entry. -/
def Reply.erased : Reply → Bool
  | .closed (some _) => true
  | _ => false

/-- The memory held is proportional to the entries. -/
def Proportional (b : FdBuffer) : Prop := b.size ≤ max 16 (4 * (b.len + 1))

/-- One of the capacities 16, 32, 64, .. has room for the most entries there have
been, next to a free cell, and is at most four times the entries there are. -/
def Usage.PeakFits (s : Usage) : Prop :=
  ∃ k, s.peak < 16 * 2 ^ k ∧ 16 * 2 ^ k ≤ max 16 (4 * s.buffer.len)

instance (b : FdBuffer) : Decidable (Proportional b) := inferInstanceAs (Decidable (_ ≤ _))

/-- The capacity is the least that has room for the most entries there have been. -/
structure Usage.Sized (s : Usage) : Prop where
  holds : ∃ L, s.buffer.Holds L
  len : s.buffer.len ≤ s.peak
  room : s.peak < s.buffer.size
  least : s.buffer.size = 16 ∨ s.buffer.size ≤ 2 * s.peak

variable {s t : Usage} {l : Call × Reply} {b b' : FdBuffer}

theorem Usage.next_iff :
    s.next l = some t ↔ CallStep s.buffer l t.buffer ∧ t.peak = max s.peak t.buffer.len := by
  obtain ⟨buffer, peak⟩ := t
  unfold Usage.next CallStep
  split
  · split
    · rename_i r b hok
      simp only [hok, Except.ok.injEq, Prod.mk.injEq, Option.ite_none_right_eq_some,
        Option.some.injEq, Usage.mk.injEq]
      constructor
      · rintro ⟨rfl, rfl, rfl⟩
        exact ⟨⟨‹_›, rfl, rfl⟩, rfl⟩
      · rintro ⟨⟨-, rfl, rfl⟩, rfl⟩
        exact ⟨rfl, rfl, rfl⟩
    · rename_i hok
      simp [hok]
  · rename_i hlen
    simp only [reduceCtorEq, false_iff]
    exact fun h => hlen h.1.1

/-! ## The capacity after a call -/

theorem FdBuffer.store_size {i : Nat} {p : PollFd} (h : b.store i p = .ok b') :
    b'.size = b.size ∧ b'.len = b.len := by
  unfold FdBuffer.store at h
  split at h
  · cases h
  · split at h
    · cases h
      exact ⟨rfl, rfl⟩
    · cases h

theorem FdBuffer.grow_size {reallocOk : Bool} (h : b.grow reallocOk = .ok (some b')) :
    b'.len = b.len ∧ (b'.size = b.size ∨ b.len + 1 = b.size ∧ b'.size = 2 * b.size) := by
  unfold FdBuffer.grow at h
  split at h
  · rename_i hfull
    obtain ⟨doubled, hcheck, h⟩ := Except.bind_eq_ok.1 h
    have hdoubled : doubled = 2 * b.size := by
      unfold checkInt at hcheck
      split at hcheck
      · cases hcheck
        omega
      · cases hcheck
    split at h
    · cases h
      exact ⟨rfl, .inr ⟨hfull, hdoubled⟩⟩
    · cases h
  · cases h
    exact ⟨rfl, .inl rfl⟩

/-- An insertion doubles the capacity only if it takes the last cell but one. -/
theorem insertFd_size {reallocOk : Bool} {p : PollFd} {r : Int}
    (h : insertFd reallocOk p b = .ok (r, b')) :
    b'.size = b.size ∨ b'.len = b.size ∧ b'.size = 2 * b.size := by
  obtain ⟨grown, hgrow, h⟩ := Except.bind_eq_ok.1 h
  cases grown with
  | none => exact .inl (by cases h; rfl)
  | some grown =>
    obtain ⟨stored, hstore, h⟩ := Except.bind_eq_ok.1 h
    cases h
    obtain ⟨hsize, hlen⟩ := FdBuffer.store_size hstore
    obtain ⟨hlen', hgrown | ⟨hfull, hgrown⟩⟩ := FdBuffer.grow_size hgrow
    · exact .inl (hsize.trans hgrown)
    · exact .inr ⟨by dsimp only; omega, hsize.trans hgrown⟩

/-- Only an insertion changes the capacity. -/
theorem FdBuffer.Holds.exec_size {L : List PollFd} {c : Call} {r : Reply} (h : b.Holds L)
    (hexec : exec b c = .ok (r, b')) :
    b'.size = b.size ∨ b'.len = b.size ∧ b'.size = 2 * b.size := by
  cases c with
  | init mallocOk =>
    simp only [exec, h.initFdsQueue_eq] at hexec
    cases hexec
    exact .inl rfl
  | insert p reallocOk =>
    obtain ⟨⟨r', b₁⟩, hinsert, hexec⟩ := Except.bind_eq_ok.1 hexec
    cases hexec
    exact insertFd_size hinsert
  | remove fd reallocOk =>
    obtain ⟨⟨closed, b₁⟩, hremove, hexec⟩ := Except.bind_eq_ok.1 hexec
    cases hexec
    obtain ⟨b₂, hspec, -, hsize⟩ := h.removeFd_spec reallocOk fd
    rw [hremove] at hspec
    cases hspec
    exact .inl hsize
  | find fd =>
    obtain ⟨i, -, hexec⟩ := Except.bind_eq_ok.1 hexec
    cases hexec
    exact .inl rfl

theorem removeEntry_length {L : List PollFd} {fd : Int}
    (h : (Reply.closed (closedBy fd L)).erased = true) :
    (removeEntry fd L).length + 1 = L.length := by
  unfold closedBy at h
  split at h
  · rename_i hmem
    cases L with
    | nil => cases hmem
    | cons p L =>
      obtain ⟨x, hx, hfd⟩ : ∃ x ∈ L, x.fd = fd := List.mem_map.1 hmem
      have herase := List.length_eraseP_of_mem (p := fun q : PollFd => decide (q.fd = fd))
        (List.mem_reverse.2 hx) (decide_eq_true hfd)
      have hpos := List.length_pos_of_mem hx
      rw [List.length_reverse] at herase
      rw [removeEntry, List.length_cons, List.length_cons, eraseLast, List.length_reverse, herase]
      omega
  · cases h

/-- A removal that erases an entry leaves one entry fewer, and the capacity as it was. -/
theorem FdBuffer.Holds.exec_erased {L : List PollFd} {c : Call} {r : Reply} (h : b.Holds L)
    (hexec : exec b c = .ok (r, b')) (herased : r.erased = true) :
    b'.size = b.size ∧ b'.len + 1 = b.len := by
  cases c with
  | init mallocOk => cases hexec; cases herased
  | insert p reallocOk =>
    obtain ⟨⟨r', b₁⟩, -, hexec⟩ := Except.bind_eq_ok.1 hexec
    cases hexec
    cases herased
  | remove fd reallocOk =>
    obtain ⟨⟨closed, b₁⟩, hremove, hexec⟩ := Except.bind_eq_ok.1 hexec
    cases hexec
    obtain ⟨b₂, hspec, h₂, hsize⟩ := h.removeFd_spec reallocOk fd
    rw [hremove] at hspec
    cases hspec
    refine ⟨hsize, ?_⟩
    rw [h₂.len, h.len]
    exact removeEntry_length herased
  | find fd =>
    obtain ⟨i, -, hexec⟩ := Except.bind_eq_ok.1 hexec
    cases hexec
    cases herased

/-! ## Runs -/

theorem Usage.Sized.start : Usage.start.Sized where
  holds := ⟨[], initFdsQueue_holds⟩
  len := le_rfl
  room := by decide
  least := .inl rfl

theorem Usage.Sized.next (h : s.Sized) (hstep : s.next l = some t) : t.Sized := by
  obtain ⟨hcall, hpeak⟩ := Usage.next_iff.1 hstep
  obtain ⟨L, hL⟩ := h.holds
  obtain ⟨L', -, hL'⟩ := hcall.simulates hL
  have hroom := hL'.room
  have hlen := hL'.len
  have hsroom := h.room
  rcases hL.exec_size hcall.2 with hsize | ⟨hlen', hsize⟩
  · refine ⟨⟨L', hL'⟩, by omega, by omega, ?_⟩
    exact h.least.imp (by omega) (by omega)
  · exact ⟨⟨L', hL'⟩, by omega, by omega, .inr (by omega)⟩

/-- The capacity is proportional to the entries that a removal leaves if and only
if a capacity that is has room for the most there have been. -/
theorem Usage.Sized.next_proportional_iff (h : s.Sized) (hstep : s.next l = some t)
    (herased : l.2.erased = true) : Proportional t.buffer ↔ s.PeakFits := by
  obtain ⟨hcall, -⟩ := Usage.next_iff.1 hstep
  obtain ⟨L, hL⟩ := h.holds
  obtain ⟨hsize, hlen⟩ := hL.exec_erased hcall.2 herased
  rw [Proportional, hsize, hlen]
  constructor
  · intro hle
    obtain ⟨k, hk⟩ := hL.size
    exact ⟨k, hk ▸ h.room, hk ▸ hle⟩
  · rintro ⟨k, hpeak, hk⟩
    refine le_trans ?_ hk
    rcases h.least with hsize | hsize
    · rw [hsize]
      exact Nat.le_mul_of_pos_right 16 (Nat.two_pow_pos k)
    · obtain ⟨j, hj⟩ := hL.size
      have hlt : 2 ^ j < 2 ^ (k + 1) := by
        rw [pow_succ]
        omega
      have hle : j ≤ k := Nat.lt_succ_iff.1 ((Nat.pow_lt_pow_iff_right (by decide)).1 hlt)
      rw [hj]
      exact Nat.mul_le_mul_left 16 (Nat.pow_le_pow_right (by decide) hle)

/-- After each removal of a run the capacity is proportional to the entries left
if and only if, before each, a capacity that is has room for the most entries there
have been. -/
theorem proportional_iff {calls : List (Call × Reply)} {t : Usage} :
    Run (fun s l t => s.next l = some t ∧ (l.2.erased = true → Proportional t.buffer))
        .start calls t ↔
      Run (fun s l t => s.next l = some t ∧ (l.2.erased = true → s.PeakFits))
        .start calls t :=
  Run.iff_of_invariant (I := Usage.Sized)
    (fun _ _ _ hs hstep => imp_congr_right fun herased => hs.next_proportional_iff hstep herased)
    (fun _ _ _ hs hstep _ => hs.next hstep) .start

/-- The listening socket and fifteen clients are inserted, and ten clients are
removed again, the last one first: 32 cells stay allocated for six entries. -/
theorem not_proportional :
    ∃ calls t, Run (fun s l t => Usage.next s l = some t) .start
        (calls ++ [(.remove 9 true, .closed (some 9))]) t ∧
      t.buffer.len = 6 ∧ t.buffer.size = 32 ∧ ¬ Proportional t.buffer := by
  let entry (i : Nat) : PollFd := ⟨3 + i, pollIn, 0⟩
  refine ⟨(List.range 16).map (fun i => (.insert (entry i) true, .code 0)) ++
      (List.range 9).map (fun i => (.remove (18 - i) true, .closed (some (18 - i)))),
    ⟨⟨32, 6, some ((List.range 16).map (some ∘ entry) ++ List.replicate 16 none)⟩, 16⟩, ?_⟩
  exact ⟨Run.foldlM_iff.2 (by decide +kernel), rfl, rfl, by decide⟩

end LinuxNet.TimerServer
