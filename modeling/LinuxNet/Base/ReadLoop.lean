-- SUMMARY: A loop that reads into an array until a read returns nothing, with reads that may leave bytes behind when they fail.
import LinuxNet.Base.Transfer

/-! # Reading until nothing is returned

The loop reads into the part of an array that is left below a limit. How the
reads are answered is a parameter. -/

namespace LinuxNet

/-- The result of a read of at most `num` bytes: what it returns, and the bytes it
stores, which are not more than it may. One that fails may have stored some too. -/
structure ReadResult (num : Int) where
  rc : Int
  stored : List UInt8
  length_le : stored.length ≤ num.toNat
  length_eq : 0 < rc → (stored.length : Int) = rc

/-- How the reads are answered. -/
abbrev ReadSchedule := Nat → (num : Int) → ReadResult num

/-- A read: where it stores, how much it may, what it returns, and what it stores. -/
structure ReadCall where
  offset : Int
  num : Int
  rc : Int
  stored : List UInt8
  deriving DecidableEq, Repr

/-- The array, the sum of what the reads have returned, and the reads so far. -/
structure Reading where
  array : List UInt8
  total : Int
  reads : List ReadCall
  deriving DecidableEq, Repr

/-- What the reads have returned, in order. -/
def Reading.received (s : Reading) : List UInt8 :=
  (s.reads.filter (0 < ·.rc)).flatMap ReadCall.stored

/-- A round of `do { rc = read(array + total, limit - total); if (rc > 0) total += rc; }
while (rc > 0);`. -/
def readRound (limit : Nat) (schedule : ReadSchedule) (s : Reading) : Reading ⊕ Reading :=
  let num := limit - s.total
  let r := schedule s.reads.length num
  let array := storeAt s.array s.total.toNat r.stored
  let reads := s.reads ++ [⟨s.total, num, r.rc, r.stored⟩]
  if r.rc > 0 then .inl ⟨array, s.total + r.rc, reads⟩ else .inr ⟨array, s.total, reads⟩

/-- The reads have stored below the limit, and the array begins with what they have
returned. -/
structure Reading.Within (limit size : Nat) (s : Reading) : Prop where
  le_limit : s.received.length ≤ limit
  total_eq : s.total = s.received.length
  length_eq : s.array.length = size
  isPrefix : s.received <+: s.array
  inside : ∀ r ∈ s.reads, 0 ≤ r.offset ∧ r.offset + (r.stored.length : Int) ≤ limit

/-- The reads are the ones that the schedule answers, one after the other. -/
def Reading.Answered (limit : Nat) (schedule : ReadSchedule) (s : Reading) : Prop :=
  ∀ (i : Nat) (r : ReadCall), s.reads[i]? = some r → r.num = limit - r.offset ∧
    r.rc = (schedule i r.num).rc ∧ r.stored = (schedule i r.num).stored

/-- The last read, and no other one, has returned nothing. -/
def Reading.Stopped (s : Reading) : Prop :=
  ∃ before last, s.reads = before ++ [last] ∧ last.rc ≤ 0 ∧ ∀ r ∈ before, 0 < r.rc

variable {limit size fuel : Nat} {schedule : ReadSchedule} {s t : Reading} {array : List UInt8}

theorem Reading.within_start (h : array.length = size) :
    (⟨array, 0, []⟩ : Reading).Within limit size :=
  ⟨Nat.zero_le _, rfl, h, List.nil_prefix, by simp⟩

/-- The array after a store behind what has been received. -/
theorem Reading.Within.storeAt_eq (h : s.Within limit size) (bytes : List UInt8) :
    storeAt s.array s.total.toNat bytes =
      s.received ++ bytes ++ s.array.drop (s.received.length + bytes.length) := by
  have htotal : s.total.toNat = s.received.length := by rw [h.total_eq, Int.toNat_natCast]
  rw [storeAt, htotal, ← List.prefix_iff_eq_take.1 h.isPrefix]

/-- A read stores at most what is left below the limit. -/
theorem Reading.Within.stored_le (h : s.Within limit size) (r : ReadResult (limit - s.total)) :
    s.received.length + r.stored.length ≤ limit := by
  have hle := r.length_le
  have hlimit := h.le_limit
  have htotal := h.total_eq
  omega

theorem Reading.Within.array_length (h : s.Within limit size) (hsize : limit ≤ size)
    (hle : s.received.length + bytes.length ≤ limit) :
    (storeAt s.array s.total.toNat bytes).length = size := by
  have htotal := h.total_eq
  rw [storeAt_length, h.length_eq]
  rw [h.length_eq]
  omega

theorem Reading.Within.inside_append (h : s.Within limit size) (num rc : Int)
    (hle : s.received.length + bytes.length ≤ limit) :
    ∀ r ∈ s.reads ++ [⟨s.total, num, rc, bytes⟩],
      0 ≤ r.offset ∧ r.offset + (r.stored.length : Int) ≤ limit := by
  refine List.forall_mem_append.2 ⟨h.inside, List.forall_mem_singleton.2 ?_⟩
  have htotal := h.total_eq
  dsimp only
  omega

theorem Reading.Within.next (h : s.Within limit size) (hsize : limit ≤ size)
    (hround : readRound limit schedule s = .inl t) : t.Within limit size ∧ s.total < t.total := by
  unfold readRound at hround
  dsimp only at hround
  generalize schedule s.reads.length (limit - s.total) = r at hround
  split at hround
  · rename_i hrc
    cases hround
    have hreceived : Reading.received ⟨storeAt s.array s.total.toNat r.stored, s.total + r.rc,
        s.reads ++ [⟨s.total, limit - s.total, r.rc, r.stored⟩]⟩ = s.received ++ r.stored := by
      have hpos : 0 < r.rc := hrc
      simp [Reading.received, hpos]
    have hle := h.stored_le r
    refine ⟨⟨?_, ?_, h.array_length hsize hle, ?_, h.inside_append _ _ hle⟩, ?_⟩
    · rw [hreceived, List.length_append]
      exact hle
    · have hlength := r.length_eq hrc
      have htotal := h.total_eq
      rw [hreceived, List.length_append]
      dsimp only
      omega
    · rw [hreceived]
      dsimp only
      rw [h.storeAt_eq]
      exact List.prefix_append _ _
    · dsimp only
      omega
  · cases hround

theorem Reading.Within.ends (h : s.Within limit size) (hsize : limit ≤ size)
    (hround : readRound limit schedule s = .inr t) : t.Within limit size := by
  unfold readRound at hround
  dsimp only at hround
  generalize schedule s.reads.length (limit - s.total) = r at hround
  split at hround
  · cases hround
  · rename_i hrc
    cases hround
    have hreceived : Reading.received ⟨storeAt s.array s.total.toNat r.stored, s.total,
        s.reads ++ [⟨s.total, limit - s.total, r.rc, r.stored⟩]⟩ = s.received := by
      have hpos : ¬ 0 < r.rc := hrc
      simp [Reading.received, hpos]
    have hle := h.stored_le r
    refine ⟨?_, ?_, h.array_length hsize hle, ?_, h.inside_append _ _ hle⟩
    · rw [hreceived]
      exact h.le_limit
    · rw [hreceived]
      exact h.total_eq
    · rw [hreceived]
      dsimp only
      rw [h.storeAt_eq, List.append_assoc]
      exact List.prefix_append _ _

theorem readLoop_spec (hlength : array.length = size) (hsize : limit ≤ size)
    (h : loop (readRound limit schedule) fuel ⟨array, 0, []⟩ = some t) : t.Within limit size :=
  loop_rule (I := Reading.Within limit size) (fun _ _ hs hround => (hs.next hsize hround).1)
    (fun _ _ hs hround => hs.ends hsize hround) (Reading.within_start hlength) h

/-- The loop ends, as there is nothing to return once the limit is reached. -/
theorem readLoop_ends (schedule : ReadSchedule) (hlength : array.length = size)
    (hsize : limit ≤ size) (hfuel : limit < fuel) :
    ∃ t, loop (readRound limit schedule) fuel ⟨array, 0, []⟩ = some t := by
  refine loop_ends (I := Reading.Within limit size) (m := fun s => (limit - s.total).toNat)
    (fun s t hs hround => ?_) (Reading.within_start hlength) (by simpa using hfuel)
  obtain ⟨ht, hlt⟩ := hs.next hsize hround
  have hle := ht.le_limit
  have htotal := ht.total_eq
  exact ⟨ht, by omega⟩

/-- What a round has read last is what the schedule answers. -/
theorem Reading.Answered.append (h : s.Answered limit schedule) {r : ReadCall}
    (hreads : t.reads = s.reads ++ [r]) (hnum : r.num = limit - r.offset)
    (hrc : r.rc = (schedule s.reads.length r.num).rc)
    (hstored : r.stored = (schedule s.reads.length r.num).stored) : t.Answered limit schedule := by
  intro i r' hr'
  rw [hreads, List.getElem?_append] at hr'
  split at hr'
  · exact h i r' hr'
  · rw [List.getElem?_singleton] at hr'
    obtain ⟨hi, he⟩ := Option.ite_none_right_eq_some.1 hr'
    obtain rfl : i = s.reads.length := by omega
    obtain rfl := Option.some.inj he
    exact ⟨hnum, hrc, hstored⟩

theorem readLoop_answered (h : loop (readRound limit schedule) fuel ⟨array, 0, []⟩ = some t) :
    t.Answered limit schedule ∧ t.Stopped := by
  have hstart : (⟨array, 0, []⟩ : Reading).Answered limit schedule := fun i r hr => nomatch hr
  refine loop_rule (I := fun s : Reading => s.Answered limit schedule ∧ ∀ r ∈ s.reads, 0 < r.rc)
    (Q := fun s : Reading => s.Answered limit schedule ∧ s.Stopped)
    (fun s s' hs hround => ?_) (fun s s' hs hround => ?_) ⟨hstart, List.forall_mem_nil _⟩ h
  · unfold readRound at hround
    dsimp only at hround
    split at hround <;> cases hround
    rename_i hrc
    exact ⟨hs.1.append rfl rfl rfl rfl,
      List.forall_mem_append.2 ⟨hs.2, List.forall_mem_singleton.2 hrc⟩⟩
  · unfold readRound at hround
    dsimp only at hround
    split at hround <;> cases hround
    rename_i hrc
    exact ⟨hs.1.append rfl rfl rfl rfl, _, _, rfl, Int.not_lt.1 hrc, hs.2⟩

/-- A terminator behind what has been received. -/
theorem Reading.Within.set_eq (h : s.Within limit size) (hsize : limit < size) :
    ∃ rest, s.array.set s.total.toNat 0 = s.received ++ 0 :: rest := by
  obtain ⟨rest, hrest⟩ := h.isPrefix
  have htotal : s.total.toNat = s.received.length := by rw [h.total_eq, Int.toNat_natCast]
  have hlength := h.length_eq
  have hlimit := h.le_limit
  rw [← hrest, List.length_append] at hlength
  cases rest with
  | nil =>
    rw [List.length_nil] at hlength
    omega
  | cons b rest =>
    refine ⟨rest, ?_⟩
    rw [← hrest, htotal, List.set_append_right _ _ le_rfl, Nat.sub_self, List.set_cons_zero]

end LinuxNet
