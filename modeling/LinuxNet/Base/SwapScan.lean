-- SUMMARY: Scanning a table whose entries are removed by moving the last entry into their slot.
import Mathlib.Data.List.DropRight
import Mathlib.Data.List.Perm.Subperm

/-! # Scans that remove by moving the last entry

A scan goes through a table from the front. The slots have flags, and the
entries in flagged slots are served. A served entry that leaves is replaced by
the last entry of the table, which is then examined in its new slot; the flag
belongs to the slot and stays. -/

namespace LinuxNet

variable {α : Type*} {leaves : α → Bool}

/-- The entries a scan serves, in order, and the entries it keeps. -/
def swapScan (leaves : α → Bool) : List (α × Bool) → List α × List α
  | [] => ([], [])
  | (x, false) :: L =>
    let (served, kept) := swapScan leaves L
    (served, x :: kept)
  | (x, true) :: L =>
    if leaves x then
      match _h : L.getLast? with
      | none => ([x], [])
      | some (y, _) =>
        let (served, kept) := swapScan leaves ((y, true) :: L.dropLast)
        (x :: served, kept)
    else
      let (served, kept) := swapScan leaves L
      (x :: served, x :: kept)
termination_by L => L.length
decreasing_by
  · simp
  · have hne : L ≠ [] := fun hnil => by simp [hnil] at _h
    have hpos := List.length_pos_iff.2 hne
    simp only [List.length_cons, List.length_dropLast]
    omega
  · simp

/-! ## The steps of a scan -/

@[simp] theorem swapScan_nil : swapScan leaves [] = ([], []) := by
  rw [swapScan]

theorem swapScan_skip (x : α) (L : List (α × Bool)) :
    swapScan leaves ((x, false) :: L) =
      ((swapScan leaves L).1, x :: (swapScan leaves L).2) := by
  rw [swapScan]

theorem swapScan_keep {x : α} (hx : leaves x = false) (L : List (α × Bool)) :
    swapScan leaves ((x, true) :: L) =
      (x :: (swapScan leaves L).1, x :: (swapScan leaves L).2) := by
  rw [swapScan, hx]
  rfl

theorem swapScan_last {x : α} (hx : leaves x = true) :
    swapScan leaves [(x, true)] = ([x], []) := by
  rw [swapScan, hx]
  rfl

theorem swapScan_move {x : α} (hx : leaves x = true) (L : List (α × Bool)) (y : α × Bool) :
    swapScan leaves ((x, true) :: (L ++ [y])) =
      (x :: (swapScan leaves ((y.1, true) :: L)).1, (swapScan leaves ((y.1, true) :: L)).2) := by
  rw [swapScan, hx, if_pos rfl]
  have hlast : (L ++ [y]).getLast? = some y := List.getLast?_concat
  have hdrop : (L ++ [y]).dropLast = L := List.dropLast_concat
  split
  · rename_i h
    rw [hlast] at h
    cases h
  · rename_i z b h
    rw [hlast] at h
    obtain rfl := Option.some.inj h
    rw [hdrop]

/-- The induction rule of a scan, with its five cases. -/
theorem swapScan_induction (leaves : α → Bool) {motive : List (α × Bool) → Prop} (nil : motive [])
    (skip : ∀ x L, motive L → motive ((x, false) :: L))
    (keep : ∀ x L, leaves x = false → motive L → motive ((x, true) :: L))
    (last : ∀ x, leaves x = true → motive [(x, true)])
    (move : ∀ x L y, leaves x = true → motive ((y.1, true) :: L) →
      motive ((x, true) :: (L ++ [y])))
    (L : List (α × Bool)) : motive L := by
  induction hn : L.length using Nat.strongRecOn generalizing L with
  | ind n ih =>
    match L with
    | [] => exact nil
    | (x, false) :: L => exact skip x L (ih L.length (by simp [← hn]) L rfl)
    | (x, true) :: L =>
      cases hx : leaves x with
      | false => exact keep x L hx (ih L.length (by simp [← hn]) L rfl)
      | true =>
        rcases List.eq_nil_or_concat L with rfl | ⟨L', y, rfl⟩
        · exact last x hx
        · rw [List.concat_eq_append] at hn ⊢
          exact move x L' y hx (ih _ (by simp [← hn]) _ rfl)

/-! ## What a scan serves and keeps -/

/-- A scan keeps each entry at most as often as the table holds it. -/
theorem swapScan_kept_subperm (leaves : α → Bool) (L : List (α × Bool)) :
    (swapScan leaves L).2.Subperm (L.map Prod.fst) := by
  induction L using swapScan_induction leaves with
  | nil => simp
  | skip x L ih =>
    rw [swapScan_skip]
    exact (List.subperm_cons x).2 ih
  | keep x L hx ih =>
    rw [swapScan_keep hx]
    exact (List.subperm_cons x).2 ih
  | last x hx => simp [swapScan_last hx]
  | move x L y hx ih =>
    rw [swapScan_move hx]
    have hperm : (y.1 :: L.map Prod.fst).Perm (L.map Prod.fst ++ [y.1]) :=
      (List.perm_append_singleton _ _).symm
    have htail : (y.1 :: L.map Prod.fst).Subperm (x :: (L.map Prod.fst ++ [y.1])) :=
      hperm.subperm.trans (List.sublist_cons_self _ _).subperm
    simpa using ih.trans htail

/-- The entry in a flagged slot is always served. If the scan does not come to it
there, it is because the entry has been moved to the slot of one that left, which
is flagged too. -/
theorem swapScan_flagged_mem {x : α} {L : List (α × Bool)} (h : (x, true) ∈ L) :
    x ∈ (swapScan leaves L).1 := by
  induction L using swapScan_induction leaves with
  | nil => cases h
  | skip z L ih =>
    rw [swapScan_skip]
    apply ih
    simpa using h
  | keep z L hz ih =>
    rw [swapScan_keep hz]
    rcases List.mem_cons.1 h with he | hmem
    · cases he
      exact List.mem_cons_self
    · exact List.mem_cons_of_mem _ (ih hmem)
  | last z hz =>
    cases List.mem_singleton.1 h
    simp [swapScan_last hz]
  | move z L y hz ih =>
    rw [swapScan_move hz]
    rcases List.mem_cons.1 h with he | hmem
    · cases he
      exact List.mem_cons_self
    · apply List.mem_cons_of_mem
      apply ih
      rcases List.mem_append.1 hmem with hmem | hmem
      · exact List.mem_cons_of_mem _ hmem
      · cases List.mem_singleton.1 hmem
        exact List.mem_cons_self

/-! ## When a scan serves flagged entries only -/

section Backed

variable {flag : α → Bool} {x y : α} {L : List α}

/-- Every entry has the flag, or at most as many entries with the flag leave as
there are entries behind the last one without it. -/
def Backed (flag leaves : α → Bool) (L : List α) : Prop :=
  (∀ x ∈ L, flag x) ∨ (L.countP fun x => flag x && leaves x) ≤ (L.rtakeWhile flag).length

instance : Decidable (Backed flag leaves L) :=
  inferInstanceAs (Decidable ((∀ x ∈ L, flag x) ∨ _ ≤ _))

theorem rtakeWhile_cons_of_exists (h : ∃ y ∈ x :: L, flag y = false) :
    (x :: L).rtakeWhile flag = L.rtakeWhile flag := by
  rw [List.rtakeWhile, List.rtakeWhile, List.reverse_cons, List.takeWhile_append]
  split
  · rename_i hlen
    have hinit : L.reverse.takeWhile flag <+: L.reverse := List.takeWhile_prefix flag
    have hself : L.reverse.takeWhile flag = L.reverse := hinit.eq_of_length hlen
    have hall := List.takeWhile_eq_self_iff.1 hself
    have hx : flag x = false := by
      obtain ⟨y, hy, hflag⟩ := h
      rcases List.mem_cons.1 hy with rfl | hy
      · exact hflag
      · rw [hall y (List.mem_reverse.2 hy)] at hflag
        cases hflag
    simp [hx, hself]
  · rfl

theorem backed_iff_of_exists (h : ∃ y ∈ L, flag y = false) : Backed flag leaves L ↔
    (L.countP fun x => flag x && leaves x) ≤ (L.rtakeWhile flag).length := by
  apply or_iff_right
  intro hall
  obtain ⟨y, hy, hflag⟩ := h
  rw [hall y hy] at hflag
  cases hflag

theorem backed_skip (hx : flag x = false) :
    Backed flag leaves (x :: L) ↔ Backed flag leaves L := by
  have hx' : ∃ y ∈ x :: L, flag y = false := ⟨x, List.mem_cons_self, hx⟩
  rw [backed_iff_of_exists hx', rtakeWhile_cons_of_exists hx',
    List.countP_cons_of_neg (by simp [hx])]
  by_cases hL : ∃ y ∈ L, flag y = false
  · rw [backed_iff_of_exists hL]
  · have hall : ∀ y ∈ L, flag y := by simpa using hL
    rw [List.rtakeWhile_eq_self_iff.2 hall]
    exact ⟨fun _ => .inl hall, fun _ => List.countP_le_length⟩

theorem backed_keep (hx : flag x = true) (hstay : leaves x = false) :
    Backed flag leaves (x :: L) ↔ Backed flag leaves L := by
  by_cases hL : ∃ y ∈ L, flag y = false
  · obtain ⟨y, hy, hflag⟩ := hL
    have hy' : ∃ z ∈ x :: L, flag z = false := ⟨y, List.mem_cons_of_mem _ hy, hflag⟩
    rw [backed_iff_of_exists hy', backed_iff_of_exists ⟨y, hy, hflag⟩,
      rtakeWhile_cons_of_exists hy', List.countP_cons_of_neg (by simp [hstay])]
  · have hall : ∀ y ∈ L, flag y := by simpa using hL
    exact ⟨fun _ => .inl hall, fun _ => .inl (by simpa [hx] using hall)⟩

theorem backed_move (hx : flag x = true) (hleave : leaves x = true) :
    Backed flag leaves (x :: (L ++ [y])) ↔ flag y = true ∧ Backed flag leaves (y :: L) := by
  cases hy : flag y with
  | false =>
    have hlast : ((x :: L) ++ [y]).rtakeWhile flag = [] :=
      List.rtakeWhile_concat_neg _ (x :: L) y (by simp [hy])
    rw [backed_iff_of_exists ⟨y, by simp, hy⟩, ← List.cons_append, hlast, List.cons_append,
      List.countP_cons_of_pos (by simp [hx, hleave])]
    simp
  | true =>
    by_cases hL : ∃ z ∈ L, flag z = false
    · obtain ⟨z, hz, hflag⟩ := hL
      have hz' : ∀ w : α, ∃ y ∈ w :: L, flag y = false :=
        fun w => ⟨z, List.mem_cons_of_mem _ hz, hflag⟩
      have hlast : ((x :: L) ++ [y]).rtakeWhile flag = L.rtakeWhile flag ++ [y] := by
        rw [List.rtakeWhile_concat_pos _ _ y hy, rtakeWhile_cons_of_exists (hz' x)]
      rw [backed_iff_of_exists ⟨z, by simp [hz], hflag⟩, backed_iff_of_exists (hz' y),
        rtakeWhile_cons_of_exists (hz' y), ← List.cons_append, hlast, List.cons_append,
        List.countP_cons_of_pos (by simp [hx, hleave])]
      simp only [List.countP_append, List.countP_cons, List.countP_nil, List.length_append,
        List.length_singleton, true_and]
      omega
    · have hall : ∀ z ∈ L, flag z := by simpa using hL
      exact ⟨fun _ => ⟨rfl, .inl (by simpa [hy] using hall)⟩,
        fun _ => .inl (by simpa [hx, hy, or_imp, forall_and] using hall)⟩

/-- Behind an entry without the flag nothing backs those that leave. -/
theorem backed_concat (hy : flag y = false) :
    Backed flag leaves (L ++ [y]) ↔ ∀ x ∈ L, flag x → leaves x = false := by
  rw [backed_iff_of_exists ⟨y, by simp, hy⟩, List.rtakeWhile_concat_neg _ _ _ (by simp [hy]),
    List.length_nil, Nat.le_zero, List.countP_eq_zero]
  simp only [List.mem_append, List.mem_singleton, or_imp, forall_and, forall_eq, hy]
  simp

/-- A scan of a table whose slots have their own entries' flags serves no
entry without the flag exactly if the entries that leave are backed: it is the
entries behind the last one without the flag that are moved first. -/
theorem swapScan_flagged_iff (L : List α) :
    (∀ x ∈ (swapScan leaves (L.map fun x => (x, flag x))).1, flag x) ↔
      Backed flag leaves L := by
  induction hn : L.length using Nat.strongRecOn generalizing L with
  | ind n ih =>
    match L with
    | [] => simp [Backed]
    | x :: L =>
      have hlt : L.length < n := by simp [← hn]
      cases hx : flag x with
      | false =>
        rw [List.map_cons, hx, swapScan_skip, backed_skip hx]
        exact ih _ hlt L rfl
      | true =>
        rw [List.map_cons, hx]
        cases hleave : leaves x with
        | false =>
          rw [swapScan_keep hleave, backed_keep hx hleave, ← ih _ hlt L rfl]
          simp [hx]
        | true =>
          rcases List.eq_nil_or_concat L with rfl | ⟨L', y, rfl⟩
          · rw [List.map_nil, swapScan_last hleave]
            simp [hx, Backed]
          · rw [List.concat_eq_append] at hlt ⊢
            rw [List.map_append, List.map_cons, List.map_nil, swapScan_move hleave,
              backed_move hx hleave]
            cases hy : flag y with
            | false =>
              have hmem : y ∈ (swapScan leaves ((y, true) :: L'.map fun x => (x, flag x))).1 :=
                swapScan_flagged_mem List.mem_cons_self
              simp only [List.mem_cons, forall_eq_or_imp, hx, true_and, Bool.false_eq_true,
                false_and, iff_false]
              intro hall
              have hflag := hall y hmem
              rw [hy] at hflag
              cases hflag
            | true =>
              have hrest := ih (y :: L').length (by simpa using hlt) (y :: L') rfl
              rw [List.map_cons, hy] at hrest
              simpa [hx] using hrest

end Backed

end LinuxNet
