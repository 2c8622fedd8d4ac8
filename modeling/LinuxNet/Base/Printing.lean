-- SUMMARY: Printing each piece of a stream as a C string: when the whole stream is printed, and when it does not depend on the pieces.
import LinuxNet.Base.Search

/-! # A stream that is printed piece by piece

Each piece is printed up to its first zero, and the next one from its start again. -/

namespace LinuxNet

variable {cap : Nat} {stream : List UInt8}

theorem cString_length_le (bytes : List UInt8) : (cString bytes).length ≤ bytes.length :=
  (List.takeWhile_prefix _).length_le

theorem flatMap_cString_length_le (pieces : List (List UInt8)) :
    (pieces.flatMap cString).length ≤ pieces.flatten.length := by
  induction pieces with
  | nil => exact le_rfl
  | cons p rest ih =>
    have hle := cString_length_le p
    rw [List.flatMap_cons, List.flatten_cons, List.length_append, List.length_append]
    omega

/-- All of the pieces is printed exactly if there is no zero in them. -/
theorem flatMap_cString_eq_iff (pieces : List (List UInt8)) :
    pieces.flatMap cString = pieces.flatten ↔ 0 ∉ pieces.flatten := by
  induction pieces with
  | nil => exact iff_of_true rfl List.not_mem_nil
  | cons p rest ih =>
    rw [List.flatMap_cons, List.flatten_cons, List.mem_append, not_or, ← ih]
    constructor
    · intro h
      have hlength := congrArg List.length h
      have hle := cString_length_le p
      have hrest := flatMap_cString_length_le rest
      rw [List.length_append, List.length_append] at hlength
      obtain ⟨hp, htail⟩ := List.append_inj h (by omega)
      exact ⟨hp ▸ zero_not_mem_cString, htail⟩
    · rintro ⟨hp, htail⟩
      rw [cString_eq_self hp, htail]

/-- Where no zero is followed by another byte, all that follows one is zero. -/
theorem zeros_behind (h : ∀ before b after, 0 :: stream = before ++ 0 :: b :: after → b = 0) :
    ∀ b ∈ stream, b = 0 := by
  induction stream with
  | nil => exact List.forall_mem_nil _
  | cons b stream ih =>
    obtain rfl := h [] b stream rfl
    refine List.forall_mem_cons.2 ⟨rfl, ih fun before b after heq => ?_⟩
    exact h (0 :: before) b after (congrArg _ heq)

/-- Where no zero is followed by another byte, the pieces are printed like one string. -/
theorem flatMap_cString_eq (pieces : List (List UInt8))
    (h : ∀ before b after, pieces.flatten = before ++ 0 :: b :: after → b = 0) :
    pieces.flatMap cString = cString pieces.flatten := by
  induction pieces with
  | nil => rfl
  | cons p rest ih =>
    rw [List.flatten_cons] at h
    have hrest := ih fun before b after heq => h (p ++ before) b after (by rw [heq, List.append_assoc])
    rw [List.flatMap_cons, List.flatten_cons, hrest]
    by_cases hzero : 0 ∈ p
    · obtain ⟨front, back, rfl⟩ := List.append_of_mem hzero
      have hzeros : ∀ b ∈ back ++ rest.flatten, b = 0 := zeros_behind fun before b after heq =>
        h (front ++ before) b after (by simp [← heq])
      have hnone : cString rest.flatten = [] := by
        cases hflatten : rest.flatten with
        | nil => rfl
        | cons b tail =>
          obtain rfl := hzeros b (by simp [hflatten])
          rfl
      rw [cString_append_of_mem hzero, hnone, List.append_nil]
    · rw [cString_append hzero, cString_eq_self hzero]

namespace Segmentation

/-- What is printed of a stream. -/
def text (s : Segmentation cap stream) : List UInt8 := (s.pieces.map Subtype.val).flatMap cString

theorem text_append {before after : List UInt8} (s : Segmentation cap before)
    (t : Segmentation cap after) : (s.append t).text = s.text ++ t.text := by
  simp [text, append]

theorem text_eq_stream_iff (s : Segmentation cap stream) : s.text = stream ↔ 0 ∉ stream := by
  have h := flatMap_cString_eq_iff (s.pieces.map Subtype.val)
  rwa [s.flatten] at h

/-- What is printed does not depend on how the stream is cut exactly if no zero is
followed by another byte. -/
theorem text_eq_iff (hcap : 1 < cap) : (∀ s t : Segmentation cap stream, s.text = t.text) ↔
    ∀ before b after, stream = before ++ 0 :: b :: after → b = 0 := by
  constructor
  · rintro hsame before b after heq
    obtain rfl : stream = before ++ [0, b] ++ after := by rw [heq]; simp
    have hpos : 0 < cap := Nat.zero_lt_of_lt hcap
    have hle : [0, b].length ≤ cap := hcap
    have h := hsame
      (((bytewise hpos before).append (bytewise hpos [0, b])).append (bytewise hpos after))
      (((bytewise hpos before).append (whole (List.cons_ne_nil _ _) hle)).append
        (bytewise hpos after))
    rw [text_append, text_append, text_append, text_append] at h
    have hmiddle := List.append_cancel_left (List.append_cancel_right h)
    by_contra hb
    simp [text, bytewise, whole, cString, hb] at hmiddle
  · intro h s t
    have htext (u : Segmentation cap stream) : u.text = cString stream := by
      have hflat := flatMap_cString_eq (u.pieces.map Subtype.val) (by rwa [u.flatten])
      rwa [u.flatten] at hflat
    rw [htext s, htext t]

end Segmentation

end LinuxNet
