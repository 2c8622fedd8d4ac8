-- SUMMARY: Searching a word in each piece of a stream: when the number of pieces with the word does not depend on the pieces.
import LinuxNet.Base.CString
import LinuxNet.Base.Socket

/-! # A search in every piece

Whoever searches each receive on its own misses a word that is cut, and finds
two that are joined only once. -/

namespace LinuxNet

variable {cap : Nat} {stream word : List UInt8} {b : UInt8}

theorem strstr_iff_contained {buf : List UInt8} : strstr buf word = true ↔ word <:+: cString buf :=
  decide_eq_true_iff

theorem strstr_filled {size : Nat} {bytes : List UInt8} :
    strstr (filled size bytes) word = strstr bytes word := by
  rw [strstr, strstr, cString_filled]

namespace Segmentation

/-- The number of pieces in which `strstr` finds a word. -/
def hits (word : List UInt8) (s : Segmentation cap stream) : Nat :=
  s.pieces.countP fun p => strstr p.1 word

/-- A stream in pieces of one byte. -/
def bytewise (hcap : 0 < cap) (stream : List UInt8) : Segmentation cap stream where
  pieces := stream.map fun b => ⟨[b], List.cons_ne_nil b [], hcap⟩
  flatten := by
    induction stream with
    | nil => rfl
    | cons b stream ih => simpa using ih

def append {before after : List UInt8} (s : Segmentation cap before)
    (t : Segmentation cap after) : Segmentation cap (before ++ after) where
  pieces := s.pieces ++ t.pieces
  flatten := by rw [List.map_append, List.flatten_append, s.flatten, t.flatten]

theorem hits_append {before after : List UInt8} (s : Segmentation cap before)
    (t : Segmentation cap after) : (s.append t).hits word = s.hits word + t.hits word :=
  List.countP_append

/-- Nothing is found that is not in the stream. -/
theorem hits_eq_zero (s : Segmentation cap stream) (h : ¬ word <:+: stream) :
    s.hits word = 0 := by
  refine List.countP_eq_zero.2 fun p hp hfound => h ?_
  have hpiece : word <:+: p.1 :=
    (strstr_iff_contained.1 hfound).trans (List.takeWhile_prefix _).isInfix
  obtain ⟨before, after, hsplit⟩ := List.append_of_mem hp
  have hstream : p.1 <:+: stream := by
    rw [← s.flatten, hsplit, List.map_append, List.flatten_append]
    exact List.infix_append' _ _ _
  exact hpiece.trans hstream

/-- A word of two bytes or more is not in a piece of one. -/
theorem hits_bytewise (hcap : 0 < cap) (hword : 1 < word.length) :
    (bytewise hcap stream).hits word = 0 := by
  refine List.countP_eq_zero.2 fun p hp hfound => ?_
  obtain ⟨b, -, rfl⟩ := List.mem_map.1 hp
  have hinfix := (strstr_iff_contained.1 hfound).trans (List.takeWhile_prefix _).isInfix
  have hle : word.length ≤ 1 := hinfix.length_le
  omega

/-- A piece that is the word. -/
theorem hits_whole (hne : word ≠ []) (hle : word.length ≤ cap) (hzero : 0 ∉ word) :
    (whole hne hle).hits word = 1 := by
  have hself : strstr word word = true :=
    strstr_iff_contained.2 ((cString_eq_self hzero).symm ▸ List.infix_refl word)
  simp [hits, whole, hself]

/-- The number of pieces with a word does not depend on how the stream is cut if
and only if the stream does not have the word. -/
theorem hits_eq_iff (hword : 1 < word.length) (hle : word.length ≤ cap) (hzero : 0 ∉ word) :
    (∀ s t : Segmentation cap stream, s.hits word = t.hits word) ↔ ¬ word <:+: stream := by
  constructor
  · rintro hsame ⟨before, after, rfl⟩
    have hcap : 0 < cap := by omega
    have hne : word ≠ [] := List.ne_nil_of_length_pos (by omega)
    let s := ((bytewise hcap before).append (whole hne hle)).append (bytewise hcap after)
    have hs : 0 < s.hits word := by
      rw [hits_append, hits_append, hits_whole hne hle hzero]
      omega
    rw [hsame s (bytewise hcap _), hits_bytewise hcap hword] at hs
    exact lt_irrefl 0 hs
  · intro hnot s t
    rw [s.hits_eq_zero hnot, t.hits_eq_zero hnot]

end Segmentation

end LinuxNet
