-- SUMMARY: The C++ library's conversion of strings to int, and decimal numerals.
import LinuxNet.Base.IStream
import LinuxNet.Base.Loop
import Mathlib.Data.List.DropRight
import Mathlib.Data.Nat.Digits.Defs

/-! # std::stoi -/

namespace LinuxNet

/-- Exceptions of the C++ library. -/
inductive StdException
  | invalidArgument
  | outOfRange
  | lengthError
  | badAlloc
  deriving DecidableEq, Repr

def minus : UInt8 := 45

def plus : UInt8 := 43

def isDigit (b : UInt8) : Bool := 48 ≤ b && b ≤ 57

/-- The value of decimal digits. -/
def digitsValue (digits : Bytes) : Nat := digits.foldl (fun n b => 10 * n + (b.toNat - 48)) 0

/-- The optional sign before a number: whether it is a minus, and the rest. -/
def splitSign : Bytes → Bool × Bytes
  | [] => (false, [])
  | b :: rest =>
    if b = minus then (true, rest) else if b = plus then (false, rest) else (false, b :: rest)

/-- `std::stoi(str)`, with a 32-bit `int`. What follows the digits, a zero byte
for one, is ignored. -/
def stoi (str : Bytes) : Except StdException Int :=
  let (negative, unsigned) := splitSign (str.dropWhile isSpace)
  let digits := unsigned.takeWhile isDigit
  let value : Int := if negative then -digitsValue digits else digitsValue digits
  if digits = [] then throw .invalidArgument
  else if value < -2 ^ 31 ∨ 2 ^ 31 ≤ value then throw .outOfRange
  else pure value

/-- The decimal numeral of `n`. -/
def decimal (n : Nat) : Bytes :=
  if n = 0 then [48] else ((Nat.digits 10 n).reverse.map fun d => UInt8.ofNat (48 + d))

/-! ## Decimal numerals -/

theorem digit_spec : ∀ d < 10,
    isDigit (UInt8.ofNat (48 + d)) = true ∧ (UInt8.ofNat (48 + d)).toNat - 48 = d := by
  decide

theorem decimal_isDigit {n : Nat} {b : UInt8} (h : b ∈ decimal n) : isDigit b = true := by
  unfold decimal at h
  split at h
  · rw [List.mem_singleton.1 h]
    rfl
  · obtain ⟨d, hd, rfl⟩ := List.mem_map.1 h
    exact (digit_spec d (Nat.digits_lt_base (by decide) (List.mem_reverse.1 hd))).1

theorem decimal_ne_nil (n : Nat) : decimal n ≠ [] := by
  unfold decimal
  split
  · simp
  · rename_i hn
    simpa using Nat.digits_ne_nil_iff_ne_zero.2 hn

theorem digitsValue_decimal (n : Nat) : digitsValue (decimal n) = n := by
  unfold decimal
  split
  · rename_i hn
    simp [digitsValue, hn]
  · have hdigit : ∀ d ∈ Nat.digits 10 n, (UInt8.ofNat (48 + d)).toNat - 48 = d :=
      fun d hd => (digit_spec d (Nat.digits_lt_base (by decide) hd)).2
    have hfold : ∀ L : List Nat, (∀ d ∈ L, (UInt8.ofNat (48 + d)).toNat - 48 = d) →
        digitsValue (L.reverse.map fun d => UInt8.ofNat (48 + d)) = Nat.ofDigits 10 L := by
      intro L hL
      induction L with
      | nil => rfl
      | cons d L ih =>
        have hd := hL d List.mem_cons_self
        have hih := ih fun x hx => hL x (List.mem_cons_of_mem _ hx)
        simp only [digitsValue] at hih ⊢
        rw [List.reverse_cons, List.map_append, List.foldl_append, hih, Nat.ofDigits_cons]
        simp only [List.map_cons, List.map_nil, List.foldl_cons, List.foldl_nil, hd]
        omega
    rw [hfold _ hdigit, Nat.ofDigits_digits]

/-! ## What stoi accepts -/

/-- `str` starts with a numeral for `value`: after spaces and a sign, both
optional, digits that are not followed by another digit. -/
def IntNumeral (str : Bytes) (value : Int) : Prop :=
  ∃ (space sign : Bytes) (negative : Bool) (digits rest : Bytes),
    str = space ++ (sign ++ (digits ++ rest)) ∧ (∀ b ∈ space, isSpace b) ∧
    (sign, negative) ∈ [([], false), ([plus], false), ([minus], true)] ∧
    digits ≠ [] ∧ (∀ b ∈ digits, isDigit b) ∧ (∀ b ∈ rest.head?, isDigit b = false) ∧
    value = if negative then -(digitsValue digits : Int) else digitsValue digits

theorem isDigit_not {b : UInt8} (h : isDigit b = true) :
    isSpace b = false ∧ b ≠ minus ∧ b ≠ plus := by
  have hb : 48 ≤ b.toNat ∧ b.toNat ≤ 57 := by
    simpa [isDigit, UInt8.le_iff_toNat_le] using h
  refine ⟨?_, ?_, ?_⟩
  · have h32 : b ≠ 32 := fun he => by rw [he] at hb; exact absurd hb (by decide)
    have h13 : ¬ b ≤ 13 := fun hle => by
      rw [UInt8.le_iff_toNat_le] at hle
      have h13' : (13 : UInt8).toNat = 13 := rfl
      omega
    simp [isSpace, h32, h13]
  · exact fun he => by rw [he] at hb; exact absurd hb (by decide)
  · exact fun he => by rw [he] at hb; exact absurd hb (by decide)

/-- The digits before something that is not a digit. -/
theorem takeWhile_isDigit {digits rest : Bytes} (hdigits : ∀ b ∈ digits, isDigit b)
    (hrest : ∀ b ∈ rest.head?, isDigit b = false) :
    (digits ++ rest).takeWhile isDigit = digits := by
  rw [List.takeWhile_append_of_pos hdigits]
  cases rest with
  | nil => simp
  | cons b rest => simp [hrest b rfl]

theorem IntNumeral.stoi_eq {str : Bytes} {value : Int} (h : IntNumeral str value) :
    stoi str = if value < -2 ^ 31 ∨ 2 ^ 31 ≤ value then .error .outOfRange else .ok value := by
  obtain ⟨space, sign, negative, digits, rest, rfl, hspace, hsign, hne, hdigits, hrest, rfl⟩ := h
  obtain ⟨d, ds, rfl⟩ := List.exists_cons_of_ne_nil hne
  obtain ⟨hd, hminus, hplus⟩ := isDigit_not (hdigits d List.mem_cons_self)
  have htake := takeWhile_isDigit hdigits hrest
  have hsplit : splitSign ((space ++ (sign ++ (d :: ds ++ rest))).dropWhile isSpace) =
      (negative, d :: ds ++ rest) := by
    rw [List.dropWhile_append_of_pos hspace]
    simp only [List.mem_cons, Prod.mk.injEq, List.not_mem_nil, or_false] at hsign
    rcases hsign with ⟨rfl, rfl⟩ | ⟨rfl, rfl⟩ | ⟨rfl, rfl⟩
    · simp [hd, splitSign, hminus, hplus]
    · simp [splitSign, isSpace, plus, minus]
    · simp [splitSign, isSpace, minus]
  simp only [stoi, hsplit, htake]
  simp

theorem splitSign_spec (str : Bytes) : ∃ sign, str = sign ++ (splitSign str).2 ∧
    (sign, (splitSign str).1) ∈ [([], false), ([plus], false), ([minus], true)] := by
  cases str with
  | nil => exact ⟨[], rfl, by simp [splitSign]⟩
  | cons b rest =>
    by_cases hminus : b = minus
    · exact ⟨[minus], by simp [splitSign, hminus], by simp [splitSign, hminus]⟩
    · by_cases hplus : b = plus
      · have hne : plus ≠ minus := by decide
        exact ⟨[plus], by simp [splitSign, hplus, hne], by simp [splitSign, hplus, hne]⟩
      · exact ⟨[], by simp [splitSign, hminus, hplus], by simp [splitSign, hminus, hplus]⟩

theorem intNumeral_of_ne_nil {str : Bytes}
    (hne : (splitSign (str.dropWhile isSpace)).2.takeWhile isDigit ≠ []) :
    ∃ value, IntNumeral str value := by
  obtain ⟨sign, hsplit, hsign⟩ := splitSign_spec (str.dropWhile isSpace)
  generalize splitSign (str.dropWhile isSpace) = signed at hne hsplit hsign
  refine ⟨_, str.takeWhile isSpace, sign, signed.1, signed.2.takeWhile isDigit,
    signed.2.dropWhile isDigit, ?_, fun b hb => List.mem_takeWhile_imp hb, hsign, hne,
    fun b hb => List.mem_takeWhile_imp hb, fun b hb => ?_, rfl⟩
  · rw [List.takeWhile_append_dropWhile, ← hsplit, List.takeWhile_append_dropWhile]
  · have hhead := List.head?_dropWhile_not isDigit signed.2
    rw [hb] at hhead
    exact hhead

/-- `stoi` returns the value of the numeral, if it fits into an `int`. -/
theorem stoi_ok_iff {str : Bytes} {value : Int} : stoi str = .ok value ↔
    IntNumeral str value ∧ -2 ^ 31 ≤ value ∧ value < 2 ^ 31 := by
  constructor
  · intro h
    have hne : (splitSign (str.dropWhile isSpace)).2.takeWhile isDigit ≠ [] := fun hnil => by
      simp [stoi, hnil] at h
    obtain ⟨value', hnum⟩ := intNumeral_of_ne_nil hne
    rw [hnum.stoi_eq] at h
    split at h
    · cases h
    · rename_i hrange
      obtain rfl := Except.ok.inj h
      exact ⟨hnum, by omega⟩
  · rintro ⟨hnum, hrange⟩
    rw [hnum.stoi_eq, if_neg (by omega)]

theorem stoi_decimal {n : Nat} (h : n < 2 ^ 31) : stoi (decimal n) = .ok (n : Int) := by
  refine stoi_ok_iff.2 ⟨⟨[], [], false, decimal n, [], by simp, by simp, by simp,
    decimal_ne_nil n, fun b hb => decimal_isDigit hb, by simp, ?_⟩, by omega⟩
  rw [digitsValue_decimal]
  rfl

end LinuxNet
