import SlimeServer.Proofs.Number.Numeral
import SlimeServer.Proofs.Number.Rounding
/-!
# The double of a decimal

A decimal is read as the double nearest to its value, whatever way it is written. The value of a
canonical number is read as that number.
-/
namespace SlimeServer.Numeral

section

variable {n : Nat}

theorem valueOf_append (digits more : List Char) :
    valueOf (digits ++ more) = valueOf digits * 10 ^ more.length + valueOf more := by
  induction more using List.reverseRecOn with
  | nil => simp
  | append_singleton more c ih =>
    rw [← List.append_assoc, valueOf_append_singleton, ih, valueOf_append_singleton,
      List.length_append, List.length_singleton]
    ring

theorem valueOf_zeros (n : Nat) : valueOf (List.replicate n '0') = 0 := by
  induction n with
  | zero => rfl
  | succ n ih => rw [List.replicate_succ', valueOf_append_singleton, ih]; rfl

theorem valueOf_append_zeros (digits : List Char) (n : Nat) :
    valueOf (digits ++ List.replicate n '0') = valueOf digits * 10 ^ n := by
  rw [valueOf_append, valueOf_zeros, List.length_replicate, Nat.add_zero]

theorem valueOf_zeros_append (digits : List Char) (n : Nat) :
    valueOf (List.replicate n '0' ++ digits) = valueOf digits := by
  rw [valueOf_append, valueOf_zeros, Nat.zero_mul, Nat.zero_add]

theorem isDigit_writeNat (n : Nat) : ∀ c ∈ writeNat n, isDigit c = true :=
  fun _ hc => isDigit_of_mem_writeNat hc

theorem readDigits?_writeNat (n : Nat) : readDigits? (writeNat n) = some n :=
  readDigits?_eq_some_iff.2 ⟨writeNat_ne_nil n, isDigit_writeNat n, ofDigitChars_writeNat n⟩

theorem valueOf_writeNat (n : Nat) : valueOf (writeNat n) = n := by
  have hread := readDigits?_writeNat n
  rw [readDigits?] at hread
  split at hread
  · exact Option.some.inj hread
  · cases hread

theorem writeNat_bounds (h : n ≠ 0) :
    10 ^ ((writeNat n).length - 1) ≤ n ∧ n < 10 ^ (writeNat n).length := by
  have hpos : 0 < (writeNat n).length := List.length_pos_iff.2 (writeNat_ne_nil n)
  refine ⟨?_, (Nat.length_toDigits_le_iff (by decide) hpos).1 le_rfl⟩
  rcases Nat.eq_zero_or_pos ((writeNat n).length - 1) with hone | hmore
  · rw [hone]
    exact Nat.pos_of_ne_zero h
  · have hlength : ¬ (writeNat n).length ≤ (writeNat n).length - 1 := by omega
    exact not_lt.1 fun hlt => hlength ((Nat.length_toDigits_le_iff (by decide) hmore).2 hlt)

end

end SlimeServer.Numeral

namespace SlimeServer.Double

open Numeral

section

variable {negative : Bool} {digits digits' m : Nat} {exponent exponent' e size size' : Int}
  {q : ℚ}

def quotient (digits : Nat) (exponent : Int) : Nat × Nat :=
  if 0 ≤ exponent then (digits * Nat.pow 10 exponent.toNat, 1)
  else (digits, Nat.pow 10 (-exponent).toNat)

theorem quotient_pos (digits : Nat) (exponent : Int) : 0 < (quotient digits exponent).2 := by
  rw [quotient]
  split
  · exact Nat.one_pos
  · exact Nat.pow_pos (by decide)

theorem quotient_div (digits : Nat) (exponent : Int) :
    ((quotient digits exponent).1 : ℚ) / (quotient digits exponent).2 =
      digits * 10 ^ exponent := by
  rw [quotient]
  split
  · rename_i he
    simp only [Nat.pow_eq, Nat.cast_mul, Nat.cast_pow, Nat.cast_ofNat, pow_toNat he, Nat.cast_one,
      div_one]
  · rename_i he
    simp only [Nat.pow_eq, Nat.cast_pow, Nat.cast_ofNat, pow_neg_toNat he, div_inv_eq_mul]

theorem ofDecimal_zero : ofDecimal negative 0 exponent = zero negative := rfl

theorem ofDecimal_eq (h : digits ≠ 0) : ofDecimal negative digits exponent =
    if ((writeNat digits).length : Int) + exponent > 310 then infinite negative
    else if ((writeNat digits).length : Int) + exponent < -330 then zero negative
    else ofRatio negative (quotient digits exponent).1 (quotient digits exponent).2 := by
  simp only [ofDecimal, if_neg h, quotient]
  by_cases he : 0 ≤ exponent
  · simp only [if_pos he]
  · simp only [if_neg he]

def Sized (q : ℚ) (size : Int) : Prop := 10 ^ (size - 1) ≤ q ∧ q < 10 ^ size

theorem Sized.le (h : Sized q size) (h' : Sized q size') : size ≤ size' := by
  have hlt : (10 : ℚ) ^ (size - 1) < 10 ^ size' := h.1.trans_lt h'.2
  have := (zpow_lt_zpow_iff_right₀ (by norm_num)).1 hlt
  omega

theorem sized_decimal (h : digits ≠ 0) (exponent : Int) :
    Sized (digits * 10 ^ exponent) ((writeNat digits).length + exponent) := by
  obtain ⟨hlow, hhigh⟩ := writeNat_bounds h
  have hpos : 0 < (writeNat digits).length := List.length_pos_iff.2 (writeNat_ne_nil digits)
  generalize (writeNat digits).length = count at hlow hhigh hpos
  have hten : (10 : ℚ) ≠ 0 := by norm_num
  constructor
  · obtain ⟨n, rfl⟩ : ∃ n, count = n + 1 := ⟨count - 1, by omega⟩
    have hlow' : (10 : ℚ) ^ n ≤ digits := by exact_mod_cast hlow
    rw [show ((n + 1 : Nat) : Int) + exponent - 1 = n + exponent by push_cast; ring,
      zpow_add₀ hten, zpow_natCast]
    gcongr
  · have hhigh' : (digits : ℚ) < 10 ^ count := by exact_mod_cast hhigh
    rw [zpow_add₀ hten, zpow_natCast]
    gcongr

theorem decimal_eq_zero : (digits : ℚ) * 10 ^ exponent = 0 ↔ digits = 0 := by
  rw [mul_eq_zero, or_iff_left (by positivity), Nat.cast_eq_zero]

/-- What a decimal is read as depends on its value alone. -/
theorem ofDecimal_congr (h : (digits : ℚ) * 10 ^ exponent = digits' * 10 ^ exponent') :
    ofDecimal negative digits exponent = ofDecimal negative digits' exponent' := by
  have hzero : digits = 0 ↔ digits' = 0 := by rw [← decimal_eq_zero, h, decimal_eq_zero]
  by_cases hd : digits = 0
  · rw [hd, hzero.1 hd, ofDecimal_zero, ofDecimal_zero]
  · have hd' : digits' ≠ 0 := fun h => hd (hzero.2 h)
    have hsized := sized_decimal hd exponent
    have hsized' := sized_decimal hd' exponent'
    rw [h] at hsized
    have hsize := le_antisymm (hsized.le hsized') (hsized'.le hsized)
    have hratio : ofRatio negative (quotient digits exponent).1 (quotient digits exponent).2 =
        ofRatio negative (quotient digits' exponent').1 (quotient digits' exponent').2 :=
      ofRatio_congr (quotient_pos ..) (quotient_pos ..) (by rw [quotient_div, quotient_div, h])
    rw [ofDecimal_eq hd, ofDecimal_eq hd', hsize, hratio]

theorem canonical_ofDecimal : (ofDecimal negative digits exponent).Canonical := by
  by_cases hd : digits = 0
  · rw [hd, ofDecimal_zero]
    exact canonical_zero negative
  · rw [ofDecimal_eq hd]
    split
    · trivial
    · split
      · exact canonical_zero negative
      · exact canonical_ofRatio (quotient_pos ..)

theorem ofDecimal_ne_nan : ofDecimal negative digits exponent ≠ nan := by
  by_cases hd : digits = 0
  · simp [hd, ofDecimal_zero, zero]
  · rw [ofDecimal_eq hd]
    split
    · simp
    · split
      · simp [zero]
      · exact ofRatio_ne_nan

theorem ofDecimal_eq_finite_iff : ofDecimal negative digits exponent = finite negative m e ↔
    ofDecimal false digits exponent = finite false m e := by
  by_cases hd : digits = 0
  · simp [hd, ofDecimal_zero, zero]
  · rw [ofDecimal_eq hd, ofDecimal_eq hd]
    split
    · simp
    · split
      · simp [zero]
      · exact ofRatio_eq_finite_iff

theorem ten_pow_bounds : (10 : ℚ) ^ (-330 : Int) ≤ 2 ^ (-1074 : Int) ∧
    (2 : ℚ) ^ (1024 : Int) ≤ 10 ^ (310 : Int) := by
  constructor
  · rw [zpow_neg, zpow_neg, zpow_ofNat, zpow_ofNat]
    refine inv_anti₀ (by positivity) ?_
    calc (2 : ℚ) ^ 1074 ≤ 2 ^ 1089 := pow_le_pow_right₀ (by norm_num) (by norm_num)
      _ = (2 ^ 33) ^ 33 := by rw [← pow_mul]
      _ ≤ (10 ^ 10) ^ 33 := pow_le_pow_left₀ (by norm_num) (by norm_num) 33
      _ = 10 ^ 330 := by rw [← pow_mul]
  · rw [zpow_ofNat, zpow_ofNat]
    calc (2 : ℚ) ^ 1024 ≤ 2 ^ 1025 := pow_le_pow_right₀ (by norm_num) (by norm_num)
      _ = (2 ^ 205) ^ 5 := by rw [← pow_mul]
      _ ≤ (10 ^ 62) ^ 5 := pow_le_pow_left₀ (by norm_num) (by norm_num) 5
      _ = 10 ^ 310 := by rw [← pow_mul]

theorem value_bounds (hx : (finite negative m e).Canonical) (hm : m ≠ 0) :
    (10 : ℚ) ^ (-330 : Int) ≤ m * 2 ^ e ∧ (m : ℚ) * 2 ^ e < 10 ^ (310 : Int) := by
  obtain ⟨htop, hleast, hmost, -⟩ := hx
  have hone : (1 : ℚ) ≤ m := by exact_mod_cast Nat.one_le_iff_ne_zero.2 hm
  have hhigh : (2 : ℚ) ^ (e + 53) ≤ 2 ^ (1024 : Int) :=
    zpow_le_zpow_right₀ (by norm_num) (Int.add_le_add_right hmost 53)
  constructor
  · calc (10 : ℚ) ^ (-330 : Int) ≤ 2 ^ minExponent := ten_pow_bounds.1
      _ ≤ 2 ^ e := zpow_le_zpow_right₀ (by norm_num) hleast
      _ ≤ m * 2 ^ e := le_mul_of_one_le_left (by positivity) hone
  · calc (m : ℚ) * 2 ^ e < topMantissa * 2 ^ e := by gcongr
      _ = 2 ^ (e + 53) := topMantissa_mul e
      _ ≤ 10 ^ (310 : Int) := hhigh.trans ten_pow_bounds.2

theorem ofDecimal_exact (hx : (finite negative m e).Canonical) (hm : m ≠ 0)
    (h : (digits : ℚ) * 10 ^ exponent = m * 2 ^ e) :
    ofDecimal negative digits exponent = finite negative m e := by
  obtain ⟨hlow, hhigh⟩ := value_bounds hx hm
  rw [← h] at hlow hhigh
  have hd : digits ≠ 0 := by
    rw [ne_eq, ← decimal_eq_zero, h]
    positivity
  obtain ⟨hsmall, hlarge⟩ := sized_decimal hd exponent
  have hle := (zpow_lt_zpow_iff_right₀ (by norm_num)).1 (hsmall.trans_lt hhigh)
  have hge := (zpow_lt_zpow_iff_right₀ (by norm_num)).1 (hlow.trans_lt hlarge)
  rw [ofDecimal_eq hd, if_neg (by omega), if_neg (by omega)]
  exact ofRatio_exact hx hm (quotient_pos ..) (by rw [quotient_div, h])

end

end SlimeServer.Double
