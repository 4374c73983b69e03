import Mathlib.Algebra.Order.Field.Power
import Mathlib.Algebra.Order.Ring.Unbundled.Rat
import Mathlib.Tactic.FieldSimp
import Mathlib.Tactic.Linarith
import Mathlib.Tactic.Positivity
import Mathlib.Tactic.Ring
import SlimeServer.Number.Double
/-!
# The double nearest to a quotient

What a quotient is rounded to depends on its value alone, is canonical, and is the quotient itself
where that is the value of a canonical number.
-/
namespace SlimeServer.Double

section

variable {a b c d k : Nat}

theorem roundDiv_mul_right (hc : 0 < c) : roundDiv (a * c) (b * c) = roundDiv a b := by
  have hdiv : a * c / (b * c) = a / b := Nat.mul_div_mul_right a b hc
  have hmod : 2 * (a * c % (b * c)) = 2 * (a % b) * c := by
    rw [Nat.mul_mod_mul_right, Nat.mul_assoc]
  simp only [roundDiv, hdiv, hmod, gt_iff_lt, Nat.mul_lt_mul_right hc, Nat.mul_left_inj hc.ne']

theorem roundDiv_congr (hb : 0 < b) (hd : 0 < d) (h : (a : ℚ) / b = c / d) :
    roundDiv a b = roundDiv c d := by
  have hb' : (b : ℚ) ≠ 0 := by exact_mod_cast hb.ne'
  have hd' : (d : ℚ) ≠ 0 := by exact_mod_cast hd.ne'
  have hcross : a * d = c * b := by exact_mod_cast (div_eq_div_iff hb' hd').1 h
  calc roundDiv a b = roundDiv (a * d) (b * d) := (roundDiv_mul_right hd).symm
    _ = roundDiv (c * b) (d * b) := by rw [hcross, Nat.mul_comm b d]
    _ = roundDiv c d := roundDiv_mul_right hb

theorem roundDiv_one (a : Nat) : roundDiv a 1 = a := by
  simp [roundDiv, Nat.mod_one]

theorem le_roundDiv (hb : 0 < b) (h : k * b ≤ a) : k ≤ roundDiv a b := by
  have hfloor : k ≤ a / b := (Nat.le_div_iff_mul_le hb).2 h
  simp only [roundDiv]
  split <;> omega

theorem roundDiv_le (hb : 0 < b) (h : a ≤ k * b) : roundDiv a b ≤ k := by
  have hfloor : a / b ≤ k := Nat.div_le_of_le_mul (Nat.mul_comm k b ▸ h)
  rcases Nat.lt_or_eq_of_le hfloor with hlt | heq
  · simp only [roundDiv]
    split <;> omega
  · -- Nothing is left over where the quotient is the bound itself.
    have hmod : a % b = 0 := by
      have hsplit := Nat.div_add_mod' a b
      rw [heq] at hsplit
      omega
    simp only [roundDiv, hmod, heq]
    split <;> omega

end

section

variable {num den k : Nat} {e f : Int} {q : ℚ}

theorem scaled_pos (hd : 0 < den) (num : Nat) (e : Int) : 0 < (scaled num den e).2 := by
  rw [scaled]
  split
  · exact Nat.mul_pos hd (Nat.pow_pos (by decide))
  · exact hd

theorem pow_toNat (he : 0 ≤ e) (b : ℚ) : b ^ e.toNat = b ^ e := by
  rw [← zpow_natCast, Int.toNat_of_nonneg he]

theorem pow_neg_toNat (he : ¬ 0 ≤ e) (b : ℚ) : b ^ (-e).toNat = (b ^ e)⁻¹ := by
  rw [← zpow_natCast, Int.toNat_of_nonneg (by omega), zpow_neg]

theorem scaled_div (num den : Nat) (e : Int) :
    ((scaled num den e).1 : ℚ) / (scaled num den e).2 = num / den / 2 ^ e := by
  rw [scaled]
  split
  · rename_i he
    simp only [Nat.pow_eq, Nat.cast_mul, Nat.cast_pow, Nat.cast_ofNat, pow_toNat he, div_div]
  · rename_i he
    simp only [Nat.pow_eq, Nat.cast_mul, Nat.cast_pow, Nat.cast_ofNat, pow_neg_toNat he]
    ring

theorem scaled_lt_iff (hd : 0 < den) :
    (scaled num den e).1 < k * (scaled num den e).2 ↔ (num : ℚ) / den < k * 2 ^ e := by
  have hpos : (0 : ℚ) < (scaled num den e).2 := by exact_mod_cast scaled_pos hd num e
  have htwo : (0 : ℚ) < 2 ^ e := by positivity
  rw [← div_lt_iff₀ htwo, ← scaled_div, div_lt_iff₀ hpos]
  exact_mod_cast Iff.rfl

theorem le_scaled_iff (hd : 0 < den) :
    k * (scaled num den e).2 ≤ (scaled num den e).1 ↔ k * 2 ^ e ≤ (num : ℚ) / den := by
  rw [← not_lt, scaled_lt_iff hd, not_lt]

/-- At this exponent a number is rounded: it has 53 bits before the point, or fewer at the least
exponent. -/
structure Fits (q : ℚ) (e : Int) : Prop where
  least : minExponent ≤ e
  below : q < topMantissa * 2 ^ e
  full : leastMantissa * 2 ^ e ≤ q ∨ e = minExponent

theorem leastMantissa_mul (e : Int) : (leastMantissa : ℚ) * 2 ^ e = 2 ^ (e + 52) := by
  rw [zpow_add₀ (by norm_num), mul_comm, leastMantissa]
  norm_num

theorem topMantissa_mul (e : Int) : (topMantissa : ℚ) * 2 ^ e = 2 ^ (e + 53) := by
  rw [zpow_add₀ (by norm_num), mul_comm, topMantissa]
  norm_num

theorem Fits.le (h : Fits q e) (hf : Fits q f) : e ≤ f := by
  rcases h.full with hfull | hmin
  · have hlt : (2 : ℚ) ^ (e + 52) < 2 ^ (f + 53) := by
      rw [← leastMantissa_mul, ← topMantissa_mul]
      exact hfull.trans_lt hf.below
    have := (zpow_lt_zpow_iff_right₀ (by norm_num)).1 hlt
    omega
  · rw [hmin]
    exact hf.least

theorem Fits.unique (h : Fits q e) (hf : Fits q f) : e = f := le_antisymm (h.le hf) (hf.le h)

/-- By the bits of numerator and denominator the exponent is known but for one. -/
theorem log2_bounds (hn : num ≠ 0) (hd : den ≠ 0) :
    (2 : ℚ) ^ ((num.log2 : Int) - den.log2 - 1) < num / den ∧
      (num : ℚ) / den < 2 ^ ((num.log2 : Int) - den.log2 + 1) := by
  have hnlow : (2 : ℚ) ^ (num.log2 : Int) ≤ num := by exact_mod_cast Nat.log2_self_le hn
  have hnhigh : (num : ℚ) < 2 ^ ((num.log2 : Int) + 1) := by
    exact_mod_cast (Nat.lt_log2_self : num < 2 ^ (num.log2 + 1))
  have hdlow : (2 : ℚ) ^ (den.log2 : Int) ≤ den := by exact_mod_cast Nat.log2_self_le hd
  have hdhigh : (den : ℚ) < 2 ^ ((den.log2 : Int) + 1) := by
    exact_mod_cast (Nat.lt_log2_self : den < 2 ^ (den.log2 + 1))
  have hpos : (0 : ℚ) < den := by exact_mod_cast Nat.pos_of_ne_zero hd
  constructor
  · rw [lt_div_iff₀ hpos]
    calc (2 : ℚ) ^ ((num.log2 : Int) - den.log2 - 1) * den
        < 2 ^ ((num.log2 : Int) - den.log2 - 1) * 2 ^ ((den.log2 : Int) + 1) := by gcongr
      _ = 2 ^ (num.log2 : Int) := by rw [← zpow_add₀ (by norm_num)]; congr 1; ring
      _ ≤ num := hnlow
  · rw [div_lt_iff₀ hpos]
    calc (num : ℚ) < 2 ^ ((num.log2 : Int) + 1) := hnhigh
      _ = 2 ^ ((num.log2 : Int) - den.log2 + 1) * 2 ^ (den.log2 : Int) := by
        rw [← zpow_add₀ (by norm_num)]; congr 1; ring
      _ ≤ 2 ^ ((num.log2 : Int) - den.log2 + 1) * den := by gcongr

theorem exponentFor_eq {guess : Int} (h : (num.log2 : Int) - den.log2 - 52 = guess) :
    exponentFor num den =
      max (if (scaled num den guess).1 < (scaled num den guess).2 * leastMantissa
        then guess - 1 else guess) minExponent := by
  rw [exponentFor, h]

theorem exists_full_exponent (hn : num ≠ 0) (hd : 0 < den) :
    ∃ e, exponentFor num den = max e minExponent ∧
      (2 : ℚ) ^ (e + 52) ≤ num / den ∧ (num : ℚ) / den < 2 ^ (e + 53) := by
  obtain ⟨hlow, hhigh⟩ := log2_bounds hn hd.ne'
  obtain ⟨guess, hguess⟩ : ∃ guess, (num.log2 : Int) - den.log2 - 52 = guess := ⟨_, rfl⟩
  rw [show (num.log2 : Int) - den.log2 - 1 = guess + 51 by omega] at hlow
  rw [show (num.log2 : Int) - den.log2 + 1 = guess + 53 by omega] at hhigh
  refine ⟨_, exponentFor_eq hguess, ?_⟩
  split
  · rename_i hlt
    rw [Nat.mul_comm, scaled_lt_iff hd, leastMantissa_mul] at hlt
    rw [show guess - 1 + 53 = guess + 52 by ring, show guess - 1 + 52 = guess + 51 by ring]
    exact ⟨hlow.le, hlt⟩
  · rename_i hlt
    rw [Nat.mul_comm, scaled_lt_iff hd, leastMantissa_mul] at hlt
    exact ⟨not_lt.1 hlt, hhigh⟩

theorem fits_exponentFor (hn : num ≠ 0) (hd : 0 < den) :
    Fits (num / den) (exponentFor num den) := by
  obtain ⟨e, he, hfull, hbelow⟩ := exists_full_exponent hn hd
  rw [he]
  refine ⟨le_max_right _ _, ?_, ?_⟩
  · rw [topMantissa_mul]
    exact hbelow.trans_le (zpow_le_zpow_right₀ (by norm_num) (by omega))
  · rcases le_total minExponent e with hle | hle
    · rw [max_eq_left hle, leastMantissa_mul]
      exact .inl hfull
    · exact .inr (max_eq_right hle)

end

def bounded (negative : Bool) (m : Nat) (e : Int) : Double :=
  if e > maxExponent then infinite negative else finite negative m e

/-- The double of a rounded mantissa. Where rounding has carried it to the next power of two, the
exponent grows by one. -/
def carried (negative : Bool) (m : Nat) (e : Int) : Double :=
  if m = topMantissa then bounded negative leastMantissa (e + 1) else bounded negative m e

section

variable {negative : Bool} {num den num' den' m : Nat} {e : Int}

theorem ofRatio_zero : ofRatio negative 0 den = zero negative := rfl

theorem ofRatio_eq (hn : num ≠ 0) : ofRatio negative num den =
    carried negative (roundDiv (scaled num den (exponentFor num den)).1
      (scaled num den (exponentFor num den)).2) (exponentFor num den) := by
  -- The exponent must stay closed: its comparison would be computed in unary.
  obtain ⟨e, he⟩ : ∃ e, exponentFor num den = e := ⟨_, rfl⟩
  rw [ofRatio, if_neg hn, carried, he]
  dsimp only
  split <;> rw [bounded]

theorem div_eq_zero (hd : 0 < den) : (num : ℚ) / den = 0 ↔ num = 0 := by
  have hden : (den : ℚ) ≠ 0 := by exact_mod_cast hd.ne'
  rw [div_eq_zero_iff, or_iff_left hden, Nat.cast_eq_zero]

theorem ofRatio_congr (hd : 0 < den) (hd' : 0 < den') (h : (num : ℚ) / den = num' / den') :
    ofRatio negative num den = ofRatio negative num' den' := by
  have hzero : num = 0 ↔ num' = 0 := by rw [← div_eq_zero hd, h, div_eq_zero hd']
  by_cases hn : num = 0
  · rw [hn, hzero.1 hn, ofRatio_zero, ofRatio_zero]
  · have hn' : num' ≠ 0 := fun h => hn (hzero.2 h)
    have he : exponentFor num den = exponentFor num' den' :=
      (fits_exponentFor hn hd).unique (h ▸ fits_exponentFor hn' hd')
    have hround := roundDiv_congr (scaled_pos hd ..) (scaled_pos hd' ..)
      (by rw [scaled_div, scaled_div, h] :
        ((scaled num den (exponentFor num den)).1 : ℚ) / (scaled num den (exponentFor num den)).2 =
          (scaled num' den' (exponentFor num den)).1 / (scaled num' den' (exponentFor num den)).2)
    rw [ofRatio_eq hn, ofRatio_eq hn', hround, he]

/-- A quotient that is the value of a canonical number is rounded to it. -/
theorem ofRatio_exact (hx : (finite negative m e).Canonical) (hm : m ≠ 0) (hd : 0 < den)
    (h : (num : ℚ) / den = m * 2 ^ e) : ofRatio negative num den = finite negative m e := by
  obtain ⟨htop, hleast, hmost, hfull⟩ := hx
  have hn : num ≠ 0 := by
    rw [ne_eq, ← div_eq_zero hd, h]
    positivity
  have hfits : Fits (num / den) e := by
    rw [h]
    have htwo : (0 : ℚ) < 2 ^ e := by positivity
    refine ⟨hleast, ?_, hfull.imp_left fun hfull => ?_⟩
    · gcongr
    · gcongr
  have he : exponentFor num den = e := (fits_exponentFor hn hd).unique hfits
  have hround : roundDiv (scaled num den e).1 (scaled num den e).2 = m := by
    rw [← roundDiv_one m]
    refine roundDiv_congr (scaled_pos hd ..) Nat.one_pos ?_
    rw [scaled_div, h, Nat.cast_one, div_one, mul_div_assoc, div_self (by positivity), mul_one]
  rw [ofRatio_eq hn, he, hround, carried, if_neg htop.ne, bounded, if_neg (not_lt.2 hmost)]

theorem canonical_zero (negative : Bool) : (zero negative).Canonical := by
  cases negative <;> decide

theorem canonical_bounded (htop : m < topMantissa) (hmin : minExponent ≤ e)
    (hfull : leastMantissa ≤ m ∨ e = minExponent) : (bounded negative m e).Canonical := by
  rw [bounded]
  split
  · trivial
  · rename_i hmost
    exact ⟨htop, hmin, not_lt.1 hmost, hfull⟩

theorem canonical_carried (hle : m ≤ topMantissa) (hmin : minExponent ≤ e)
    (hfull : leastMantissa ≤ m ∨ e = minExponent) : (carried negative m e).Canonical := by
  rw [carried]
  split
  · exact canonical_bounded (by decide) (hmin.trans (by omega)) (.inl le_rfl)
  · rename_i htop
    exact canonical_bounded (lt_of_le_of_ne hle htop) hmin hfull

theorem canonical_ofRatio (hd : 0 < den) : (ofRatio negative num den).Canonical := by
  by_cases hn : num = 0
  · rw [hn, ofRatio_zero]
    exact canonical_zero negative
  · have hfits := fits_exponentFor hn hd
    have hpos := scaled_pos hd num (exponentFor num den)
    rw [ofRatio_eq hn]
    refine canonical_carried ?_ hfits.least (hfits.full.imp_left fun hfull => ?_)
    · exact roundDiv_le hpos ((scaled_lt_iff hd).2 hfits.below).le
    · exact le_roundDiv hpos ((le_scaled_iff hd).2 hfull)

theorem bounded_ne_nan : bounded negative m e ≠ nan := by
  rw [bounded]
  split <;> simp

theorem ofRatio_ne_nan : ofRatio negative num den ≠ nan := by
  by_cases hn : num = 0
  · rw [hn, ofRatio_zero, zero]
    simp
  · rw [ofRatio_eq hn, carried]
    split <;> exact bounded_ne_nan

theorem ofRatio_eq_finite_iff : ofRatio negative num den = finite negative m e ↔
    ofRatio false num den = finite false m e := by
  by_cases hn : num = 0
  · simp [hn, ofRatio_zero, zero]
  · rw [ofRatio_eq hn, ofRatio_eq hn, carried, carried, bounded, bounded, bounded, bounded]
    split <;> split <;> simp

end

end SlimeServer.Double
