import LedMatrix.Proofs.Tables
import Mathlib.Data.Int.GCD
import Mathlib.Data.Rat.Floor
import Mathlib.Tactic.FieldSimp
import Mathlib.Tactic.GCongr
import Mathlib.Tactic.Linarith
import Mathlib.Tactic.NormNum
import Mathlib.Tactic.Positivity
import Mathlib.Tactic.Ring

/-! # Computed curves

The lightness formula has two pieces that do not meet: just above the switch the cubic is
below where the line ended. No intensity falls into that gap, so over the intensities the
luminance still never drops, and neither does what is left of it after scaling to a depth
and rounding to whole counts. None is halfway between two counts before it is rounded, but
one comes within a hundred-millionth. -/

namespace LedMatrix.Curve

/-! ## The formula in rational numbers -/

/-- The lightness that an intensity stands for, from 0 to 100. -/
def lightness (i : ℕ) : ℚ := i * 100 / 255

/-- The relative luminance of a lightness. -/
def relativeLuminance (l : ℚ) : ℚ := if l ≤ 8 then l / 902.3 else ((l + 16) / 116) ^ 3

/-- The nearest integer, a half going away from zero. -/
def roundAway (x : ℚ) : ℤ := if 0 ≤ x then ⌊x + 1 / 2⌋ else -⌊1 / 2 - x⌋

/-- The line ends at intensity 20. -/
theorem lightness_le_iff {i : ℕ} : lightness i ≤ 8 ↔ i ≤ 20 := by
  have scaled : lightness i ≤ 8 ↔ (i : ℚ) * 100 ≤ 2040 := by
    rw [lightness, div_le_iff₀ (by norm_num)]
    norm_num
  rw [scaled]
  norm_cast
  omega

theorem relativeLuminance_of_le {i : ℕ} (h : i ≤ 20) :
    relativeLuminance (lightness i) = 1000 * i / (9023 * 255) := by
  rw [relativeLuminance, if_pos (lightness_le_iff.mpr h), lightness]
  ring

theorem relativeLuminance_of_lt {i : ℕ} (h : 20 < i) :
    relativeLuminance (lightness i) = ((5 * i + 204) / 1479) ^ 3 := by
  rw [relativeLuminance, if_neg (lightness_le_iff.not.mpr (by omega)), lightness]
  ring

theorem relativeLuminance_zero : relativeLuminance (lightness 0) = 0 := by
  rw [relativeLuminance_of_le (by omega)]
  simp

theorem relativeLuminance_full : relativeLuminance (lightness 255) = 1 := by
  rw [relativeLuminance_of_lt (by omega)]
  norm_num

/-- A brighter intensity never has less luminance, though the cubic starts below the line's
end: the first intensity above the switch is already past the gap. -/
theorem relativeLuminance_mono {i j : ℕ} (hij : i ≤ j) :
    relativeLuminance (lightness i) ≤ relativeLuminance (lightness j) := by
  have hij' : (i : ℚ) ≤ j := by exact_mod_cast hij
  rcases le_or_gt j 20 with dark | bright
  · rw [relativeLuminance_of_le dark, relativeLuminance_of_le (hij.trans dark)]
    gcongr
  rw [relativeLuminance_of_lt bright]
  rcases le_or_gt i 20 with below | above
  · rw [relativeLuminance_of_le below]
    -- across the gap: the last intensity on the line against the first on the cubic
    have last : (i : ℚ) ≤ 20 := by exact_mod_cast below
    have first : (21 : ℚ) ≤ j := by exact_mod_cast bright
    calc (1000 * i / (9023 * 255) : ℚ)
        ≤ 1000 * 20 / (9023 * 255) := by gcongr
      _ ≤ ((5 * 21 + 204) / 1479) ^ 3 := by norm_num
      _ ≤ ((5 * j + 204) / 1479) ^ 3 := by gcongr
  · rw [relativeLuminance_of_lt above]
    gcongr

theorem relativeLuminance_nonneg (i : ℕ) : 0 ≤ relativeLuminance (lightness i) :=
  relativeLuminance_zero ▸ relativeLuminance_mono (Nat.zero_le i)

theorem relativeLuminance_le_one {i : ℕ} (h : i ≤ 255) : relativeLuminance (lightness i) ≤ 1 :=
  relativeLuminance_full ▸ relativeLuminance_mono h

/-! ## Rounding -/

theorem roundAway_natCast (n : ℕ) : roundAway n = n := by
  rw [roundAway, if_pos (Nat.cast_nonneg n), Int.floor_eq_iff]
  constructor <;> push_cast <;> linarith

theorem roundAway_mono {x y : ℚ} (h : x ≤ y) : roundAway x ≤ roundAway y := by
  unfold roundAway
  by_cases hx : 0 ≤ x
  · rw [if_pos hx, if_pos (hx.trans h)]
    gcongr
  rw [if_neg hx]
  by_cases hy : 0 ≤ y
  · rw [if_pos hy]
    have left : 0 ≤ ⌊1 / 2 - x⌋ := Int.floor_nonneg.mpr (by linarith)
    have right : 0 ≤ ⌊y + 1 / 2⌋ := Int.floor_nonneg.mpr (by linarith)
    omega
  · rw [if_neg hy, neg_le_neg_iff]
    gcongr

/-- The quotient of two natural numbers rounds to the integer that `nearest` finds. -/
theorem roundAway_div (num : ℕ) {den : ℕ} (h : 0 < den) :
    roundAway (num / den) = nearest num den := by
  have hd : (0 : ℚ) < den := by exact_mod_cast h
  have quotient : (num / den : ℚ) + 1 / 2 = (2 * num + den) / (2 * den) := by
    field_simp
  obtain ⟨low, high⟩ := nearest_bounds num h
  have low' : (2 * den * nearest num den : ℚ) ≤ 2 * num + den := by exact_mod_cast low
  have high' : (2 * num + den : ℚ) < 2 * den * (nearest num den + 1) := by exact_mod_cast high
  rw [roundAway, if_pos (by positivity), quotient, Int.floor_eq_iff]
  constructor
  · rw [le_div_iff₀ (by positivity), Int.cast_natCast]
    linarith
  · rw [div_lt_iff₀ (by positivity), Int.cast_natCast]
    linarith

/-! ## Counts -/

/-- The luminance of an intensity, scaled to the depth of a counter. -/
def scaledLuminance (depth i : ℕ) : ℚ := relativeLuminance (lightness i) * depth

theorem luminance_den_pos (i : ℕ) : 0 < (luminance i).2 := by
  unfold luminance
  split
  · exact Nat.mul_pos (by omega) (by omega)
  · exact Nat.pow_pos (by omega)

/-- The fraction that a count is computed from is the formula's luminance. -/
theorem luminance_eq_relativeLuminance (i : ℕ) :
    ((luminance i).1 / (luminance i).2 : ℚ) = relativeLuminance (lightness i) := by
  unfold luminance
  split
  · rw [relativeLuminance_of_le (by omega)]
    push_cast
    ring
  · rw [relativeLuminance_of_lt (by omega)]
    simp only [Nat.pow_eq]
    push_cast
    ring

theorem nearestCount_eq_roundAway (depth i : ℕ) :
    (nearestCount depth i : ℤ) = roundAway (scaledLuminance depth i) := by
  rw [nearestCount, ← roundAway_div _ (luminance_den_pos i), scaledLuminance,
    ← luminance_eq_relativeLuminance]
  congr 1
  push_cast
  ring

theorem scaledLuminance_le {depth i : ℕ} (h : i ≤ 255) : scaledLuminance depth i ≤ depth :=
  mul_le_of_le_one_left (Nat.cast_nonneg depth) (relativeLuminance_le_one h)

theorem scaledLuminance_mono {m n i j : ℕ} (hd : m ≤ n) (hi : i ≤ j) :
    scaledLuminance m i ≤ scaledLuminance n j := by
  have := relativeLuminance_nonneg j
  unfold scaledLuminance
  gcongr
  exact relativeLuminance_mono hi

/-- The counts of a computed curve are the formula's, exactly: none of them is too great for
a count's sixteen bits. -/
theorem toNat_count_cie1931 (depth : UInt16) (i : UInt8) :
    (((cie1931 depth).count i).toNat : ℤ) =
      roundAway (scaledLuminance depth.toNat i.toNat) := by
  have entry : (cie1931 depth).count i = UInt16.ofNat (nearestCount depth.toNat i.toNat) :=
    Vector.getElem_ofFn i.toFin.isLt
  have scaled : scaledLuminance depth.toNat i.toNat ≤ depth.toNat :=
    scaledLuminance_le (Nat.le_of_lt_succ i.toNat_lt)
  have bound := roundAway_mono scaled
  rw [roundAway_natCast, ← nearestCount_eq_roundAway] at bound
  have small := depth.toNat_lt
  rw [entry, UInt16.toNat_ofNat', Nat.mod_eq_of_lt (by omega), nearestCount_eq_roundAway]

/-- Counts are in the order of the luminances that they were rounded from. -/
theorem count_cie1931_le {m n : UInt16} {i j : UInt8} (hd : m ≤ n) (hi : i ≤ j) :
    (cie1931 m).count i ≤ (cie1931 n).count j := by
  rw [UInt16.le_iff_toNat_le, ← Int.ofNat_le, toNat_count_cie1931, toNat_count_cie1931]
  exact roundAway_mono (scaledLuminance_mono hd hi)

theorem count_cie1931_zero (depth : UInt16) : (cie1931 depth).count 0 = 0 := by
  rw [← UInt16.toNat_inj, ← Int.ofNat_inj, toNat_count_cie1931]
  norm_num [scaledLuminance, relativeLuminance_zero, roundAway]

theorem peak_cie1931 (depth : UInt16) : (cie1931 depth).peak = depth := by
  rw [peak, ← UInt16.toNat_inj, ← Int.ofNat_inj, toNat_count_cie1931]
  simp [scaledLuminance, relativeLuminance_full, roundAway_natCast]

theorem rising_cie1931 (depth : UInt16) : Rising (cie1931 depth).counts := by
  refine rising_iff_ordered.mpr ⟨count_cie1931_zero depth, fun a b hab => ?_⟩
  exact count_cie1931_le (i := UInt8.ofFin a) (j := UInt8.ofFin b) (UInt16.le_refl depth) hab

/-! ## How near a luminance comes to a half -/

/-- A fraction is as far from a half as twice its numerator is from an odd multiple of its
denominator. -/
theorem le_abs_sub_halfway {num k gap : ℤ} {den : ℕ} (h : 0 < den)
    (apart : gap ≤ |2 * num - (2 * k + 1) * den|) :
    (gap / (2 * den) : ℚ) ≤ |(num / den : ℚ) - (k + 1 / 2)| := by
  have hd : (0 : ℚ) < 2 * den := by positivity
  have cleared : (num / den : ℚ) - (k + 1 / 2) =
      ((2 * num - (2 * k + 1) * den : ℤ) : ℚ) / (2 * den) := by
    push_cast
    field_simp
  rw [cleared, abs_div, abs_of_pos hd, ← Int.cast_abs]
  gcongr

/-- Bézout's coefficient leads from a remainder back to the factor that left it. -/
theorem emod_gcdA_le (a n d : ℕ) (k : ℤ) :
    (a * d - k * n) * a.gcdA n % n ≤ a.gcd n * d := by
  have split : (a * d - k * n) * a.gcdA n =
      a.gcd n * d + n * -(d * a.gcdB n + k * a.gcdA n) := by
    rw [Nat.gcd_eq_gcd_ab]
    ring
  rw [split, Int.add_mul_emod_self_left]
  exact_mod_cast Nat.mod_le (a.gcd n * d) n

/-- Twice the numerator of the cubic over `1479 ^ 3`. -/
def twiceCube (i : ℕ) : ℕ := 2 * (5 * i + 204) ^ 3

/-- Odd remainders below 63 come from factors of more than sixteen bits, if from any. -/
theorem factor_of_small_remainder : ∀ (i : Fin 235) (j : Fin 62),
    let a := twiceCube (i + 21)
    let m : ℤ := 2 * j - 61
    (a.gcd 3235225239 : ℤ) ∣ m →
      a.gcd 3235225239 * 65536 ≤ m * a.gcdA 3235225239 % 3235225239 := by
  decide +kernel

theorem twiceCube_gap {i d : ℕ} (bright : 20 < i) (hi : i ≤ 255) (hd : d < 65536) (k : ℤ) :
    63 ≤ |twiceCube i * d - (2 * k + 1) * (3235225239 : ℕ)| := by
  have gcd_pos : 0 < (twiceCube i).gcd 3235225239 := Nat.gcd_pos_of_pos_right _ (by decide)
  have divides : ((twiceCube i).gcd 3235225239 : ℤ) ∣
      twiceCube i * d - (2 * k + 1) * (3235225239 : ℕ) :=
    dvd_sub (dvd_mul_of_dvd_left (Int.natCast_dvd_natCast.mpr (Nat.gcd_dvd_left _ _)) _)
      (dvd_mul_of_dvd_right (Int.natCast_dvd_natCast.mpr (Nat.gcd_dvd_right _ _)) _)
  have back := emod_gcdA_le (twiceCube i) 3235225239 d (2 * k + 1)
  have odd : (twiceCube i * d - (2 * k + 1) * (3235225239 : ℕ) : ℤ) % 2 = 1 := by
    rw [twiceCube]
    push_cast
    rw [mul_assoc]
    omega
  generalize (twiceCube i * d - (2 * k + 1) * (3235225239 : ℕ) : ℤ) = m at *
  by_contra small
  obtain ⟨low, high⟩ := abs_lt.mp (not_le.mp small)
  have listed := factor_of_small_remainder ⟨i - 21, by omega⟩ ⟨((m + 61) / 2).toNat, by omega⟩
  simp only at listed
  rw [show i - 21 + 21 = i by omega, show (2 * ((m + 61) / 2).toNat - 61 : ℤ) = m by omega]
    at listed
  have factor : ((twiceCube i).gcd 3235225239 * 65536 : ℤ) ≤ (twiceCube i).gcd 3235225239 * d :=
    (listed divides).trans back
  have : 65536 ≤ d := Nat.le_of_mul_le_mul_left (by exact_mod_cast factor) gcd_pos
  omega

/-- No luminance that is scaled to sixteen bits comes nearer to a half. -/
theorem scaledLuminance_gap {depth i : ℕ} (hd : depth < 65536) (hi : i ≤ 255) (k : ℤ) :
    7 / 718938942 ≤ |scaledLuminance depth i - (k + 1 / 2)| := by
  rcases le_or_gt i 20 with dark | bright
  · -- the denominator of the line is odd, and small
    have apart : 1 ≤ |2 * (1000 * i * depth : ℤ) - (2 * k + 1) * (2300865 : ℕ)| :=
      Int.one_le_abs (by push_cast; omega)
    have far := le_abs_sub_halfway (by decide) apart
    rw [scaledLuminance, relativeLuminance_of_le dark]
    refine le_trans (by norm_num) (far.trans_eq ?_)
    congr 2
    push_cast
    ring
  · have apart : 63 ≤ |2 * ((5 * i + 204) ^ 3 * depth : ℤ) - (2 * k + 1) * (3235225239 : ℕ)| := by
      simpa [twiceCube, mul_assoc] using twiceCube_gap bright hi hd k
    have far := le_abs_sub_halfway (by decide) apart
    rw [scaledLuminance, relativeLuminance_of_lt bright]
    refine le_trans (by norm_num) (far.trans_eq ?_)
    congr 2
    push_cast
    ring

/-- The nearest of all, on a counter that ends at 43704. -/
theorem scaledLuminance_gap_attained :
    |scaledLuminance 43704 182 - (18675 + 1 / 2)| = 7 / 718938942 := by
  rw [scaledLuminance, relativeLuminance_of_lt (by omega)]
  norm_num

/-! ## Computed curves -/

/-- A computed curve's counts are the luminance formula's, rounded in exact arithmetic; the
nearest that one comes to a half is `7 / 718938942`. The curve starts dark, ends at its depth
and never falls, as a table must, and a deeper counter shows no intensity with fewer counts. -/
theorem computed_curves_rise :
    (∀ depth : UInt16,
      (∀ i : UInt8,
        let exact := relativeLuminance (i.toNat * 100 / 255) * depth.toNat
        (∀ k : ℤ, 7 / 718938942 ≤ |exact - (k + 1 / 2)|) ∧
          0 ≤ roundAway exact ∧ roundAway exact ≤ depth.toNat ∧
          (((cie1931 depth).count i).toNat : ℤ) = roundAway exact) ∧
      (cie1931 depth).count 0 = 0 ∧ (cie1931 depth).peak = depth ∧
      (∀ i j : UInt8, i ≤ j → (cie1931 depth).count i ≤ (cie1931 depth).count j) ∧
      (∀ i : UInt8, (cie1931 depth).count i ≤ depth) ∧
      ofCounts? (cie1931 depth).counts = some (cie1931 depth)) ∧
    (∀ m n : UInt16, m ≤ n → ∀ i : UInt8, (cie1931 m).count i ≤ (cie1931 n).count i) ∧
    |relativeLuminance (182 * 100 / 255) * 43704 - (18675 + 1 / 2)| = 7 / 718938942 := by
  refine ⟨fun depth => ?_, fun m n deeper i => count_cie1931_le deeper (UInt8.le_refl i),
    scaledLuminance_gap_attained⟩
  have rising := rising_cie1931 depth
  have below (i : UInt8) : (cie1931 depth).count i ≤ depth :=
    (rising.count_le_peak i).trans_eq (peak_cie1931 depth)
  refine ⟨fun i => ?_, count_cie1931_zero depth, peak_cie1931 depth,
    fun i j => rising.count_le, below, ofCounts?_eq_some_iff.mpr ⟨rising, rfl⟩⟩
  have exact := toNat_count_cie1931 depth i
  have bound : ((cie1931 depth).count i).toNat ≤ depth.toNat := below i
  refine ⟨scaledLuminance_gap depth.toNat_lt (Nat.le_of_lt_succ i.toNat_lt), ?_, ?_, exact⟩
  · exact exact ▸ Int.natCast_nonneg _
  · exact exact ▸ Int.ofNat_le.mpr bound

/-- A counter of twelve bits around the switch: the cubic starts below the line's end, and the
curve rises all the same; a counter of fourteen bits shows both intensities brighter. -/
theorem computed_curves_rise_twelve_bits :
    ((8 + 16) / 116) ^ 3 < relativeLuminance 8 ∧
      (20 : UInt8) ≤ 21 ∧ (cie1931 4095).count 20 ≤ (cie1931 4095).count 21 ∧
      (4095 : UInt16) ≤ 16383 ∧ (cie1931 4095).count 20 ≤ (cie1931 16383).count 20 := by
  obtain ⟨curves, deeper, -⟩ := computed_curves_rise
  obtain ⟨-, -, -, rises, -⟩ := curves 4095
  refine ⟨?_, by decide, rises 20 21 (by decide), by decide, deeper 4095 16383 (by decide) 20⟩
  norm_num [relativeLuminance]

/-- A margin of `1 / 10 ^ 8` around the halves is too much to ask. -/
theorem luminance_within_margin_of_half :
    ¬∀ (depth : UInt16) (i : UInt8) (k : ℤ),
      1 / 10 ^ 8 ≤ |relativeLuminance (i.toNat * 100 / 255) * depth.toNat - (k + 1 / 2)| := by
  intro margin
  have nearest : (1 / 10 ^ 8 : ℚ) ≤ |scaledLuminance 43704 182 - (18675 + 1 / 2)| :=
    margin 43704 182 18675
  rw [scaledLuminance_gap_attained] at nearest
  norm_num at nearest

end LedMatrix.Curve
