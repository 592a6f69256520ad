import TerraIndex.Number.Binary64
import Mathlib.Algebra.Order.Field.Power
import Mathlib.Data.Nat.Cast.Field
import Mathlib.Data.Rat.Cast.Order
import Mathlib.Tactic.FieldSimp
import Mathlib.Tactic.Linarith
import Mathlib.Tactic.Positivity
/-!
# Rounding to the nearest number

`ofRatio` depends on the value of a fraction alone (`ofRatio_congr`), and it gives back every number
that is nearer to the fraction than a part in `2 ^ 54` (`ofRatio_near`). Just below a power of two
the grid is twice as fine as above it; there a fraction near that power is scaled by one power less
and its significand rounds up to `2 ^ 53`.
-/

namespace TerraIndex.Binary64

theorem divNearest_mul_right (n d : ℕ) {k : ℕ} (hk : 0 < k) :
    divNearest (n * k) (d * k) = divNearest n d := by
  have hgt : (2 * (n % d * k) > d * k) ↔ 2 * (n % d) > d := by
    rw [← Nat.mul_assoc]
    exact Nat.mul_lt_mul_right hk
  have heq : (2 * (n % d * k) = d * k) ↔ 2 * (n % d) = d := by
    rw [← Nat.mul_assoc]
    exact Nat.mul_left_inj hk.ne'
  simp only [divNearest, Nat.mul_div_mul_right n d hk, Nat.mul_mod_mul_right, hgt, beq_eq_decide,
    heq]

/-- The nearest integer depends on the value of the fraction alone. -/
theorem divNearest_congr {n d n' d' : ℕ} (hd : 0 < d) (hd' : 0 < d') (h : n * d' = n' * d) :
    divNearest n d = divNearest n' d' := by
  rw [← divNearest_mul_right n d hd', h, Nat.mul_comm d d', divNearest_mul_right n' d' hd]

/-- An integer less than one half away is the nearest one. -/
theorem divNearest_eq {n d s : ℕ} (hd : 0 < d) (h : |(n : ℚ) / d - s| < 1 / 2) :
    divNearest n d = s := by
  have hd' : (0 : ℚ) < d := by exact_mod_cast hd
  rw [abs_lt, sub_lt_iff_lt_add, lt_sub_iff_add_lt, div_lt_iff₀ hd', lt_div_iff₀ hd'] at h
  have hbelow : 2 * (s * d) < 2 * n + d := by
    have : (2 * (s * d) : ℚ) < 2 * n + d := by linarith [h.1]
    exact_mod_cast this
  have habove : 2 * n < 2 * (s * d) + d := by
    have : (2 * n : ℚ) < 2 * (s * d) + d := by linarith [h.2]
    exact_mod_cast this
  have hdivmod := Nat.div_add_mod n d
  have hmod := Nat.mod_lt n hd
  rw [Nat.mul_comm] at hdivmod
  rcases lt_trichotomy (n / d) s with hlt | heq | hgt
  · have hle : (n / d + 1) * d ≤ s * d := Nat.mul_le_mul_right d hlt
    rcases Nat.lt_or_ge (n / d + 1) s with hlt' | hge
    · have hle' : (n / d + 2) * d ≤ s * d := Nat.mul_le_mul_right d hlt'
      rw [Nat.add_mul] at hle'
      omega
    · have hs : n / d + 1 = s := by omega
      have hup : 2 * (n % d) > d := by
        rw [← hs, Nat.add_mul] at hbelow
        omega
      rw [divNearest]
      simp [hup, hs]
  · rw [heq] at hdivmod
    have hdown : 2 * (n % d) < d := by omega
    rw [divNearest]
    simp [heq, hdown.not_gt, hdown.ne]
  · have hle : (s + 1) * d ≤ n / d * d := Nat.mul_le_mul_right d hgt
    rw [Nat.add_mul] at hle
    omega

section Scaling

theorem cast_twoTo (n : ℕ) : (twoTo n : ℚ) = 2 ^ n := by
  rw [twoTo, Nat.pow_eq, Nat.cast_pow]
  rfl

theorem unscale_pos (num : ℕ) {den : ℕ} (hden : 0 < den) (power : ℤ) :
    0 < (unscale num den power).2 := by
  unfold unscale
  split_ifs
  · exact hden
  · exact Nat.mul_pos hden (Nat.two_pow_pos _)

theorem unscale_div (num den : ℕ) (power : ℤ) :
    ((unscale num den power).1 : ℚ) / (unscale num den power).2 = num / den / 2 ^ power := by
  unfold unscale
  split_ifs with h
  · obtain ⟨k, rfl⟩ : ∃ k : ℕ, power = -k := ⟨(-power).toNat, by omega⟩
    rw [neg_neg, Int.toNat_natCast, zpow_neg, zpow_natCast, div_inv_eq_mul, Nat.cast_mul,
      cast_twoTo, div_mul_eq_mul_div]
  · obtain ⟨k, rfl⟩ : ∃ k : ℕ, power = k := ⟨power.toNat, by omega⟩
    rw [Int.toNat_natCast, zpow_natCast, Nat.cast_mul, cast_twoTo, div_div]

/-- The power of two that leaves a number a 53-bit integer part. -/
def Scales (q : ℚ) (p : ℤ) : Prop := 2 ^ (52 + p) ≤ q ∧ q < 2 ^ (53 + p)

theorem scales_iff {q : ℚ} {p : ℤ} : Scales q p ↔ 2 ^ 52 ≤ q / 2 ^ p ∧ q / 2 ^ p < 2 ^ 53 := by
  have hpow : (0 : ℚ) < 2 ^ p := by positivity
  rw [Scales, le_div_iff₀ hpow, div_lt_iff₀ hpow, zpow_add₀ (by norm_num), zpow_add₀ (by norm_num)]
  rfl

theorem div_two_zpow_sub_one (q : ℚ) (p : ℤ) : q / 2 ^ (p - 1) = 2 * (q / 2 ^ p) := by
  rw [zpow_sub_one₀ (by norm_num)]
  field_simp

theorem Scales.unique {q : ℚ} {p p' : ℤ} (h : Scales q p) (h' : Scales q p') : p = p' := by
  have hle : ∀ {a b : ℤ}, Scales q a → Scales q b → a ≤ b := by
    intro a b ha hb
    have hlt := (zpow_lt_zpow_iff_right₀ (by norm_num : (1 : ℚ) < 2)).mp (ha.1.trans_lt hb.2)
    omega
  exact le_antisymm (hle h h') (hle h' h)

/-- A number lies between the powers of two that its logarithm stands for. -/
theorem between_log2 {n : ℕ} (hn : 0 < n) :
    (2 : ℚ) ^ (Nat.log2 n : ℤ) ≤ n ∧ (n : ℚ) < 2 ^ ((Nat.log2 n : ℤ) + 1) := by
  have hlt : n < 2 ^ (Nat.log2 n + 1) := Nat.lt_log2_self
  have hle : 2 ^ Nat.log2 n ≤ n := Nat.log2_self_le hn.ne'
  exact ⟨by rw [zpow_natCast]; exact_mod_cast hle, by exact_mod_cast hlt⟩

theorem between_log2_div {num den : ℕ} (hnum : 0 < num) (hden : 0 < den) :
    (2 : ℚ) ^ ((Nat.log2 num : ℤ) - Nat.log2 den - 1) < num / den
      ∧ (num / den : ℚ) < 2 ^ ((Nat.log2 num : ℤ) - Nat.log2 den + 1) := by
  obtain ⟨hnumLow, hnumHigh⟩ := between_log2 hnum
  obtain ⟨hdenLow, hdenHigh⟩ := between_log2 hden
  have hden' : (0 : ℚ) < den := by exact_mod_cast hden
  have hlow : (0 : ℚ) < 2 ^ ((Nat.log2 num : ℤ) - Nat.log2 den - 1) := by positivity
  have hhigh : (0 : ℚ) < 2 ^ ((Nat.log2 num : ℤ) - Nat.log2 den + 1) := by positivity
  rw [lt_div_iff₀ hden', div_lt_iff₀ hden']
  constructor
  · calc (2 : ℚ) ^ ((Nat.log2 num : ℤ) - Nat.log2 den - 1) * den
        < 2 ^ ((Nat.log2 num : ℤ) - Nat.log2 den - 1) * 2 ^ ((Nat.log2 den : ℤ) + 1) :=
          mul_lt_mul_of_pos_left hdenHigh hlow
      _ = 2 ^ (Nat.log2 num : ℤ) := by
          rw [← zpow_add₀ (by norm_num)]
          congr 1
          omega
      _ ≤ num := hnumLow
  · calc (num : ℚ) < 2 ^ ((Nat.log2 num : ℤ) + 1) := hnumHigh
      _ = 2 ^ ((Nat.log2 num : ℤ) - Nat.log2 den + 1) * 2 ^ (Nat.log2 den : ℤ) := by
          rw [← zpow_add₀ (by norm_num)]
          congr 1
          omega
      _ ≤ 2 ^ ((Nat.log2 num : ℤ) - Nat.log2 den + 1) * den :=
          mul_le_mul_of_nonneg_left hdenLow hhigh.le

theorem exists_scales {num den : ℕ} (hnum : 0 < num) (hden : 0 < den) :
    ∃ p, Scales (num / den) p ∧ scaleOf num den = max p (-1074) := by
  obtain ⟨hlow, hhigh⟩ := between_log2_div hnum hden
  generalize hguess : (Nat.log2 num : ℤ) - Nat.log2 den - 52 = guess at *
  have hlow' : (2 : ℚ) ^ (51 + guess) < num / den := by
    rwa [show 51 + guess = (Nat.log2 num : ℤ) - Nat.log2 den - 1 by omega]
  have hhigh' : (num / den : ℚ) < 2 ^ (53 + guess) := by
    rwa [show 53 + guess = (Nat.log2 num : ℤ) - Nat.log2 den + 1 by omega]
  have hpos : (0 : ℚ) < 2 ^ guess := by positivity
  have hcompare : (unscale num den guess).1 < twoTo 52 * (unscale num den guess).2
      ↔ (num / den : ℚ) < 2 ^ (52 + guess) := by
    have hd : (0 : ℚ) < (unscale num den guess).2 := by exact_mod_cast unscale_pos num hden guess
    rw [← Nat.cast_lt (α := ℚ), Nat.cast_mul, ← div_lt_iff₀ hd, unscale_div, div_lt_iff₀ hpos,
      cast_twoTo, zpow_add₀ (by norm_num)]
    rfl
  unfold scaleOf
  simp only [hguess]
  split_ifs with h
  · refine ⟨guess - 1, ⟨?_, ?_⟩, rfl⟩
    · rw [show 52 + (guess - 1) = 51 + guess by omega]
      exact hlow'.le
    · rw [show 53 + (guess - 1) = 52 + guess by omega]
      exact hcompare.mp h
  · exact ⟨guess, ⟨not_lt.mp (mt hcompare.mpr h), hhigh'⟩, rfl⟩

theorem scaleOf_eq {num den : ℕ} {p : ℤ} (hnum : 0 < num) (hden : 0 < den)
    (h : Scales (num / den) p) : scaleOf num den = max p (-1074) := by
  obtain ⟨p', hp', hscale⟩ := exists_scales hnum hden
  rw [hscale, hp'.unique h]

/-- Below the least power with a 53-bit integer part, the scale is that power. -/
theorem scaleOf_small {num den : ℕ} (hnum : 0 < num) (hden : 0 < den)
    (h : (num / den : ℚ) < 2 ^ (-1021 : ℤ)) : scaleOf num den = -1074 := by
  obtain ⟨p, hp, hscale⟩ := exists_scales hnum hden
  have hlt := (zpow_lt_zpow_iff_right₀ (by norm_num : (1 : ℚ) < 2)).mp (hp.1.trans_lt h)
  omega

end Scaling

theorem ofRatio_of_scale (negative : Bool) {num den : ℕ} {p : ℤ} (hnum : 0 < num)
    (hscale : scaleOf num den = p) :
    ofRatio negative num den
      = let m := divNearest (unscale num den p).1 (unscale num den p).2
        ofSignMagnitude negative (min (if m < twoTo 52 then m
          else (p + 1075).toNat * twoTo 52 + (m - twoTo 52)) (2047 * twoTo 52)) := by
  subst hscale
  rw [ofRatio, if_neg hnum.ne']

theorem ofRatio_congr (negative : Bool) {num den num' den' : ℕ} (hden : 0 < den)
    (hden' : 0 < den') (h : (num / den : ℚ) = num' / den') :
    ofRatio negative num den = ofRatio negative num' den' := by
  have hd : (den : ℚ) ≠ 0 := by exact_mod_cast hden.ne'
  have hd' : (den' : ℚ) ≠ 0 := by exact_mod_cast hden'.ne'
  have hcross := h
  rw [div_eq_div_iff hd hd'] at hcross
  have hcross' : num * den' = num' * den := by exact_mod_cast hcross
  rcases num.eq_zero_or_pos with rfl | hnum
  · have hzero : num' = 0 := by
      rw [Nat.zero_mul] at hcross'
      exact (Nat.mul_eq_zero.mp hcross'.symm).resolve_right hden.ne'
    rw [hzero, ofRatio, ofRatio, if_pos rfl, if_pos rfl]
  · have hnum' : 0 < num' := by
      rcases num'.eq_zero_or_pos with rfl | hpos
      · have hzero := Nat.mul_eq_zero.mp (hcross'.trans (Nat.zero_mul den))
        omega
      · exact hpos
    obtain ⟨p, hp, hscale⟩ := exists_scales hnum hden
    have hscale' : scaleOf num' den' = max p (-1074) := scaleOf_eq hnum' hden' (h ▸ hp)
    rw [ofRatio_of_scale negative hnum hscale, ofRatio_of_scale negative hnum' hscale']
    have hround : divNearest (unscale num den (max p (-1074))).1 (unscale num den (max p (-1074))).2
        = divNearest (unscale num' den' (max p (-1074))).1
          (unscale num' den' (max p (-1074))).2 := by
      have hpos := unscale_pos num hden (max p (-1074))
      have hpos' := unscale_pos num' hden' (max p (-1074))
      refine divNearest_congr hpos hpos' ?_
      have hratio : ((unscale num den (max p (-1074))).1 : ℚ) / (unscale num den (max p (-1074))).2
          = (unscale num' den' (max p (-1074))).1 / (unscale num' den' (max p (-1074))).2 := by
        rw [unscale_div, unscale_div, h]
      rw [div_eq_div_iff (by exact_mod_cast hpos.ne') (by exact_mod_cast hpos'.ne')] at hratio
      exact_mod_cast hratio
    rw [hround]

section FiniteNumbers

/-- The magnitude of a finite number. -/
def magnitude (x : Binary64) : ℚ := x.significand * 2 ^ x.exponent

theorem ratio_div (x : Binary64) : (x.ratio.1 : ℚ) / x.ratio.2 = x.magnitude := by
  rw [ratio, unscale_div, magnitude, Nat.cast_one, div_one, zpow_neg, div_inv_eq_mul]

theorem ratio_pos (x : Binary64) : 0 < x.ratio.2 := unscale_pos x.significand Nat.one_pos _

/-- The bits are the sign, the exponent field and the fraction. -/
theorem ofSignMagnitude_fields (x : Binary64) :
    ofSignMagnitude x.isNegative (x.exponentField * twoTo 52 + x.fractionField) = x := by
  obtain ⟨bits⟩ := x
  have hlt : bits.toNat < 2 ^ 64 := bits.toNat_lt
  simp only [ofSignMagnitude, isNegative, exponentField, fractionField, twoTo, Nat.pow_eq, mk.injEq,
    beq_iff_eq]
  rw [← UInt64.toNat_inj, UInt64.toNat_ofNat']
  split_ifs <;> omega

theorem fractionField_lt (x : Binary64) : x.fractionField < 2 ^ 52 :=
  Nat.mod_lt _ (by decide)

theorem exponentField_lt {x : Binary64} (hx : x.isFinite = true) : x.exponentField < 2047 := by
  have hlt : x.exponentField < 2048 := Nat.mod_lt _ (by decide)
  have hne : x.exponentField ≠ 2047 := by simpa [isFinite] using hx
  omega

theorem significand_lt (x : Binary64) : x.significand < 2 ^ 53 := by
  have := x.fractionField_lt
  unfold significand twoTo
  simp only [Nat.pow_eq]
  split_ifs <;> omega

/-- The exponent and the significand as the encoding has them: above the least exponent the
significand has 53 bits. -/
theorem exponent_cases (x : Binary64) :
    x.exponent = -1074 ∨ (-1074 < x.exponent ∧ 2 ^ 52 ≤ x.significand) := by
  unfold exponent significand twoTo
  simp only [Nat.pow_eq]
  split_ifs <;> omega

theorem exponent_le {x : Binary64} (hx : x.isFinite = true) : x.exponent ≤ 971 := by
  have := exponentField_lt hx
  unfold exponent
  split_ifs <;> omega

/-- The number is made of its significand and exponent as rounding makes it. -/
theorem ofSignMagnitude_significand {x : Binary64} (hx : x.isFinite = true) :
    ofSignMagnitude x.isNegative (min (if x.significand < twoTo 52 then x.significand
      else (x.exponent + 1075).toNat * twoTo 52 + (x.significand - twoTo 52)) (2047 * twoTo 52))
      = x := by
  have hfraction := x.fractionField_lt
  have hfield := exponentField_lt hx
  have hmagnitude : min (if x.significand < twoTo 52 then x.significand
      else (x.exponent + 1075).toNat * twoTo 52 + (x.significand - twoTo 52)) (2047 * twoTo 52)
      = x.exponentField * twoTo 52 + x.fractionField := by
    unfold significand exponent twoTo
    simp only [Nat.pow_eq]
    split_ifs <;> omega
  rw [hmagnitude, ofSignMagnitude_fields]

theorem significand_pos {x : Binary64} (hx : x.isFinite = true) (hzero : x.isZero = false) :
    0 < x.significand := by
  simp only [isZero, hx, Bool.true_and, beq_eq_false_iff_ne] at hzero
  exact Nat.pos_of_ne_zero hzero

/-- The value of a finite number. -/
def value (x : Binary64) : ℚ := if x.isNegative then -x.magnitude else x.magnitude

/-- The whole number that a number stands for is its value. -/
theorem value_of_toInt? {x : Binary64} {n : ℤ} (h : x.toInt? = some n) :
    x.isFinite = true ∧ x.value = n := by
  unfold toInt? at h
  simp only [] at h
  split_ifs at h with hwhole hsign
  all_goals
    rw [Bool.and_eq_true, beq_iff_eq] at hwhole
    have hdvd := Nat.dvd_of_mod_eq_zero hwhole.2
    have hden : (x.ratio.2 : ℚ) ≠ 0 := by exact_mod_cast x.ratio_pos.ne'
    refine ⟨hwhole.1, ?_⟩
    rw [← Option.some.inj h, value, ← ratio_div]
  · rw [if_pos hsign, Int.cast_neg, Int.cast_natCast, Nat.cast_div hdvd hden]
  · rw [if_neg hsign, Int.cast_natCast, Nat.cast_div hdvd hden]

end FiniteNumbers

section Nearness

/-- A fraction of the scale of a number is rounded to it, if it is less than half a unit away. -/
theorem ofRatio_of_exponent {x : Binary64} {num den : ℕ} (hx : x.isFinite = true) (hnum : 0 < num)
    (hden : 0 < den) (hscale : scaleOf num den = x.exponent)
    (hhalf : |(num / den : ℚ) / 2 ^ x.exponent - x.significand| < 1 / 2) :
    ofRatio x.isNegative num den = x := by
  have hround : divNearest (unscale num den x.exponent).1 (unscale num den x.exponent).2
      = x.significand := divNearest_eq (unscale_pos num hden _) (by rwa [unscale_div])
  rw [ofRatio_of_scale _ hnum hscale, hround]
  exact ofSignMagnitude_significand hx

/-- Just below a power of two the units are half as large: the significand of a fraction that is
less than a quarter of the larger unit away rounds up to `2 ^ 53`, which carries. -/
theorem ofRatio_carries {x : Binary64} {num den : ℕ} (hx : x.isFinite = true) (hnum : 0 < num)
    (hden : 0 < den) (hleast : x.significand = 2 ^ 52) (hexponent : -1074 < x.exponent)
    (hscale : scaleOf num den = x.exponent - 1)
    (hquarter : |(num / den : ℚ) / 2 ^ x.exponent - 2 ^ 52| < 1 / 4) :
    ofRatio x.isNegative num den = x := by
  have hround : divNearest (unscale num den (x.exponent - 1)).1
      (unscale num den (x.exponent - 1)).2 = 2 ^ 53 := by
    refine divNearest_eq (unscale_pos num hden _) ?_
    rw [unscale_div, div_two_zpow_sub_one]
    rw [abs_lt] at hquarter ⊢
    push_cast
    constructor <;> linarith
  have hcarry : (x.exponent - 1 + 1075).toNat * twoTo 52 + (2 ^ 53 - twoTo 52)
      = (x.exponent + 1075).toNat * twoTo 52 + (2 ^ 52 - twoTo 52) := by
    simp only [twoTo, Nat.pow_eq]
    omega
  have hown := ofSignMagnitude_significand hx
  rw [hleast, if_neg (by decide)] at hown
  simp only [ofRatio_of_scale _ hnum hscale, hround]
  rw [if_neg (by decide), hcarry]
  exact hown

/-- A fraction near a number is rounded to it. -/
theorem ofRatio_near {x : Binary64} {num den : ℕ} (hx : x.isFinite = true)
    (hzero : x.isZero = false) (hden : 0 < den)
    (hnear : |(num / den : ℚ) - x.magnitude| < x.magnitude / 2 ^ 54) :
    ofRatio x.isNegative num den = x := by
  have hs : (0 : ℚ) < x.significand := by exact_mod_cast significand_pos hx hzero
  have hs53 : (x.significand : ℚ) + 1 ≤ 2 ^ 53 := by exact_mod_cast x.significand_lt
  have hpow : (0 : ℚ) < 2 ^ x.exponent := by positivity
  have hclose : |(num / den : ℚ) / 2 ^ x.exponent - x.significand| < x.significand / 2 ^ 54 := by
    rw [← div_mul_cancel₀ (num / den : ℚ) hpow.ne', magnitude, ← sub_mul, abs_mul,
      abs_of_pos hpow, mul_div_right_comm] at hnear
    exact lt_of_mul_lt_mul_right hnear hpow.le
  obtain ⟨hbelow, habove⟩ := abs_lt.mp hclose
  have hr53 : (num / den : ℚ) / 2 ^ x.exponent < 2 ^ 53 := by linarith
  have hnum : 0 < num := by
    rcases num.eq_zero_or_pos with rfl | hpos
    · rw [Nat.cast_zero, zero_div, zero_div] at hbelow
      linarith
    · exact hpos
  have hround := fun hscale => ofRatio_of_exponent hx hnum hden hscale (hclose.trans (by linarith))
  rcases exponent_cases x with hleast | ⟨hexponent, hnormal⟩
  · refine hround ((scaleOf_small hnum hden ?_).trans hleast.symm)
    rwa [hleast, div_lt_iff₀ (by positivity), ← zpow_natCast, ← zpow_add₀ (by norm_num)] at hr53
  have hnormal' : (2 ^ 52 : ℚ) ≤ x.significand := by exact_mod_cast hnormal
  by_cases hr52 : 2 ^ 52 ≤ (num / den : ℚ) / 2 ^ x.exponent
  · refine hround ?_
    rw [scaleOf_eq hnum hden (scales_iff.mpr ⟨hr52, hr53⟩)]
    omega
  · -- the significand is the least with 53 bits, and the fraction is scaled by one power less
    rw [not_le] at hr52
    have hleast : x.significand = 2 ^ 52 := by
      have hlt : (x.significand : ℚ) < 2 ^ 52 + 1 := by linarith
      have hlt' : x.significand < 2 ^ 52 + 1 := by exact_mod_cast hlt
      omega
    rw [hleast] at hclose hbelow
    push_cast at hclose hbelow
    have hscales : Scales (num / den) (x.exponent - 1) := by
      rw [scales_iff, div_two_zpow_sub_one]
      constructor <;> linarith
    refine ofRatio_carries hx hnum hden hleast hexponent ?_ (hclose.trans_le (by norm_num))
    rw [scaleOf_eq hnum hden hscales]
    omega

end Nearness

section Range

theorem le_divNearest (n d : ℕ) : n / d ≤ divNearest n d := by
  unfold divNearest
  simp only []
  split_ifs <;> omega

/-- What is rounded to a finite number is below `2 ^ 1024`. -/
theorem lt_of_isFinite_ofRatio {negative : Bool} {num den : ℕ} (hden : 0 < den)
    (h : (ofRatio negative num den).isFinite = true) : (num / den : ℚ) < 2 ^ (1024 : ℤ) := by
  by_contra hge
  rw [not_lt] at hge
  have hnum : 0 < num := by
    rcases num.eq_zero_or_pos with rfl | hpos
    · rw [Nat.cast_zero, zero_div] at hge
      exact absurd hge (not_le.mpr (by positivity))
    · exact hpos
  obtain ⟨p, hp, hscale⟩ := exists_scales hnum hden
  have hlarge := (zpow_lt_zpow_iff_right₀ (by norm_num : (1 : ℚ) < 2)).mp (hge.trans_lt hp.2)
  rw [max_eq_left (by omega)] at hscale
  have hpos := unscale_pos num hden p
  have hpos' : (0 : ℚ) < (unscale num den p).2 := by exact_mod_cast hpos
  have hwhole : twoTo 52 ≤ (unscale num den p).1 / (unscale num den p).2 := by
    rw [Nat.le_div_iff_mul_le hpos, ← Nat.cast_le (α := ℚ), Nat.cast_mul, ← le_div_iff₀ hpos',
      unscale_div, le_div_iff₀ (by positivity), cast_twoTo, ← zpow_natCast,
      ← zpow_add₀ (by norm_num)]
    exact hp.1
  have hround := hwhole.trans (le_divNearest (unscale num den p).1 (unscale num den p).2)
  have hinfinite : ofRatio negative num den = infinity negative := by
    have hfield : 2047 * twoTo 52 ≤ (p + 1075).toNat * twoTo 52 :=
      Nat.mul_le_mul_right _ (by omega)
    simp only [ofRatio_of_scale _ hnum hscale, if_neg (not_lt.mpr hround), infinity]
    rw [Nat.min_eq_right (Nat.le_add_right_of_le hfield)]
  rw [hinfinite] at h
  cases negative <;> exact absurd h (by decide)

/-- What is rounded to a number other than zero is at least half the least such number. -/
theorem le_of_isZero_ofRatio {negative : Bool} {num den : ℕ} (hden : 0 < den)
    (h : (ofRatio negative num den).isZero = false) : 2 ^ (-1075 : ℤ) ≤ (num / den : ℚ) := by
  by_contra hlt
  rw [not_le] at hlt
  have hzero : (ofSignMagnitude negative 0).isZero = true := by cases negative <;> decide
  rcases num.eq_zero_or_pos with rfl | hnum
  · rw [ofRatio, if_pos rfl, hzero] at h
    exact absurd h (by decide)
  · have hsmall : (num / den : ℚ) < 2 ^ (-1021 : ℤ) :=
      hlt.trans (zpow_lt_zpow_right₀ (by norm_num) (by norm_num))
    have hm : divNearest (unscale num den (-1074)).1 (unscale num den (-1074)).2 = 0 := by
      refine divNearest_eq (unscale_pos num hden _) ?_
      rw [unscale_div, Nat.cast_zero, sub_zero, abs_of_nonneg (by positivity),
        div_lt_iff₀ (by positivity)]
      calc (num / den : ℚ) < 2 ^ (-1075 : ℤ) := hlt
        _ = 1 / 2 * 2 ^ (-1074 : ℤ) := by
            rw [show (-1075 : ℤ) = -1 + -1074 by norm_num, zpow_add₀ (by norm_num)]
            norm_num
    simp only [ofRatio_of_scale _ hnum (scaleOf_small hnum hden hsmall), hm] at h
    rw [if_pos (by decide), Nat.zero_min, hzero] at h
    exact absurd h (by decide)

theorem le_magnitude {x : Binary64} (hx : x.isFinite = true) (hzero : x.isZero = false) :
    2 ^ (-1074 : ℤ) ≤ x.magnitude := by
  have hs : (1 : ℚ) ≤ x.significand := by exact_mod_cast significand_pos hx hzero
  have hexponent : -1074 ≤ x.exponent := by
    rcases exponent_cases x with h | h <;> omega
  calc (2 : ℚ) ^ (-1074 : ℤ) ≤ 2 ^ x.exponent := zpow_le_zpow_right₀ (by norm_num) hexponent
    _ = 1 * 2 ^ x.exponent := (one_mul _).symm
    _ ≤ x.magnitude := mul_le_mul_of_nonneg_right hs (by positivity)

theorem magnitude_lt {x : Binary64} (hx : x.isFinite = true) :
    x.magnitude < 2 ^ (1024 : ℤ) := by
  have hs : (x.significand : ℚ) < 2 ^ 53 := by exact_mod_cast x.significand_lt
  have hpow : (0 : ℚ) < 2 ^ x.exponent := by positivity
  calc x.magnitude < 2 ^ (53 : ℤ) * 2 ^ x.exponent := mul_lt_mul_of_pos_right hs hpow
    _ = 2 ^ (53 + x.exponent) := (zpow_add₀ (by norm_num) _ _).symm
    _ ≤ 2 ^ (1024 : ℤ) := zpow_le_zpow_right₀ (by norm_num) (by have := exponent_le hx; omega)

end Range

end TerraIndex.Binary64
