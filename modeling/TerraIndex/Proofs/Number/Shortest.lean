import TerraIndex.Number.Shortest
import TerraIndex.Proofs.Number.Rounding
/-!
# Decimals that read back

`ofDecimal` depends on the value of a decimal alone (`ofDecimal_congr`): where it answers without
computing the power, the value is out of range. Of the two seventeen-digit decimals around a number
the nearer one is off by less than a part in `2 ^ 54`, so the search for the shortest decimal ends
with one that reads back (`ofDecimal_shortest`).
-/

namespace TerraIndex

theorem cast_tenTo (n : ℕ) : (tenTo n : ℚ) = 10 ^ n := by
  rw [tenTo, Nat.pow_eq, Nat.cast_pow]
  rfl

theorem tenTo_pos (n : ℕ) : 0 < tenTo n := Nat.pow_pos (by norm_num)

/-- The number that a decimal stands for. -/
def Decimal.value (d : Decimal) : ℚ := d.digits * 10 ^ d.power

theorem Decimal.value_of_neg {d : Decimal} (h : d.power < 0) :
    d.value = (d.digits : ℚ) / tenTo (-d.power).toNat := by
  obtain ⟨k, hk⟩ : ∃ k : ℕ, d.power = -k := ⟨(-d.power).toNat, by omega⟩
  rw [value, hk, neg_neg, Int.toNat_natCast, cast_tenTo, zpow_neg, zpow_natCast, div_eq_mul_inv]

theorem Decimal.value_of_nonneg {d : Decimal} (h : 0 ≤ d.power) :
    d.value = ((d.digits * tenTo d.power.toNat : ℕ) : ℚ) / (1 : ℕ) := by
  obtain ⟨k, hk⟩ : ∃ k : ℕ, d.power = k := ⟨d.power.toNat, by omega⟩
  rw [value, hk, Int.toNat_natCast, Nat.cast_mul, cast_tenTo, zpow_natCast, Nat.cast_one, div_one]

/-- A decimal with zeros moved from its power to its digits stands for the same number. -/
theorem Decimal.value_shift (digits : ℕ) (power : ℤ) (k : ℕ) :
    (⟨digits * 10 ^ k, power - k⟩ : Decimal).value = (⟨digits, power⟩ : Decimal).value := by
  unfold value
  rw [Nat.cast_mul, Nat.cast_pow, zpow_sub₀ (by norm_num), zpow_natCast]
  push_cast
  field_simp

theorem Decimal.value_trimZeros (fuel : ℕ) (d : Decimal) : (d.trimZeros fuel).value = d.value := by
  induction fuel generalizing d with
  | zero => rfl
  | succ fuel ih =>
    rw [trimZeros]
    split_ifs with h
    · have hshift := value_shift (d.digits / 10) (d.power + 1) 1
      rw [pow_one, Nat.div_mul_cancel (Nat.dvd_of_mod_eq_zero h.1), Nat.cast_one,
        add_sub_cancel_right] at hshift
      rw [ih, ← hshift]
    · rfl

namespace Binary64

section Decimals

/-- The value of a decimal is no more than its digits allow. -/
theorem value_lt_log2 {d : Decimal} (hd : d.digits ≠ 0) (hpower : d.power < 0) :
    d.value < 2 ^ ((Nat.log2 d.digits : ℤ) + 1 + 3 * d.power) := by
  obtain ⟨k, hk⟩ : ∃ k : ℕ, d.power = -k := ⟨(-d.power).toNat, by omega⟩
  have hten : (10 : ℚ) ^ d.power ≤ 8 ^ d.power := by
    rw [hk, zpow_neg, zpow_neg, zpow_natCast, zpow_natCast]
    exact inv_anti₀ (by positivity) (pow_le_pow_left₀ (by norm_num) (by norm_num) k)
  have height : (8 : ℚ) ^ d.power = 2 ^ (3 * d.power) := by
    rw [zpow_mul]
    norm_num
  rw [zpow_add₀ (by norm_num), ← height]
  exact mul_lt_mul (between_log2 (Nat.pos_of_ne_zero hd)).2 hten (by positivity) (by positivity)

/-- Within the range of numbers, a decimal is rounded like any fraction of its value. -/
theorem ofDecimal_eq_ofRatio (negative : Bool) {d : Decimal} {num den : ℕ} (hden : 0 < den)
    (hvalue : d.value = num / den) (hlow : 2 ^ (-1076 : ℤ) ≤ d.value)
    (hhigh : d.value < 2 ^ (1025 : ℤ)) :
    ofDecimal negative d.digits d.power = ofRatio negative num den := by
  have hdigits : d.digits ≠ 0 := by
    intro hzero
    rw [Decimal.value, hzero, Nat.cast_zero, zero_mul] at hlow
    exact absurd hlow (not_le.mpr (by positivity))
  have hone : (1 : ℚ) ≤ d.digits := by exact_mod_cast Nat.one_le_iff_ne_zero.mpr hdigits
  have hpower : ¬ d.power > 400 := by
    intro hlarge
    have hge : (2 : ℚ) ^ (1025 : ℤ) ≤ d.value := by
      calc (2 : ℚ) ^ (1025 : ℤ) ≤ 2 ^ (3 * 400 : ℤ) :=
            zpow_le_zpow_right₀ (by norm_num) (by norm_num)
        _ = (2 ^ (3 : ℤ)) ^ (400 : ℤ) := zpow_mul _ _ _
        _ ≤ 10 ^ (400 : ℤ) := zpow_le_zpow_left₀ (by norm_num) (by norm_num) (by norm_num)
        _ ≤ 10 ^ d.power := zpow_le_zpow_right₀ (by norm_num) hlarge.le
        _ = 1 * 10 ^ d.power := (one_mul _).symm
        _ ≤ d.value := mul_le_mul_of_nonneg_right hone (by positivity)
    exact absurd hhigh (not_lt.mpr hge)
  have hsmall : ¬ (Nat.log2 d.digits : ℤ) + 3 * d.power < -1200 := by
    intro hlt
    have hvalueLt := value_lt_log2 hdigits (by omega)
    have := (zpow_lt_zpow_iff_right₀ (by norm_num : (1 : ℚ) < 2)).mp (hlow.trans_lt hvalueLt)
    omega
  rw [ofDecimal, if_neg hdigits, if_neg hpower, if_neg hsmall]
  split_ifs with hnegative
  · exact ofRatio_congr negative (tenTo_pos _) hden
      ((Decimal.value_of_neg hnegative).symm.trans hvalue)
  · exact ofRatio_congr negative Nat.one_pos hden
      ((Decimal.value_of_nonneg (not_lt.mp hnegative)).symm.trans hvalue)

/-- A decimal that stands for a number other than zero is within the range of numbers. -/
theorem value_range {negative : Bool} {d : Decimal}
    (hfinite : (ofDecimal negative d.digits d.power).isFinite = true)
    (hzero : (ofDecimal negative d.digits d.power).isZero = false) :
    2 ^ (-1076 : ℤ) ≤ d.value ∧ d.value < 2 ^ (1025 : ℤ) := by
  have hnone : (ofSignMagnitude negative 0).isZero ≠ false := by cases negative <;> decide
  have hinfinite : (infinity negative).isFinite ≠ true := by cases negative <;> decide
  have hrange : ∀ {num den : ℕ}, 0 < den → d.value = num / den →
      (ofRatio negative num den).isFinite = true → (ofRatio negative num den).isZero = false →
      2 ^ (-1076 : ℤ) ≤ d.value ∧ d.value < 2 ^ (1025 : ℤ) := by
    intro num den hden hvalue hfinite hzero
    rw [hvalue]
    exact ⟨(zpow_le_zpow_right₀ (by norm_num) (by norm_num)).trans
        (le_of_isZero_ofRatio hden hzero),
      (lt_of_isFinite_ofRatio hden hfinite).trans (zpow_lt_zpow_right₀ (by norm_num) (by norm_num))⟩
  unfold ofDecimal at hfinite hzero
  split_ifs at hfinite hzero with h₁ h₂ h₃ h₄
  · exact absurd hzero hnone
  · exact absurd hfinite hinfinite
  · exact absurd hzero hnone
  · exact hrange (tenTo_pos _) (Decimal.value_of_neg h₄) hfinite hzero
  · exact hrange Nat.one_pos (Decimal.value_of_nonneg (not_lt.mp h₄)) hfinite hzero

theorem exists_ratio (d : Decimal) :
    ∃ num den : ℕ, 0 < den ∧ d.value = (num : ℚ) / den := by
  rcases lt_or_ge d.power 0 with h | h
  · exact ⟨_, _, tenTo_pos _, Decimal.value_of_neg h⟩
  · exact ⟨_, 1, Nat.one_pos, Decimal.value_of_nonneg h⟩

/-- A decimal that stands for a number other than zero stands for it however it is written. -/
theorem ofDecimal_congr {negative : Bool} {d d' : Decimal} (hvalue : d'.value = d.value)
    (hfinite : (ofDecimal negative d.digits d.power).isFinite = true)
    (hzero : (ofDecimal negative d.digits d.power).isZero = false) :
    ofDecimal negative d'.digits d'.power = ofDecimal negative d.digits d.power := by
  obtain ⟨hlow, hhigh⟩ := value_range hfinite hzero
  obtain ⟨num, den, hden, hratio⟩ := exists_ratio d
  rw [ofDecimal_eq_ofRatio negative hden hratio hlow hhigh,
    ofDecimal_eq_ofRatio negative hden (hvalue.trans hratio) (hvalue ▸ hlow) (hvalue ▸ hhigh)]

/-- A decimal near a number is rounded to it. -/
theorem ofDecimal_near {x : Binary64} {d : Decimal} (hx : x.isFinite = true)
    (hzero : x.isZero = false) (hnear : |d.value - x.magnitude| < x.magnitude / 2 ^ 54) :
    ofDecimal x.isNegative d.digits d.power = x := by
  have hlow := le_magnitude hx hzero
  have hhigh := magnitude_lt hx
  have hpos : 0 < x.magnitude := lt_of_lt_of_le (by positivity) hlow
  obtain ⟨hbelow, habove⟩ := abs_lt.mp hnear
  obtain ⟨num, den, hden, hratio⟩ := exists_ratio d
  have hlow' : 2 ^ (-1076 : ℤ) ≤ d.value := by
    have hhalf : (2 : ℚ) ^ (-1076 : ℤ) = 2 ^ (-1074 : ℤ) / 4 := by
      rw [show (-1076 : ℤ) = -1074 - 2 by norm_num, zpow_sub₀ (by norm_num)]
      norm_num
    linarith
  have hhigh' : d.value < 2 ^ (1025 : ℤ) := by
    calc d.value < x.magnitude * 2 := by linarith
      _ < 2 ^ (1024 : ℤ) * 2 := mul_lt_mul_of_pos_right hhigh two_pos
      _ = 2 ^ (1025 : ℤ) := by
          rw [show (1025 : ℤ) = 1024 + 1 by norm_num, zpow_add₀ (by norm_num), zpow_one]
  rw [ofDecimal_eq_ofRatio _ hden hratio hlow' hhigh']
  exact ofRatio_near hx hzero hden (hratio ▸ hnear)

end Decimals

section Powers

theorem ten_le_two {a b : ℕ} (h : 10 * a ≤ 3 * b) : (10 : ℚ) ^ a ≤ 2 ^ b := by
  rw [← pow_le_pow_iff_left₀ (by positivity) (by positivity) (by norm_num : 3 ≠ 0)]
  calc ((10 : ℚ) ^ a) ^ 3 = (10 ^ 3) ^ a := by rw [← pow_mul, ← pow_mul, Nat.mul_comm]
    _ ≤ (2 ^ 10) ^ a := pow_le_pow_left₀ (by positivity) (by norm_num) a
    _ = 2 ^ (10 * a) := (pow_mul _ _ _).symm
    _ ≤ 2 ^ (b * 3) := pow_le_pow_right₀ (by norm_num) (by omega)
    _ = (2 ^ b) ^ 3 := pow_mul _ _ _

theorem two_le_ten {a b : ℕ} (h : 28 * b ≤ 93 * a) : (2 : ℚ) ^ b ≤ 10 ^ a := by
  rw [← pow_le_pow_iff_left₀ (by positivity) (by positivity) (by norm_num : 93 ≠ 0)]
  calc ((2 : ℚ) ^ b) ^ 93 = (2 ^ 93) ^ b := by rw [← pow_mul, ← pow_mul, Nat.mul_comm]
    _ ≤ (10 ^ 28) ^ b := pow_le_pow_left₀ (by positivity) (by norm_num) b
    _ = 10 ^ (28 * b) := (pow_mul _ _ _).symm
    _ ≤ 10 ^ (a * 93) := pow_le_pow_right₀ (by norm_num) (by omega)
    _ = (10 ^ a) ^ 93 := pow_mul _ _ _

/-- Over the exponents of numbers, `30103 / 100000` is near enough to the logarithm of two. -/
theorem ten_le_two_guess {g l : ℤ} (hg : 100000 * g ≤ 30103 * l) (hlow : -1100 ≤ l)
    (hhigh : l ≤ 1100) : (10 : ℚ) ^ (g - 2) ≤ 2 ^ (l - 1) := by
  rcases le_or_gt 2 g with hpos | hneg
  · obtain ⟨a, ha⟩ : ∃ a : ℕ, g - 2 = a := ⟨(g - 2).toNat, by omega⟩
    obtain ⟨b, hb⟩ : ∃ b : ℕ, l - 1 = b := ⟨(l - 1).toNat, by omega⟩
    rw [ha, hb, zpow_natCast, zpow_natCast]
    exact ten_le_two (by omega)
  rcases le_or_gt 1 l with hl | hl
  · calc (10 : ℚ) ^ (g - 2) ≤ 1 := zpow_le_one_of_nonpos₀ (by norm_num) (by omega)
      _ ≤ 2 ^ (l - 1) := one_le_zpow₀ (by norm_num) (by omega)
  · obtain ⟨a, ha⟩ : ∃ a : ℕ, g - 2 = -a := ⟨(2 - g).toNat, by omega⟩
    obtain ⟨b, hb⟩ : ∃ b : ℕ, l - 1 = -b := ⟨(1 - l).toNat, by omega⟩
    rw [ha, hb, zpow_neg, zpow_neg, zpow_natCast, zpow_natCast]
    exact inv_anti₀ (by positivity) (two_le_ten (by omega))

/-- The search for the power of ten above a number does not end too high. -/
theorem le_of_magnitudeTen {num den : ℕ} (hnum : 0 < num) (hden : 0 < den)
    (hlow : -1100 ≤ (Nat.log2 num : ℤ) - Nat.log2 den)
    (hhigh : (Nat.log2 num : ℤ) - Nat.log2 den ≤ 1100) :
    (10 : ℚ) ^ (magnitudeTen num den - 1) ≤ num / den := by
  have hden' : (0 : ℚ) < den := by exact_mod_cast hden
  have hbelow : ∀ k : ℤ, (if k < 0 then decide (num * tenTo (-k).toNat < den)
      else decide (num < den * tenTo k.toNat)) = false → (10 : ℚ) ^ k ≤ num / den := by
    intro k hk
    rw [le_div_iff₀ hden']
    split_ifs at hk with hneg
    · obtain ⟨a, rfl⟩ : ∃ a : ℕ, k = -a := ⟨(-k).toNat, by omega⟩
      rw [decide_eq_false_iff_not, not_lt, neg_neg, Int.toNat_natCast, ← Nat.cast_le (α := ℚ),
        Nat.cast_mul, cast_tenTo] at hk
      rwa [zpow_neg, zpow_natCast, inv_mul_le_iff₀ (by positivity), mul_comm]
    · obtain ⟨a, rfl⟩ : ∃ a : ℕ, k = a := ⟨k.toNat, by omega⟩
      rw [decide_eq_false_iff_not, not_lt, Int.toNat_natCast, ← Nat.cast_le (α := ℚ),
        Nat.cast_mul, cast_tenTo] at hk
      rwa [zpow_natCast, mul_comm]
  unfold magnitudeTen
  simp only []
  generalize hguess : ((Nat.log2 num : ℤ) - Nat.log2 den) * 30103 / 100000 = guess
  have hleast : (10 : ℚ) ^ (guess - 1 - 1) ≤ num / den := by
    rw [sub_sub, one_add_one_eq_two]
    exact (ten_le_two_guess (by omega) hlow hhigh).trans (between_log2_div hnum hden).1.le
  simp only [List.find?]
  split
  · exact hleast
  · rename_i hfirst
    split
    · exact hbelow _ hfirst
    · rename_i hsecond
      split
      · rw [Option.getD_some, add_sub_cancel_right]
        exact hbelow _ hsecond
      · rename_i hthird
        rw [Option.getD_none, show guess + 2 - 1 = guess + 1 by omega]
        exact hbelow _ hthird

end Powers

section ShortestDecimal

/-- The neighbours of a fraction are those of its multiple by the power of ten. -/
theorem neighbours_scaled (num : ℕ) {den : ℕ} (hden : 0 < den) (power : ℤ) :
    ∃ n d : ℕ, 0 < d ∧ (n : ℚ) / d = num / den / 10 ^ power
      ∧ ∀ m, m = n / d ∨ m = n / d + 1 → m ∈ neighbours num den power := by
  have hmem : ∀ {below m : ℕ} {c : Prop} [Decidable c], m = below ∨ m = below + 1 →
      m ∈ if c then [below, below + 1] else [below + 1, below] := by
    intro below m c _ h
    split_ifs <;> simp [h.symm, h]
  unfold neighbours
  split_ifs with hneg
  · obtain ⟨k, hk⟩ : ∃ k : ℕ, power = -k := ⟨(-power).toNat, by omega⟩
    refine ⟨num * tenTo (-power).toNat, den, hden, ?_, fun m h => hmem h⟩
    rw [hk, neg_neg, Int.toNat_natCast, Nat.cast_mul, cast_tenTo, zpow_neg, zpow_natCast,
      div_inv_eq_mul, div_mul_eq_mul_div]
  · obtain ⟨k, hk⟩ : ∃ k : ℕ, power = k := ⟨power.toNat, by omega⟩
    refine ⟨num, den * tenTo power.toNat, Nat.mul_pos hden (tenTo_pos _), ?_, fun m h => hmem h⟩
    rw [hk, Int.toNat_natCast, Nat.cast_mul, cast_tenTo, zpow_natCast, div_div]

/-- Rounding down or up is off by at most one half. -/
theorem exists_nearest {n d : ℕ} (hd : 0 < d) :
    ∃ m : ℕ, (m = n / d ∨ m = n / d + 1) ∧ |(m : ℚ) - n / d| ≤ 1 / 2 := by
  have hd' : (0 : ℚ) < d := by exact_mod_cast hd
  have hdivmod : (n : ℚ) = d * (n / d : ℕ) + (n % d : ℕ) := by
    exact_mod_cast (Nat.div_add_mod n d).symm
  have hmod : ((n % d : ℕ) : ℚ) ≤ d := by exact_mod_cast (Nat.mod_lt n hd).le
  have hfrac : (n : ℚ) / d = (n / d : ℕ) + (n % d : ℕ) / d := by
    nth_rewrite 1 [hdivmod]
    rw [add_div, mul_div_cancel_left₀ _ hd'.ne']
  rw [hfrac]
  by_cases hdown : 2 * (n % d) ≤ d
  · refine ⟨n / d, .inl rfl, ?_⟩
    have hdown' : (2 * (n % d : ℕ) : ℚ) ≤ d := by exact_mod_cast hdown
    rw [sub_add_cancel_left, abs_neg, abs_of_nonneg (by positivity), div_le_div_iff₀ hd' two_pos]
    linarith
  · refine ⟨n / d + 1, .inr rfl, ?_⟩
    have hup : (d : ℚ) ≤ 2 * (n % d : ℕ) := by exact_mod_cast (not_le.mp hdown).le
    rw [Nat.cast_add, add_sub_add_left_eq_sub, Nat.cast_one, one_sub_div hd'.ne',
      abs_of_nonneg (div_nonneg (by linarith) hd'.le), div_le_div_iff₀ hd' two_pos]
    linarith

/-- One of the neighbours on a grid is off by at most half its width. -/
theorem exists_neighbour (num : ℕ) {den : ℕ} (hden : 0 < den) (power : ℤ) :
    ∃ m ∈ neighbours num den power,
      |(⟨m, power⟩ : Decimal).value - num / den| ≤ 10 ^ power / 2 := by
  obtain ⟨n, d, hd, hscaled, hmem⟩ := neighbours_scaled num hden power
  obtain ⟨m, hm, hnear⟩ := exists_nearest (n := n) hd
  have hpow : (0 : ℚ) < 10 ^ power := by positivity
  refine ⟨m, hmem m hm, ?_⟩
  have hq : (num / den : ℚ) = n / d * 10 ^ power := by rw [hscaled, div_mul_cancel₀ _ hpow.ne']
  rw [Decimal.value, hq, ← sub_mul, abs_mul, abs_of_pos hpow]
  calc |(m : ℚ) - n / d| * 10 ^ power ≤ 1 / 2 * 10 ^ power :=
        mul_le_mul_of_nonneg_right hnear hpow.le
    _ = 10 ^ power / 2 := by rw [one_div_mul_eq_div]

theorem eq_of_isZero {x : Binary64} (h : x.isZero = true) :
    ofSignMagnitude x.isNegative 0 = x := by
  simp only [isZero, Bool.and_eq_true, beq_iff_eq] at h
  have hfields : x.exponentField * twoTo 52 + x.fractionField = 0 := by
    have hzero := h.2
    unfold significand at hzero
    split_ifs at hzero with hfield
    · rw [hfield, hzero, Nat.zero_mul]
    · have := Nat.two_pow_pos 52
      simp only [twoTo, Nat.pow_eq] at hzero
      omega
  have hown := ofSignMagnitude_fields x
  rwa [hfields] at hown

/-- The logarithms of the fraction of a number are not far apart. -/
theorem log2_ratio_range {x : Binary64} (hx : x.isFinite = true) (hzero : x.isZero = false) :
    0 < x.ratio.1 ∧ -1100 ≤ (Nat.log2 x.ratio.1 : ℤ) - Nat.log2 x.ratio.2
      ∧ (Nat.log2 x.ratio.1 : ℤ) - Nat.log2 x.ratio.2 ≤ 1100 := by
  have hlow := le_magnitude hx hzero
  have hhigh := magnitude_lt hx
  rw [← ratio_div] at hlow hhigh
  have hnum : 0 < x.ratio.1 := by
    rcases x.ratio.1.eq_zero_or_pos with hnum | hnum
    · rw [hnum, Nat.cast_zero, zero_div] at hlow
      exact absurd hlow (not_le.mpr (by positivity))
    · exact hnum
  obtain ⟨hbelow, habove⟩ := between_log2_div hnum x.ratio_pos
  have hone : (1 : ℚ) < 2 := by norm_num
  have hlow' := (zpow_lt_zpow_iff_right₀ hone).mp (hlow.trans_lt habove)
  have hhigh' := (zpow_lt_zpow_iff_right₀ hone).mp (hbelow.trans hhigh)
  exact ⟨hnum, by omega, by omega⟩

/-- With seventeen digits a neighbour reads back. -/
theorem exists_readsBack {x : Binary64} (hx : x.isFinite = true) (hzero : x.isZero = false) :
    ∃ m ∈ neighbours x.ratio.1 x.ratio.2 (magnitudeTen x.ratio.1 x.ratio.2 - 17),
      ofDecimal x.isNegative m (magnitudeTen x.ratio.1 x.ratio.2 - 17) = x := by
  obtain ⟨hnum, hlow, hhigh⟩ := log2_ratio_range hx hzero
  have hten := le_of_magnitudeTen hnum x.ratio_pos hlow hhigh
  obtain ⟨m, hm, hnear⟩ := exists_neighbour x.ratio.1 x.ratio_pos
    (magnitudeTen x.ratio.1 x.ratio.2 - 17)
  rw [ratio_div] at hten hnear
  generalize magnitudeTen x.ratio.1 x.ratio.2 = top at *
  refine ⟨m, hm, ofDecimal_near (d := ⟨m, top - 17⟩) hx hzero (hnear.trans_lt ?_)⟩
  have hpos : 0 < x.magnitude := lt_of_lt_of_le (by positivity) hten
  rw [show top - 17 = top - 1 + -16 by omega, zpow_add₀ (by norm_num)]
  norm_num
  linarith

/-- The shortest decimal of a finite number reads back as that number. -/
theorem ofDecimal_shortest {x : Binary64} (hx : x.isFinite = true) :
    ofDecimal x.isNegative x.shortest.digits x.shortest.power = x := by
  unfold shortest
  simp only []
  split_ifs with hz
  · exact (if_pos rfl).trans (eq_of_isZero hz)
  · rw [Bool.not_eq_true] at hz
    rcases hfound : List.findSome? _ ((List.range 17).map (· + 1)) with _ | d
    · obtain ⟨m, hm, hreads⟩ := exists_readsBack hx hz
      have hnone := List.findSome?_eq_none_iff.mp hfound 17 (by simp)
      rw [Option.map_eq_none_iff, List.find?_eq_none] at hnone
      exact absurd (beq_iff_eq.mpr hreads) (hnone m hm)
    · obtain ⟨n, -, hn⟩ := List.exists_of_findSome?_eq_some hfound
      obtain ⟨m, hm, rfl⟩ := Option.map_eq_some_iff.mp hn
      have hreads := List.find?_some hm
      rw [beq_iff_eq] at hreads
      have hcongr := @ofDecimal_congr x.isNegative _ _
        (Decimal.value_trimZeros 400 ⟨m, magnitudeTen x.ratio.1 x.ratio.2 - (n : ℤ)⟩)
        (by rw [hreads]; exact hx) (by rw [hreads]; exact hz)
      exact hcongr.trans hreads

end ShortestDecimal

end Binary64

end TerraIndex
