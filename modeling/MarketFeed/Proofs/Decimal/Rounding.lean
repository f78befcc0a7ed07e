import MarketFeed.Proofs.Decimal.Sums

/-!
# How exact sums of decimals are

A sum gives up no more digits than it has to. So it is exact whenever the number can be represented
at all, and otherwise it is off by less than one part in `10 ^ 28`.

* `fit?_eq_some`: what is left of digits that give up some.
* `toRat_add?_iff`: when a sum is exact.
* `add?_error`: how far a sum is from the exact one.
-/

namespace MarketFeed.Decimal

/-- Is a number the exact value of a decimal? -/
def Representable (q : ℚ) : Prop := ∃ d : Decimal, d.toRat = q

theorem representable_toRat (d : Decimal) : Representable d.toRat := ⟨d, rfl⟩

/-! ## Giving up digits -/

/-- Can zeros at the end of the fraction be left out so that `n / 10 ^ scale` is below the bound? -/
def Fits (n scale : Nat) : Prop := ∃ j ≤ scale, 10 ^ j ∣ n ∧ n / 10 ^ j < bound

/-- Digits that are those of a decimal fit. -/
theorem fits_of_mul_eq {m n s t : Nat} (hm : m < bound) (h : m * 10 ^ t = n * 10 ^ s) :
    Fits n t := by
  rcases Nat.le_total t s with hts | hst
  · have hsplit : m * 10 ^ t = n * 10 ^ (s - t) * 10 ^ t := by
      rw [h, Nat.mul_assoc, ← Nat.pow_add, Nat.sub_add_cancel hts]
    have hmantissa := Nat.eq_of_mul_eq_mul_right (by positivity) hsplit
    have hle : n ≤ m := hmantissa ▸ Nat.le_mul_of_pos_right n (by positivity)
    exact ⟨0, Nat.zero_le t, one_dvd n, by omega⟩
  · have hsplit : m * 10 ^ (t - s) * 10 ^ s = n * 10 ^ s := by
      rw [← h, Nat.mul_assoc, ← Nat.pow_add, Nat.sub_add_cancel hst]
    obtain rfl := Nat.eq_of_mul_eq_mul_right (by positivity) hsplit
    refine ⟨t - s, Nat.sub_le t s, Nat.dvd_mul_left _ m, ?_⟩
    rwa [Nat.mul_div_cancel m (by positivity)]

theorem shorten_mul_of_dvd {n k : Nat} (h : 10 ^ k ∣ n) : shorten n k * 10 ^ k = n := by
  have hpow : 0 < 10 ^ k := by positivity
  unfold shorten
  simp only [Nat.pow_eq, Nat.mod_eq_zero_of_dvd h]
  rw [if_neg (by omega), Nat.div_mul_cancel h]

/-- Shortening rounds to a nearest integer. -/
theorem shorten_half (n k : Nat) :
    2 * ((shorten n k * 10 ^ k : Nat) - n : Int) ≤ (10 ^ k : Nat) ∧
      2 * (n - (shorten n k * 10 ^ k : Nat) : Int) ≤ (10 ^ k : Nat) := by
  have hdiv := Nat.div_add_mod' n (10 ^ k)
  have hmod := Nat.mod_lt n (show 0 < 10 ^ k by positivity)
  unfold shorten
  simp only [Nat.pow_eq]
  generalize 10 ^ k = p at *
  split
  · rw [Nat.add_mul, Nat.one_mul]
    omega
  · omega

/-- No digit is given up without need. -/
theorem bound_le_of_excessDigits? {n scale k j : Nat} (h : excessDigits? n scale = some k)
    (hj : j < k) : bound ≤ n / 10 ^ j := by
  obtain ⟨-, -, hleast⟩ := List.find?_range_eq_some.mp h
  simpa [Nat.pow_eq] using hleast j hj

/-- The digits that are given up are zeros if all digits fit. -/
theorem dvd_of_fits {n scale k : Nat} (h : excessDigits? n scale = some k) (hfits : Fits n scale) :
    10 ^ k ∣ n := by
  obtain ⟨j, -, hdvd, hlt⟩ := hfits
  have hk : k ≤ j := Nat.not_lt.mp fun hjk => by
    have := bound_le_of_excessDigits? h hjk
    omega
  exact (Nat.pow_dvd_pow 10 hk).trans hdvd

/-- A digit less would not have been enough, so what is given up is small against the number. -/
theorem shorten_error {n scale k : Nat} (h : excessDigits? n scale = some k) :
    bound * ((shorten n k * 10 ^ k : Nat) - n : Int) ≤ 5 * n ∧
      bound * (n - (shorten n k * 10 ^ k : Nat) : Int) ≤ 5 * n := by
  have hbound : bound = 79228162514264337593543950336 := rfl
  cases k with
  | zero =>
    rw [shorten_mul_of_dvd (one_dvd n)]
    omega
  | succ k =>
    have hlarge : bound * 10 ^ k ≤ n :=
      (Nat.le_div_iff_mul_le (by positivity)).mp
        (bound_le_of_excessDigits? h (Nat.lt_succ_self k))
    have hhalf := shorten_half n (k + 1)
    rw [Nat.pow_succ] at hhalf ⊢
    generalize shorten n (k + 1) * (10 ^ k * 10) = m at *
    generalize 10 ^ k = p at *
    rw [hbound] at *
    omega

/-- If rounding comes to the bound itself, giving up one more digit still leaves a near number. -/
theorem shorten_shorten_error {n k : Nat} (h : n / 10 ^ k < bound) (hcarry : bound ≤ shorten n k) :
    bound * ((shorten (shorten n k) 1 * 10 ^ (k + 1) : Nat) - n : Int) ≤ 5 * n ∧
      bound * (n - (shorten (shorten n k) 1 * 10 ^ (k + 1) : Nat) : Int) ≤ 5 * n := by
  have hbound : bound = 79228162514264337593543950336 := rfl
  have hle := shorten_le n k
  have hlow := (bound_le_shorten_iff h).mp hcarry
  have hhigh : n < bound * 10 ^ k := (Nat.div_lt_iff_lt_mul (by positivity)).mp h
  have hshort : shorten bound 1 = 7922816251426433759354395034 := by decide
  rw [show shorten n k = bound by omega, hshort, Nat.pow_succ]
  generalize 10 ^ k = p at *
  rw [hbound] at *
  omega

theorem toRat_of_ofDigits? {negative : Bool} {n scale k : Nat} {c : Decimal}
    (h : ofDigits? negative n (scale - k) = some c) (hk : k ≤ scale) :
    c.toRat = signed negative (n * 10 ^ k : Nat) / 10 ^ scale := by
  obtain ⟨hmantissa, hscale⟩ := ofDigits?_eq_some.mp h
  rw [toRat, hmantissa, hscale, signed_div_eq_iff, Nat.mul_assoc, ← Nat.pow_add,
    Nat.add_sub_cancel' hk]

/-- **What is left of digits:** all of them if they fit, and otherwise a number that is off by five
parts in `2 ^ 96` at most. -/
theorem fit?_eq_some {negative : Bool} {n scale : Nat} {c : Decimal}
    (h : fit? negative n scale = some c) :
    ∃ m : Nat, c.toRat = signed negative m / 10 ^ scale ∧ (Fits n scale → m = n) ∧
      bound * (m - n : Int) ≤ 5 * n ∧ bound * (n - m : Int) ≤ 5 * n := by
  obtain ⟨k, hexcess, h⟩ := Option.bind_eq_some_iff.mp h
  obtain ⟨hk, hquotient⟩ := excessDigits?_eq_some hexcess
  have hkept : Fits n scale → shorten n k * 10 ^ k = n :=
    fun hfits => shorten_mul_of_dvd (dvd_of_fits hexcess hfits)
  dsimp only at h
  by_cases hq : shorten n k < bound
  · rw [if_pos hq] at h
    exact ⟨_, toRat_of_ofDigits? h hk, hkept, shorten_error hexcess⟩
  · rw [if_neg hq] at h
    by_cases hlast : scale = k
    · rw [if_pos hlast] at h
      cases h
    · rw [if_neg hlast, Nat.sub_sub] at h
      refine ⟨_, toRat_of_ofDigits? h (by omega), fun hfits => ?_,
        shorten_shorten_error hquotient (Nat.not_lt.mp hq)⟩
      -- Digits that fit are not rounded, so they do not come to the bound.
      rw [← hkept hfits, Nat.mul_div_cancel _ (by positivity)] at hquotient
      exact absurd hquotient hq

/-! ## Sums -/

/-- A number that is represented at some scale fits there. -/
theorem fits_of_representable {n scale : Nat} {q : ℚ} (hq : |q| * 10 ^ scale = n)
    (h : Representable q) : Fits n scale := by
  obtain ⟨d, rfl⟩ := h
  have hpow : (10 : ℚ) ^ d.scale ≠ 0 := pow_ne_zero _ (by decide)
  refine fits_of_mul_eq (s := d.scale) d.mantissa_lt ?_
  rw [toRat, abs_div, abs_of_pos (by positivity : (0 : ℚ) < 10 ^ d.scale), ← Int.cast_abs,
    Int.abs_eq_natAbs, Int.cast_natCast, div_mul_eq_mul_div, div_eq_iff hpow] at hq
  exact_mod_cast hq

/-- Numbers of one sign and scale are as far apart as their digits. -/
theorem abs_signed_div_sub (negative : Bool) (m n scale : Nat) :
    |(signed negative m : ℚ) / 10 ^ scale - signed negative n / 10 ^ scale| =
      |(m : ℚ) - n| / 10 ^ scale := by
  have hpow : (0 : ℚ) < 10 ^ scale := by positivity
  rw [← sub_div, abs_div, abs_of_pos hpow]
  cases negative
  · rfl
  · simp only [signed, if_true, Int.cast_neg, Int.cast_natCast]
    rw [neg_sub_neg, abs_sub_comm]

theorem toRat_eq_signed (d : Decimal) :
    d.toRat = signed (decide (d.mantissa < 0)) d.mantissa.natAbs / 10 ^ d.scale := by
  rw [← Nat.mul_one (Int.natAbs _), signed_natAbs, Nat.cast_one, mul_one, toRat]

/-- A sum has the digits of the exact one as far as they fit. -/
theorem add?_eq_some {a b c : Decimal} (h : a.add? b = some c) :
    ∃ (negative : Bool) (m n scale : Nat),
      c.toRat = signed negative m / 10 ^ scale ∧
      a.toRat + b.toRat = signed negative n / 10 ^ scale ∧ (Fits n scale → m = n) ∧
      bound * (m - n : Int) ≤ 5 * n ∧ bound * (n - m : Int) ≤ 5 * n := by
  have hsame : c.toRat = a.toRat + b.toRat → ∃ (negative : Bool) (m n scale : Nat),
      c.toRat = signed negative m / 10 ^ scale ∧
      a.toRat + b.toRat = signed negative n / 10 ^ scale ∧ (Fits n scale → m = n) ∧
      bound * (m - n : Int) ≤ 5 * n ∧ bound * (n - m : Int) ≤ 5 * n := by
    intro heq
    refine ⟨_, _, _, c.scale, toRat_eq_signed c, heq ▸ toRat_eq_signed c, fun _ => rfl, ?_, ?_⟩ <;>
      rw [sub_self, mul_zero] <;> positivity
  by_cases ha : a.isZero = true
  · rw [add?_of_isZero_left ha] at h
    exact hsame (by rw [← Option.some.inj h, toRat_of_isZero ha, zero_add])
  · by_cases hb : b.isZero = true
    · rw [add?_of_isZero_right ha hb] at h
      exact hsame (by rw [← Option.some.inj h, toRat_of_isZero hb, add_zero])
    · obtain ⟨negative, n, scale, -, hadd, hsum⟩ := exists_add?_eq_fit? ha hb
      obtain ⟨m, hvalue, hkept, herror⟩ := fit?_eq_some (hadd.symm.trans h)
      exact ⟨negative, m, n, scale, hvalue, hsum, hkept, herror⟩

/-- **Sums:** a sum is exact if and only if the exact sum can be represented. -/
theorem toRat_add?_iff {a b c : Decimal} (h : a.add? b = some c) :
    c.toRat = a.toRat + b.toRat ↔ Representable (a.toRat + b.toRat) := by
  refine ⟨fun heq => heq ▸ representable_toRat c, fun hrepresentable => ?_⟩
  obtain ⟨negative, m, n, scale, hvalue, hsum, hkept, -⟩ := add?_eq_some h
  have hdigits : |a.toRat + b.toRat| * 10 ^ scale = n := by
    rw [hsum, abs_signed_div, div_mul_cancel₀ _ (pow_ne_zero _ (by decide))]
  rw [hvalue, hsum, hkept (fits_of_representable hdigits hrepresentable)]

/-- **Error:** a sum is off by five parts in `2 ^ 96` at most. -/
theorem add?_error {a b c : Decimal} (h : a.add? b = some c) :
    bound * |c.toRat - (a.toRat + b.toRat)| ≤ 5 * |a.toRat + b.toRat| := by
  obtain ⟨negative, m, n, scale, hvalue, hsum, -, hhigh, hlow⟩ := add?_eq_some h
  have hdigits : bound * |(m : ℚ) - n| ≤ 5 * n := by
    have hhigh' : (bound : ℚ) * (m - n) ≤ 5 * n := by exact_mod_cast hhigh
    have hlow' : (bound : ℚ) * (n - m) ≤ 5 * n := by exact_mod_cast hlow
    rcases abs_choice ((m : ℚ) - n) with habs | habs <;> rw [habs] <;> linarith
  rw [hvalue, hsum, abs_signed_div_sub, abs_signed_div, ← mul_div_assoc, ← mul_div_assoc]
  exact div_le_div_of_nonneg_right hdigits (by positivity)

end MarketFeed.Decimal
