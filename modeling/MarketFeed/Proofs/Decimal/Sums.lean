import MarketFeed.Decimal.Sum
import MarketFeed.Proofs.Decimal.Scientific

/-!
# When sums of decimals overflow

A sum that has too many digits gives up fraction digits. It has a decimal as long as what is left
of it rounds to less than `2 ^ 96`.

* `fit?_eq_none_iff`: digits and a scale without a decimal.
* `add?_eq_none_iff`: two decimals without a sum.
-/

namespace MarketFeed.Decimal

/-! ## Giving up digits -/

theorem shorten_le (n k : Nat) : shorten n k ≤ n / 10 ^ k + 1 := by
  unfold shorten
  simp only [Nat.pow_eq]
  split <;> omega

theorem excessDigits?_eq_none {n scale : Nat} (h : excessDigits? n scale = none) :
    bound * 10 ^ scale ≤ n := by
  have hlast := List.find?_eq_none.mp h scale (List.mem_range.mpr (Nat.lt_succ_self scale))
  rw [decide_eq_true_eq, Nat.not_lt, Nat.pow_eq] at hlast
  exact (Nat.le_div_iff_mul_le (by positivity)).mp hlast

theorem excessDigits?_eq_some {n scale k : Nat} (h : excessDigits? n scale = some k) :
    k ≤ scale ∧ n / 10 ^ k < bound := by
  have hmem := List.mem_range.mp (List.mem_of_find?_eq_some h)
  have hlt := List.find?_some h
  exact ⟨by omega, of_decide_eq_true hlt⟩

/-- The greatest integer below the bound is odd, so a half above it is rounded up. -/
theorem bound_le_shorten_iff {n k : Nat} (h : n / 10 ^ k < bound) :
    bound ≤ shorten n k ↔ (2 * bound - 1) * 10 ^ k ≤ 2 * n := by
  have hbound : bound = 79228162514264337593543950336 := rfl
  have hpow : 0 < 10 ^ k := by positivity
  have hdiv := Nat.div_add_mod n (10 ^ k)
  have hmod := Nat.mod_lt n hpow
  unfold shorten
  simp only [Nat.pow_eq]
  generalize 10 ^ k = p at *
  generalize n / p = q at *
  generalize n % p = r at *
  rw [hbound] at h ⊢
  by_cases hlast : q = 79228162514264337593543950335
  · have hodd : q % 2 = 1 := by rw [hlast]
    have hmul : p * q = 79228162514264337593543950335 * p := by rw [hlast, Nat.mul_comm]
    rcases Nat.lt_or_ge (2 * r) p with hlow | hhigh
    · have hnot : ¬ (2 * r > p ∨ 2 * r = p ∧ q % 2 = 1) := by omega
      rw [if_neg hnot]
      omega
    · have hup : 2 * r > p ∨ 2 * r = p ∧ q % 2 = 1 :=
        (Nat.lt_or_eq_of_le hhigh).imp id fun heq => ⟨heq.symm, hodd⟩
      rw [if_pos hup]
      omega
  · have hmul : p * q ≤ p * 79228162514264337593543950334 := Nat.mul_le_mul_left p (by omega)
    refine iff_of_false ?_ (by omega)
    split <;> omega

/-- Fewer digits to give up than there are fraction digits leave a number well below the bound. -/
theorem two_mul_lt_of_lt {n scale k : Nat} (hk : k < scale) (h : n / 10 ^ k < bound) :
    2 * n < (2 * bound - 1) * 10 ^ scale := by
  have hbound : bound = 79228162514264337593543950336 := rfl
  have hlt : n < bound * 10 ^ k := (Nat.div_lt_iff_lt_mul (by positivity)).mp h
  have hpow : 10 ^ k * 10 ≤ 10 ^ scale := by
    rw [← Nat.pow_succ]
    exact Nat.pow_le_pow_right (by decide) hk
  have hmul : (2 * bound - 1) * (10 ^ k * 10) ≤ (2 * bound - 1) * 10 ^ scale :=
    Nat.mul_le_mul_left _ hpow
  rw [hbound] at *
  omega

theorem ofDigits?_ne_none {negative : Bool} {n scale : Nat} (hn : n < bound)
    (hscale : scale ≤ maxScale) : ofDigits? negative n scale ≠ none := by
  unfold ofDigits?
  rw [dif_pos ⟨hn, hscale⟩]
  simp

theorem toRat_getD_ofDigits? {n scale : Nat} (hn : n < bound) (hscale : scale ≤ maxScale) :
    ((ofDigits? false n scale).getD .zero).toRat = n / 10 ^ scale := by
  simp [ofDigits?, hn, hscale, toRat, signed]

/-- **Digits without a decimal:** those that round to `2 ^ 96` or more as an integer. -/
theorem fit?_eq_none_iff {negative : Bool} {n scale : Nat} (hscale : scale ≤ maxScale) :
    fit? negative n scale = none ↔ (2 * bound - 1) * 10 ^ scale ≤ 2 * n := by
  have hbound : bound = 79228162514264337593543950336 := rfl
  unfold fit?
  cases hexcess : excessDigits? n scale with
  | none =>
    have hle := excessDigits?_eq_none hexcess
    refine iff_of_true rfl ?_
    rw [hbound] at hle ⊢
    omega
  | some k =>
    obtain ⟨hk, hquotient⟩ := excessDigits?_eq_some hexcess
    have hround := bound_le_shorten_iff hquotient
    simp only [Option.bind_eq_bind, Option.bind_some]
    by_cases hq : shorten n k < bound
    · rw [if_pos hq]
      refine iff_of_false (ofDigits?_ne_none hq (by omega)) fun hle => ?_
      rcases Nat.lt_or_eq_of_le hk with hlt | rfl
      · exact absurd hle (Nat.not_le.mpr (two_mul_lt_of_lt hlt hquotient))
      · exact absurd (hround.mpr hle) (Nat.not_le.mpr hq)
    · rw [if_neg hq]
      by_cases hlast : scale = k
      · subst hlast
        rw [if_pos rfl]
        exact iff_of_true rfl (hround.mp (Nat.not_lt.mp hq))
      · have hshort : shorten (shorten n k) 1 < bound := by
          have h₁ := shorten_le n k
          have h₂ := shorten_le (shorten n k) 1
          omega
        rw [if_neg hlast]
        exact iff_of_false (ofDigits?_ne_none hshort (by omega))
          (Nat.not_le.mpr (two_mul_lt_of_lt (by omega) hquotient))

/-! ## Sums -/

theorem mantissaAt_eq {d : Decimal} {scale : Nat} (h : d.scale ≤ scale) :
    (d.mantissaAt scale : ℚ) = d.toRat * 10 ^ scale := by
  have hsplit : (10 : ℚ) ^ scale = 10 ^ d.scale * 10 ^ (scale - d.scale) := by
    rw [← pow_add, Nat.add_sub_cancel' h]
  have hpow : (10 : ℚ) ^ d.scale ≠ 0 := pow_ne_zero _ (by decide)
  rw [mantissaAt, toRat, hsplit, ← mul_assoc, div_mul_cancel₀ _ hpow]
  push_cast [Nat.pow_eq]
  rfl

theorem toRat_of_isZero {d : Decimal} (h : d.isZero = true) : d.toRat = 0 := by
  have hmantissa : d.mantissa = 0 := by simpa [isZero] using h
  rw [toRat, hmantissa, Int.cast_zero, zero_div]

theorem add?_of_isZero_left {a b : Decimal} (ha : a.isZero = true) : a.add? b = some b :=
  if_pos ha

theorem add?_of_isZero_right {a b : Decimal} (ha : ¬ a.isZero = true) (hb : b.isZero = true) :
    a.add? b = some a :=
  (if_neg ha).trans (if_pos hb)

/-- The magnitude of digits with a sign is that of the digits. -/
theorem abs_signed_div (negative : Bool) (n scale : Nat) :
    |(signed negative n : ℚ) / 10 ^ scale| = n / 10 ^ scale := by
  have hpow : (0 : ℚ) < 10 ^ scale := by positivity
  rw [abs_div, abs_of_pos hpow, ← Int.cast_abs, Int.abs_eq_natAbs, natAbs_signed,
    Int.cast_natCast]

/-- The sum of two decimals that are not zero is what is left of the digits of the exact one. -/
theorem exists_add?_eq_fit? {a b : Decimal} (ha : ¬ a.isZero = true) (hb : ¬ b.isZero = true) :
    ∃ negative n scale, scale ≤ maxScale ∧ a.add? b = fit? negative n scale ∧
      a.toRat + b.toRat = signed negative n / 10 ^ scale := by
  unfold add?
  rw [if_neg ha, if_neg hb]
  dsimp only
  generalize hscale : max a.scale b.scale = scale
  have hpow : (10 : ℚ) ^ scale ≠ 0 := pow_ne_zero _ (by decide)
  refine ⟨_, _, scale, hscale ▸ max_le a.scale_le b.scale_le, rfl, ?_⟩
  rw [← Nat.mul_one (Int.natAbs _), signed_natAbs, Nat.cast_one, mul_one, Int.cast_add,
    mantissaAt_eq (hscale ▸ le_max_left _ _), mantissaAt_eq (hscale ▸ le_max_right _ _),
    ← add_mul, mul_div_cancel_right₀ _ hpow]

/-- **Decimals without a sum:** the sum of their numbers is half a unit below `2 ^ 96` or more. -/
theorem add?_eq_none_iff {a b : Decimal} :
    a.add? b = none ↔ (bound : ℚ) - 1 / 2 ≤ |a.toRat + b.toRat| := by
  have hone : ∀ d : Decimal, ¬ (bound : ℚ) - 1 / 2 ≤ |d.toRat| := by
    intro d
    have := d.abs_toRat_le
    linarith
  by_cases ha : a.isZero = true
  · rw [add?_of_isZero_left ha, toRat_of_isZero ha, zero_add]
    exact iff_of_false (by simp) (hone b)
  · by_cases hb : b.isZero = true
    · rw [add?_of_isZero_right ha hb, toRat_of_isZero hb, add_zero]
      exact iff_of_false (by simp) (hone a)
    · obtain ⟨negative, n, scale, hscale, hadd, hsum⟩ := exists_add?_eq_fit? ha hb
      have htwice : ((2 * bound - 1 : Nat) : ℚ) = 2 * bound - 1 := by
        rw [Nat.cast_sub (by decide), Nat.cast_mul, Nat.cast_ofNat, Nat.cast_one]
      rw [hadd, hsum, abs_signed_div, fit?_eq_none_iff hscale, ← Nat.cast_le (α := ℚ),
        Nat.cast_mul, Nat.cast_mul, htwice, Nat.cast_pow, Nat.cast_ofNat, Nat.cast_ofNat,
        le_div_iff₀ (by positivity)]
      constructor <;> intro h <;> linarith

end MarketFeed.Decimal
