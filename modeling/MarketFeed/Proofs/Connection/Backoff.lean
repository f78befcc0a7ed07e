import MarketFeed.Connection.Reconnect
import Mathlib.Algebra.Order.Field.Rat
import Mathlib.Order.Monotone.Defs
import Mathlib.Tactic.Linarith
import Mathlib.Tactic.Ring

/-!
# Growing delays

A growing delay doubles up to its maximum, and the random factor moves it by a fifth. A doubled
delay is out of reach of the delay before it; so while delays double, each is longer than the last
one, whatever the random factors are.

Times are counted with 64 bits of seconds, and the longest base that can be given, doubled sixteen
times, does not fit into them. The computation stops at the longest time there and goes on with the
maximum, which fits; so nothing is lost.

* `computed?_eq`: the computation gives the delay, and no step of it leaves the bounds.
* `nominal_mono`, `nominal_eq_max_iff`, `nominal_of_le`: how delays grow without the random factor.
* `delay_bounds`, `delay_lt_succ`: what the random factor can change.
* `backoff_envelope`: all this for any growing delay.
-/

namespace MarketFeed.ReconnectPolicy

/-- The random factors lie between 4/5 and 6/5. -/
def IsJitter (jitter : ℚ) : Prop := 4 / 5 ≤ jitter ∧ jitter ≤ 6 / 5

/-! ## Growth without the random factor -/

section Nominal

variable {base max a b : Nat}

theorem nominal_eq_max_iff : nominal base max a = max ↔ max ≤ base * 2 ^ doublings a :=
  min_eq_right_iff

theorem nominal_of_fits (h : base * 2 ^ doublings a ≤ max) :
    nominal base max a = base * 2 ^ doublings a := min_eq_left h

theorem nominal_le (base max a : Nat) : nominal base max a ≤ max := min_le_right _ _

/-- Delays do not shrink. -/
theorem nominal_mono (base max : Nat) : Monotone (nominal base max) := by
  intro a b h
  have hdoublings : doublings a ≤ doublings b :=
    min_le_min_right 16 (Nat.sub_le_sub_right h 1)
  exact min_le_min_right max (Nat.mul_le_mul_left base (Nat.pow_le_pow_right two_pos hdoublings))

/-- Up to the 17th attempt, a delay doubles with each one. -/
theorem doublings_of_le (h : a ≤ 17) : doublings a = a - 1 := by
  unfold doublings
  omega

/-- From the 17th attempt on, delays stay as they are. -/
theorem nominal_of_le (h : 17 ≤ a) : nominal base max a = nominal base max 17 := by
  have hlast : doublings a = doublings 17 := by
    unfold doublings
    omega
  rw [nominal, nominal, hlast]

/-- Delays are at the maximum from the first attempt on that doubles the base so far. -/
theorem forall_nominal_eq_max_iff (h : a ≤ 17) :
    (∀ b, a ≤ b → nominal base max b = max) ↔ max ≤ base * 2 ^ (a - 1) := by
  rw [← doublings_of_le h, ← nominal_eq_max_iff]
  refine ⟨fun hall => hall a (le_refl a), fun hfirst b hb => ?_⟩
  exact le_antisymm (nominal_le base max b) (hfirst.ge.trans (nominal_mono base max hb))

end Nominal

/-! ## The random factor -/

section Delay

variable {jitter jitter' : ℚ}

theorem delay_backoff (base max a : Nat) (jitter : ℚ) :
    (backoff base max).delay a jitter = min (nominal base max a * jitter) max :=
  (min_def _ _).symm

/-- A delay is off by a fifth of what it is without the random factor, and within the maximum. -/
theorem delay_bounds (base max a : Nat) (h : IsJitter jitter) :
    min (4 / 5 * nominal base max a : ℚ) max ≤ (backoff base max).delay a jitter ∧
      (backoff base max).delay a jitter ≤ min (6 / 5 * nominal base max a : ℚ) max := by
  have hnominal : (0 : ℚ) ≤ nominal base max a := Nat.cast_nonneg _
  rw [delay_backoff, mul_comm (nominal base max a : ℚ) jitter]
  exact ⟨min_le_min_right _ (mul_le_mul_of_nonneg_right h.1 hnominal),
    min_le_min_right _ (mul_le_mul_of_nonneg_right h.2 hnominal)⟩

/-- While delays double, each is longer than the last one. -/
theorem delay_lt_succ {base max a : Nat} (hbase : 0 < base) (hfirst : 1 ≤ a) (hlast : a ≤ 16)
    (hfits : base * 2 ^ a ≤ max) (h : IsJitter jitter) (h' : IsJitter jitter') :
    (backoff base max).delay a jitter < (backoff base max).delay (a + 1) jitter' := by
  obtain ⟨n, rfl⟩ := Nat.exists_eq_add_of_le' hfirst
  have hdouble : base * 2 ^ (n + 1) = 2 * (base * 2 ^ n) := by ring
  have hn : doublings (n + 1) = n := doublings_of_le (Nat.le_succ_of_le hlast)
  have hn' : doublings (n + 1 + 1) = n + 1 := doublings_of_le (Nat.succ_le_succ hlast)
  have hbefore : nominal base max (n + 1) = base * 2 ^ n := by
    rw [nominal_of_fits (by rw [hn]; omega), hn]
  have hafter : nominal base max (n + 1 + 1) = 2 * (base * 2 ^ n) := by
    rw [nominal_of_fits (by rwa [hn']), hn', hdouble]
  have hpositive : (0 : ℚ) < (base * 2 ^ n : Nat) := by
    exact_mod_cast Nat.mul_pos hbase (Nat.two_pow_pos n)
  have hmax : (2 * (base * 2 ^ n : Nat) : ℚ) ≤ max := by exact_mod_cast hdouble ▸ hfits
  -- Six fifths of a delay are less than four fifths of twice the delay.
  have hupper := (delay_bounds base max (n + 1) h).2
  have hlower := (delay_bounds base max (n + 1 + 1) h').1
  rw [hbefore] at hupper
  rw [hafter, Nat.cast_mul, Nat.cast_two, min_eq_left (by linarith)] at hlower
  have hsmall := hupper.trans (min_le_left _ _)
  linarith

end Delay

/-! ## The computation -/

section Computation

variable {jitter : ℚ}

theorem toNat_attemptsBefore (attempt : UInt32) :
    (attemptsBefore attempt).toNat = attempt.toNat - 1 := by
  unfold attemptsBefore
  split
  · rename_i hzero
    rw [hzero]
    rfl
  · rename_i hzero
    have hone : (1 : UInt32) ≤ attempt := by
      rw [UInt32.le_iff_toNat_le]
      exact Nat.one_le_iff_ne_zero.mpr fun h => hzero (UInt32.toNat_inj.mp h)
    rw [UInt32.toNat_sub_of_le _ _ hone]
    rfl

theorem toNat_wordDoublings (attempt : UInt32) :
    (wordDoublings attempt).toNat = doublings attempt.toNat := by
  unfold wordDoublings doublings
  rw [← toNat_attemptsBefore]
  split
  · rename_i h
    exact (min_eq_left (UInt32.le_iff_toNat_le.mp h)).symm
  · rename_i h
    exact (min_eq_right (le_of_not_ge (mt UInt32.le_iff_toNat_le.mpr h))).symm

theorem powerOfTwo?_eq {exponent : UInt32} (h : exponent.toNat ≤ 16) :
    ∃ factor, powerOfTwo? exponent = some factor ∧ factor.toNat = 2 ^ exponent.toNat := by
  have hbits : exponent < 32 := UInt32.lt_iff_toNat_lt.mpr (Nat.lt_of_le_of_lt h (by decide))
  refine ⟨1 <<< exponent, if_pos hbits, ?_⟩
  have hpow : 2 ^ exponent.toNat < 2 ^ 32 := Nat.pow_lt_pow_right (by decide) (by omega)
  rw [UInt32.toNat_shiftLeft, Nat.mod_eq_of_lt (by omega : exponent.toNat < 32), Nat.shiftLeft_eq]
  simpa using hpow

theorem timeOfMillis_eq (millis : UInt64) : timeOfMillis millis = millis.toNat * 10 ^ 6 := rfl

theorem two_mul_timeOfMillis_lt (millis : UInt64) : 2 * timeOfMillis millis < timeBound := by
  have hmillis := millis.toNat_lt
  have hbound : timeBound = 18446744073709551616 * 10 ^ 9 := rfl
  rw [timeOfMillis_eq, hbound]
  omega

theorem stretch?_eq {max : UInt64} {time : Nat} (h : IsJitter jitter)
    (htime : time ≤ timeOfMillis max) : stretch? time jitter = some (time * jitter) := by
  have hpositive : (0 : ℚ) ≤ time := Nat.cast_nonneg _
  have htwice : (2 * time : ℚ) < timeBound := by
    exact_mod_cast (Nat.mul_le_mul_left 2 htime).trans_lt (two_mul_timeOfMillis_lt max)
  obtain ⟨hlow, hhigh⟩ := h
  refine if_pos ⟨mul_nonneg hpositive (by linarith), lt_of_le_of_lt ?_ htwice⟩
  rw [mul_comm]
  exact mul_le_mul_of_nonneg_right (by linarith) hpositive

/-- Where the multiple stops at the longest time, the maximum is shorter anyway. -/
theorem min_saturatingMultiple (base max : UInt64) {factor : UInt32} {a : Nat}
    (h : factor.toNat = 2 ^ doublings a) :
    min (saturatingMultiple (timeOfMillis base) factor) (timeOfMillis max) =
      nominal base.toNat max.toNat a * 10 ^ 6 := by
  have hmax : timeOfMillis max ≤ timeBound - 1 := by
    have := two_mul_timeOfMillis_lt max
    omega
  rw [saturatingMultiple, min_assoc, min_eq_right hmax, h, timeOfMillis_eq, timeOfMillis_eq,
    nominal, Nat.mul_right_comm, Nat.mul_min_mul_right]
  rfl

/-- **Computation.** No step leaves the bounds of words and times, and what comes out is the
delay. -/
theorem computed?_eq (base max : UInt64) (attempt : UInt32) (h : IsJitter jitter) :
    computed? base max attempt jitter =
      some ((backoff base.toNat max.toNat).delay attempt.toNat jitter * 10 ^ 6) := by
  have hsmall : (wordDoublings attempt).toNat ≤ 16 :=
    toNat_wordDoublings attempt ▸ min_le_right _ 16
  obtain ⟨factor, hfactor, hpower⟩ := powerOfTwo?_eq hsmall
  rw [toNat_wordDoublings] at hpower
  have hbounded := min_saturatingMultiple base max hpower
  have hfits : nominal base.toNat max.toNat attempt.toNat * 10 ^ 6 ≤ timeOfMillis max :=
    Nat.mul_le_mul_right _ (nominal_le _ _ _)
  simp only [computed?, hfactor, hbounded, stretch?_eq h hfits, Option.bind_eq_bind,
    Option.bind_some, ← min_def]
  rw [delay_backoff, min_mul_of_nonneg _ _ (by norm_num), timeOfMillis_eq, Nat.cast_mul,
    Nat.cast_mul, Nat.cast_pow, Nat.cast_ofNat, mul_right_comm]

end Computation

/-- **Growing delays.** Let a base and a maximum of 64 bits be given, an attempt of 32 bits and a
random factor. The delay can be computed in words and bounded times. It is at least four fifths
and at most six fifths of what it is without the random factor, and within the maximum. Without the
random factor delays do not shrink from attempt to attempt; they are at the maximum from the first
attempt on at which the doubled base is not below it, if this is one of the first 17, and from the
17th on they stay as they are. And while the doubled base keeps to the maximum, a delay is longer
than the one before it, whatever the random factors are. -/
theorem backoff_envelope (base max : UInt64) (attempt : UInt32) {jitter : ℚ}
    (h : IsJitter jitter) :
    computed? base max attempt jitter =
        some ((backoff base.toNat max.toNat).delay attempt.toNat jitter * 10 ^ 6) ∧
    (min (4 / 5 * nominal base.toNat max.toNat attempt.toNat : ℚ) max.toNat ≤
        (backoff base.toNat max.toNat).delay attempt.toNat jitter ∧
      (backoff base.toNat max.toNat).delay attempt.toNat jitter ≤
        min (6 / 5 * nominal base.toNat max.toNat attempt.toNat : ℚ) max.toNat) ∧
    Monotone (nominal base.toNat max.toNat) ∧
    (∀ a ≤ 17, (∀ b, a ≤ b → nominal base.toNat max.toNat b = max.toNat) ↔
      max.toNat ≤ base.toNat * 2 ^ (a - 1)) ∧
    (∀ a, 17 ≤ a → nominal base.toNat max.toNat a = nominal base.toNat max.toNat 17) ∧
    ∀ a, 0 < base.toNat → 1 ≤ a → a ≤ 16 → base.toNat * 2 ^ a ≤ max.toNat →
      ∀ r r', IsJitter r → IsJitter r' → (backoff base.toNat max.toNat).delay a r <
        (backoff base.toNat max.toNat).delay (a + 1) r' := by
  refine ⟨computed?_eq base max attempt h, delay_bounds _ _ _ h, nominal_mono _ _,
    fun a ha => forall_nominal_eq_max_iff ha, fun a ha => nominal_of_le ha, ?_⟩
  intro a hbase hfirst hlast hfits r r' hr hr'
  exact delay_lt_succ hbase hfirst hlast hfits hr hr'

/-- The longest base and maximum at the last attempt, with the largest factor: the doubled base does
not fit, and the delay is the maximum. And the last two delays from one second on that double within
a minute are apart, be the first one stretched and the second one shortened. -/
theorem backoff_envelope_longest :
    IsJitter (6 / 5) ∧ timeBound ≤ timeOfMillis 18446744073709551615 * 2 ^ 16 ∧
      computed? 18446744073709551615 18446744073709551615 4294967295 (6 / 5) =
        some (18446744073709551615 * 10 ^ 6) ∧
      (backoff 1000 60000).delay 5 (6 / 5) < (backoff 1000 60000).delay 6 (4 / 5) := by
  have hlarge : IsJitter (6 / 5) := ⟨by norm_num, by norm_num⟩
  have hsmall : IsJitter (4 / 5) := ⟨by norm_num, by norm_num⟩
  have hdelay : (backoff (18446744073709551615 : UInt64).toNat
      (18446744073709551615 : UInt64).toNat).delay (4294967295 : UInt32).toNat (6 / 5) =
        18446744073709551615 := by decide +kernel
  obtain ⟨hcomputed, -⟩ :=
    backoff_envelope 18446744073709551615 18446744073709551615 4294967295 hlarge
  obtain ⟨-, -, -, -, -, hgrows⟩ := backoff_envelope 1000 60000 5 hlarge
  exact ⟨hlarge, by decide, hcomputed.trans (by rw [hdelay]),
    hgrows 5 (by decide) (by decide) (by decide) (by decide) _ _ hlarge hsmall⟩

end MarketFeed.ReconnectPolicy
