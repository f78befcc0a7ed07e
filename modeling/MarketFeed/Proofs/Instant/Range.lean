import MarketFeed.Fault
import MarketFeed.Instant
import Mathlib.Algebra.Group.Nat.Defs
import Mathlib.Data.List.Induction

/-!
# The range of instants

A year has four digits. So the milliseconds of an instant are far from the ends of 64 bits, and so
is the distance between two instants.

* `readOctets_bound`: the milliseconds of an instant have at most 15 digits.
* `fitsInt64_sub`: the distance of two such times fits into 64 bits.
-/

namespace MarketFeed.Instant

/-- Instants have at most this many digits, less than a thousandth of what 64 bits hold. -/
def bound : Nat := 10 ^ 15

theorem natOfDigits_lt {digits : List UInt8} (h : digits.all isDigit = true) :
    natOfDigits digits < 10 ^ digits.length := by
  induction digits using List.reverseRecOn with
  | nil => decide
  | append_singleton digits b ih =>
    rw [List.all_append, Bool.and_eq_true] at h
    obtain ⟨hdigits, hb⟩ := h
    have hlt := ih hdigits
    have hle : b.toNat ≤ 0x39 := by
      simp only [List.all_cons, List.all_nil, Bool.and_true, isDigit, Bool.and_eq_true,
        decide_eq_true_eq] at hb
      exact UInt8.le_iff_toNat_le.mp hb.2
    simp only [natOfDigits, List.foldl_append, List.foldl_cons, List.foldl_nil, List.length_append,
      List.length_singleton, Nat.pow_succ] at hlt ⊢
    omega

theorem readFixed_lt {width n : Nat} {input rest : List UInt8}
    (h : readFixed width input = .ok (n, rest)) : n < 10 ^ width := by
  unfold readFixed at h
  split at h
  · cases h
  · rename_i hlength
    split at h
    · rename_i hdigits
      obtain ⟨rfl, -⟩ := Prod.mk.inj (Except.ok.inj h)
      have hlt := natOfDigits_lt hdigits
      rwa [List.length_take_of_le (Nat.le_of_not_lt hlength)] at hlt
    · cases h

theorem readFraction_lt {n : Nat} {input rest : List UInt8}
    (h : readFraction input = .ok (n, rest)) : n < 10 ^ 9 := by
  unfold readFraction at h
  split at h
  · cases h
  · rename_i b input'
    split at h
    · cases h
    · obtain ⟨rfl, -⟩ := Prod.mk.inj (Except.ok.inj h)
      have hkept : (((b :: input').takeWhile isDigit).take 9).all isDigit = true :=
        List.all_eq_true.mpr fun a ha =>
          List.all_eq_true.mp List.all_takeWhile a (List.mem_of_mem_take ha)
      have hlt := natOfDigits_lt hkept
      have hlength := List.length_take_le 9 ((b :: input').takeWhile isDigit)
      generalize ((b :: input').takeWhile isDigit).take 9 = kept at hlt hlength ⊢
      calc natOfDigits kept * 10 ^ (9 - kept.length)
          < 10 ^ kept.length * 10 ^ (9 - kept.length) :=
            Nat.mul_lt_mul_of_pos_right hlt (Nat.pow_pos (by decide))
        _ = 10 ^ 9 := by rw [← Nat.pow_add, Nat.add_sub_of_le hlength]

theorem daysInMonth_le (year month : Nat) : daysInMonth year month ≤ 31 := by
  unfold daysInMonth
  split
  · split <;> omega
  · split <;> omega

theorem daysBeforeMonth_le (year month : Nat) : daysBeforeMonth year month ≤ 31 * (month - 1) := by
  unfold daysBeforeMonth
  induction month - 1 with
  | zero => simp
  | succ k ih =>
    rw [List.range_succ, List.foldl_append]
    have := daysInMonth_le year (k + 1)
    simp only [List.foldl_cons, List.foldl_nil]
    omega

/-- The days of a date are those of a year with four digits. -/
theorem readDate_bounds {days : Int} {input rest : List UInt8}
    (h : readDate input = .ok (days, rest)) : -719528 ≤ days ∧ days < 4000000 := by
  simp only [readDate, bind_eq_ok] at h
  obtain ⟨⟨year, r₁⟩, hyear, r₂, -, ⟨month, r₃⟩, -, r₄, -, ⟨day, r₅⟩, -, h⟩ := h
  split at h
  · rename_i hrange
    obtain ⟨rfl, -⟩ := Prod.mk.inj (Except.ok.inj h)
    have h₁ := readFixed_lt hyear
    have h₂ := daysBeforeMonth_le year month
    have h₃ := daysInMonth_le year month
    unfold daysSinceEpoch leapsBefore
    dsimp only at hrange ⊢
    omega
  · cases h

theorem readTime_lt {millis : Nat} {input rest : List UInt8}
    (h : readTime input = .ok (millis, rest)) : millis < 100000000 := by
  simp only [readTime, bind_eq_ok] at h
  obtain ⟨⟨hour, r₁⟩, -, r₂, -, ⟨minute, r₃⟩, -, r₄, -, ⟨second, r₅⟩, -, h⟩ := h
  have hbound : ∀ {nanos : Nat} {r : List UInt8}, nanos < 10 ^ 9 →
      (if hour ≤ 23 ∧ minute ≤ 59 ∧ second ≤ 60 then
        Except.ok ((hour * 3600 + minute * 60 + second) * 1000 + nanos / 1000000, r)
        else .error TimeError.outOfRange) = .ok (millis, rest) → millis < 100000000 := by
    intro nanos r hnanos hif
    split at hif
    · obtain ⟨rfl, -⟩ := Prod.mk.inj (Except.ok.inj hif)
      omega
    · cases hif
  split at h
  · obtain ⟨⟨nanos, r₆⟩, hfraction, h⟩ := bind_eq_ok.mp h
    exact hbound (readFraction_lt hfraction) h
  · exact hbound (Nat.pow_pos (by decide)) h

/-- The milliseconds of an instant have at most 15 digits. -/
theorem readOctets_bound {n : Int} {input : List UInt8} (h : readOctets input = .ok n) :
    n.natAbs < bound := by
  unfold readOctets at h
  split at h
  · cases h
  · simp only [bind_eq_ok] at h
    obtain ⟨⟨days, r₁⟩, hdays, r₂, -, ⟨millis, r₃⟩, hmillis, ⟨offset, r₄⟩, -, h⟩ := h
    have hdays := readDate_bounds hdays
    have hmillis := readTime_lt hmillis
    split at h
    · cases h
    · split at h
      · cases h
      · obtain rfl := Except.ok.inj h
        unfold bound
        dsimp only at *
        omega

theorem read_bound {s : String} {t : Int64} (h : read s = .ok t) : t.toInt.natAbs < bound := by
  obtain ⟨n, hn, rfl⟩ := map_eq_ok.mp h
  have hbound := readOctets_bound hn
  rwa [Int64.toInt_ofInt_of_le]
  · unfold bound at hbound
    omega
  · unfold bound at hbound
    omega

/-- The distance of two times of at most 15 digits fits into 64 bits. -/
theorem fitsInt64_sub {a b : Int64} (ha : a.toInt.natAbs < bound) (hb : b.toInt.natAbs < bound) :
    FitsInt64 (b.toInt - a.toInt) := by
  have hmin : Int64.minValue.toInt = -2 ^ 63 := rfl
  have hmax : Int64.maxValue.toInt = 2 ^ 63 - 1 := rfl
  unfold bound at ha hb
  unfold FitsInt64
  omega

end MarketFeed.Instant
