import MarketFeed.Market.Error
import MarketFeed.Proofs.Decimal.Plain

/-!
# Reading numerals

What comes out of the characters of a numeral, plain or with an exponent, and that nothing but
numerals has an exponent. Exponents are exact; only the plain part before one can lose digits.

* `Exponent.shift`: what an exponent does to the decimal before it.
* `toRat_of_shift`: it multiplies exactly.
* `readNumeral_chars`: a numeral is read exactly without an exponent and with rounding before one.
* `exists_of_readScientific`: what is read with an exponent is a numeral.
-/

namespace MarketFeed

/-- Reads the exponent into a decimal that has been read before it. -/
def Exponent.shift (x : Exponent) (d : Decimal) : Except NumeralError Decimal :=
  if x.digits.value < UInt32.size then
    if x.minus then d.lower x.digits.value else d.lift x.digits.value
  else .error .badExponent

namespace Decimal

/-! ## Counts -/

theorem foldl_digits (ds : Digits) (acc : Nat) :
    ds.chars.foldl (fun acc c => do some (10 * (← acc) + (← digit? c))) (some acc) =
      some (acc * 10 ^ ds.length + ds.value) := by
  induction ds generalizing acc with
  | nil => simp
  | cons d ds ih =>
    have hstep : (do some (10 * (← some acc) + (← digit? (Nat.digitChar d)))) =
        some (10 * acc + d) := by rw [digit?_digitChar]; rfl
    rw [Digits.chars_cons, List.foldl_cons, hstep, ih, Digits.value_cons, List.length_cons]
    congr 1
    ring

theorem natOfDigits?_chars {ds : Digits} (h : ds ≠ []) :
    natOfDigits? ds.chars = some ds.value := by
  cases ds with
  | nil => exact absurd rfl h
  | cons d ds =>
    have hfold := foldl_digits (d :: ds) 0
    rw [Nat.zero_mul, Nat.zero_add] at hfold
    exact hfold

theorem foldl_none (cs : List Char) :
    cs.foldl (fun acc c => do some (10 * (← acc) + (← digit? c))) none = none := by
  induction cs with
  | nil => rfl
  | cons c rest ih => exact ih

theorem exists_of_foldl {cs : List Char} {acc n : Nat}
    (h : cs.foldl (fun acc c => do some (10 * (← acc) + (← digit? c))) (some acc) = some n) :
    ∃ ds : Digits, cs = ds.chars := by
  induction cs generalizing acc with
  | nil => exact ⟨[], rfl⟩
  | cons c rest ih =>
    rw [List.foldl_cons] at h
    cases hc : digit? c with
    | none =>
      rw [hc] at h
      exact absurd (foldl_none rest ▸ h) (by simp)
    | some d =>
      rw [hc] at h
      obtain ⟨ds, rfl⟩ := ih h
      obtain ⟨d, rfl, -⟩ := exists_of_digit? hc
      exact ⟨d :: ds, rfl⟩

theorem exists_of_natOfDigits? {cs : List Char} {n : Nat} (h : natOfDigits? cs = some n) :
    ∃ ds : Digits, cs = ds.chars ∧ ds ≠ [] := by
  cases cs with
  | nil => cases h
  | cons c rest =>
    obtain ⟨ds, hds⟩ := exists_of_foldl h
    refine ⟨ds, hds, ?_⟩
    rintro rfl
    cases hds

/-- A count with or without a plus sign. -/
theorem readCount32_chars (plus : Bool) {ds : Digits} (h : ds ≠ []) :
    readCount32 ((if plus then ['+'] else []) ++ ds.chars) =
      if ds.value < UInt32.size then some ds.value else none := by
  have hcount : natOfDigits? ds.chars = some ds.value := natOfDigits?_chars h
  cases plus with
  | true => simp only [readCount32, if_true, List.singleton_append, hcount, Option.bind_some]
  | false =>
    cases ds with
    | nil => exact absurd rfl h
    | cons d ds =>
      have hd : Nat.digitChar d ≠ '+' := digitChar_ne rfl d
      rw [if_neg Bool.false_ne_true, List.nil_append]
      unfold readCount32
      rw [Digits.chars_cons] at hcount ⊢
      split
      · rename_i rest heq
        exact absurd (List.cons.inj heq).1 hd
      · simp only [hcount, Option.bind_some]

theorem exists_of_readCount32 {cs : List Char} {n : Nat} (h : readCount32 cs = some n) :
    ∃ (plus : Bool) (ds : Digits), cs = (if plus then ['+'] else []) ++ ds.chars ∧ ds ≠ [] := by
  unfold readCount32 at h
  obtain ⟨m, hm, -⟩ := Option.bind_eq_some_iff.mp h
  obtain ⟨ds, hds, hne⟩ := exists_of_natOfDigits? hm
  split at hds
  · exact ⟨true, ds, by rw [hds]; rfl, hne⟩
  · exact ⟨false, ds, hds, hne⟩

/-! ## Exponents -/

theorem withScale_eq_ok {d r : Decimal} {scale : Nat} :
    d.withScale scale = .ok r ↔ r.mantissa = d.mantissa ∧ r.scale = scale := by
  unfold withScale
  split
  · rw [Except.ok.injEq]
    constructor
    · rintro rfl
      exact ⟨rfl, rfl⟩
    · rintro ⟨hmantissa, rfl⟩
      cases r
      simp only [mk.injEq, and_true]
      exact hmantissa.symm
  · rename_i hscale
    simp only [reduceCtorEq, false_iff]
    rintro ⟨-, rfl⟩
    exact hscale r.scale_le

theorem toRat_of_lower {d r : Decimal} {k : Nat} (h : d.lower k = .ok r) :
    r.toRat = d.toRat * (10 ^ k)⁻¹ := by
  obtain ⟨hmantissa, hscale⟩ := withScale_eq_ok.mp h
  -- A scale that stops at 32 bits is no scale of a decimal.
  have hsum : r.scale = d.scale + k := by
    have hle := r.scale_le
    have hmax : maxScale < UInt32.size - 1 := by decide
    omega
  rw [toRat, toRat, hmantissa, hsum, pow_add, ← div_eq_mul_inv, div_div]

theorem signed_natAbs (n : Int) (k : Nat) :
    signed (decide (n < 0)) (n.natAbs * k) = n * k := by
  unfold signed
  by_cases hneg : n < 0
  · have habs : (n.natAbs : Int) = -n := by omega
    rw [decide_eq_true hneg, if_pos rfl, Nat.cast_mul, habs, neg_mul, neg_neg]
  · have habs : (n.natAbs : Int) = n := by omega
    rw [decide_eq_false hneg, if_neg Bool.false_ne_true, Nat.cast_mul, habs]

theorem toRat_of_lift {d r : Decimal} {k : Nat} (h : d.lift k = .ok r) :
    r.toRat = d.toRat * 10 ^ k := by
  have hpow : ∀ n : Nat, (10 : ℚ) ^ n ≠ 0 := fun n => pow_ne_zero n (by decide)
  unfold lift at h
  split at h
  · rename_i hk
    obtain ⟨hmantissa, hscale⟩ := withScale_eq_ok.mp h
    have hsplit : (10 : ℚ) ^ d.scale = 10 ^ (d.scale - k) * 10 ^ k := by
      rw [← pow_add, Nat.sub_add_cancel hk]
    rw [toRat, toRat, hmantissa, hscale, hsplit, ← div_div, div_mul_cancel₀ _ (hpow k)]
  · rename_i hk
    split at h
    · cases h
    · split at h
      · rename_i r' hr
        obtain rfl := Except.ok.inj h
        obtain ⟨hmantissa, hscale⟩ := ofDigits?_eq_some.mp hr
        have hsplit : (10 : ℚ) ^ k = 10 ^ (k - d.scale) * 10 ^ d.scale := by
          rw [← pow_add, Nat.sub_add_cancel (by omega)]
        rw [signed_natAbs] at hmantissa
        rw [toRat, toRat, hmantissa, hscale, hsplit, Nat.pow_eq, Int.cast_mul, Int.cast_natCast,
          Nat.cast_pow, Nat.cast_ofNat, pow_zero, div_one, div_mul_eq_mul_div, ← mul_assoc,
          mul_div_assoc, div_self (hpow _), mul_one]
      · cases h

/-- **Exponents are exact.** -/
theorem toRat_of_shift {x : Exponent} {d r : Decimal} (h : x.shift d = .ok r) :
    r.toRat = d.toRat * x.factor := by
  unfold Exponent.shift at h
  unfold Exponent.factor
  split at h
  · cases hminus : x.minus with
    | true =>
      rw [hminus, if_pos rfl] at h
      rw [if_pos rfl]
      exact toRat_of_lower h
    | false =>
      rw [hminus, if_neg Bool.false_ne_true] at h
      rw [if_neg Bool.false_ne_true]
      exact toRat_of_lift h
  · cases h

/-! ## Characters of numerals -/

theorem not_mem_digits {c : Char} (hc : digit? c = none) (ds : Digits) : c ∉ ds.chars := by
  intro hmem
  obtain ⟨d, -, hd⟩ := List.mem_map.mp hmem
  exact digitChar_ne hc d hd

/-- A plain numeral has no other characters than digits, a point and a sign. -/
theorem not_mem_plain {c : Char} (hc : digit? c = none) (hpoint : c ≠ '.') (hminus : c ≠ '-')
    (hplus : c ≠ '+') (p : PlainNumeral) : c ∉ p.chars := by
  have hsign : c ∉ p.sign.chars := by
    cases p.sign <;> simp [Sign.chars, hminus, hplus]
  have hfraction : c ∉ p.fraction.elim [] fun ds => '.' :: ds.chars := by
    cases p.fraction with
    | none => simp
    | some places => simp [hpoint, not_mem_digits hc]
  simp only [PlainNumeral.chars, PlainNumeral.body, List.mem_append, not_or]
  exact ⟨hsign, not_mem_digits hc _, hfraction⟩

theorem not_isExponentMark_of_mem {p : PlainNumeral} {c : Char} (h : c ∈ p.chars) :
    isExponentMark c = false := by
  rw [isExponentMark, Bool.or_eq_false_iff, decide_eq_false_iff_not, decide_eq_false_iff_not]
  constructor <;> rintro rfl <;>
    exact not_mem_plain (by decide) (by decide) (by decide) (by decide) p h

theorem separator_not_mem (n : Numeral) : '_' ∉ n.chars := by
  have hdigit : digit? '_' = none := by decide
  have hplain : '_' ∉ n.plain.chars :=
    not_mem_plain hdigit (by decide) (by decide) (by decide) n.plain
  unfold Numeral.chars
  cases n.exponent with
  | none => simpa using hplain
  | some x =>
    have hmark : '_' ≠ x.mark := by
      intro hmark
      have := x.isMark
      rw [← hmark] at this
      cases this
    have hsigns : '_' ∉ (if x.minus then ['-'] else []) ++ (if x.plus then ['+'] else []) := by
      cases x.minus <;> cases x.plus <;> decide
    simp only [List.mem_append, not_or] at hsigns
    simp [Exponent.chars, hplain, hmark, hsigns, not_mem_digits hdigit]

/-! ## Reading -/

theorem takeWhile_chars (p : PlainNumeral) (x : Exponent) :
    (p.chars ++ x.chars).takeWhile (!isExponentMark ·) = p.chars := by
  have hall : ∀ c ∈ p.chars, (!isExponentMark c) = true := by
    intro c hc
    rw [not_isExponentMark_of_mem hc, Bool.not_false]
  have hmark : (!isExponentMark x.mark) = false := by rw [x.isMark, Bool.not_true]
  rw [List.takeWhile_append_of_pos hall, Exponent.chars,
    List.takeWhile_cons_of_neg (by simp [hmark]), List.append_nil]

theorem dropWhile_chars (p : PlainNumeral) (x : Exponent) :
    (p.chars ++ x.chars).dropWhile (!isExponentMark ·) = x.chars := by
  have hall : ∀ c ∈ p.chars, (!isExponentMark c) = true := by
    intro c hc
    rw [not_isExponentMark_of_mem hc, Bool.not_false]
  have hmark : (!isExponentMark x.mark) = false := by rw [x.isMark, Bool.not_true]
  rw [List.dropWhile_append_of_pos hall, Exponent.chars,
    List.dropWhile_cons_of_neg (by simp [hmark])]

theorem readScientific_chars (p : PlainNumeral) (x : Exponent) :
    readScientific (p.chars ++ x.chars) = (readRounded p.chars >>= x.shift) := by
  have hcount := readCount32_chars x.plus x.some_digit
  unfold readScientific
  rw [takeWhile_chars, dropWhile_chars]
  congr 1
  funext base
  unfold Exponent.chars Exponent.shift
  cases hminus : x.minus with
  | true =>
    simp only [if_true, List.cons_append, List.nil_append, hcount]
    split <;> rename_i heq <;> split at heq <;> simp_all
  | false =>
    simp only [Bool.false_eq_true, if_false, List.nil_append]
    split
    · rename_i heq
      cases heq
    · -- An exponent without a minus sign does not begin with one.
      rename_i c digits heq
      exfalso
      obtain ⟨-, heq⟩ := List.cons.inj heq
      cases hplus : x.plus with
      | true => rw [hplus] at heq; cases heq
      | false =>
        cases hdigits : x.digits with
        | nil => exact x.some_digit hdigits
        | cons d ds =>
          rw [hplus, hdigits] at heq
          exact digitChar_ne rfl d (List.cons.inj heq).1
    · rename_i c digits hne heq
      obtain ⟨-, rfl⟩ := List.cons.inj heq
      rw [hcount]
      split <;> rename_i heq <;> split at heq <;> simp_all

/-- **Reading a numeral:** exactly without an exponent, with rounding before one. -/
theorem readNumeral_chars (n : Numeral) :
    readNumeral n.chars =
      match n.exponent with
      | none => readExact n.plain.chars
      | some x => readRounded n.plain.chars >>= x.shift := by
  have hsep : n.chars.contains '_' = false := by
    simpa using separator_not_mem n
  have hplain : n.plain.chars.any isExponentMark = false := by
    rw [List.any_eq_false]
    intro c hc
    simp [not_isExponentMark_of_mem hc]
  unfold readNumeral
  rw [hsep, if_neg Bool.false_ne_true]
  unfold Numeral.chars
  cases n.exponent with
  | none => simp only [Option.elim_none, List.append_nil, hplain, Bool.false_eq_true, if_false]
  | some x =>
    have hany : (n.plain.chars ++ x.chars).any isExponentMark = true := by
      simp [Exponent.chars, x.isMark]
    simp only [Option.elim_some, hany, if_true, readScientific_chars]

/-! ## Nothing else is read -/

/-- A text that is read with an exponent is a numeral. -/
theorem exists_of_readScientific {cs : List Char} {d : Decimal} (hsep : '_' ∉ cs)
    (h : readScientific cs = .ok d) : ∃ n : Numeral, n.chars = cs := by
  have hsplit := List.takeWhile_append_dropWhile (p := (!isExponentMark ·)) (l := cs)
  obtain ⟨base, hbase, h⟩ := bind_eq_ok.mp h
  have hplain : '_' ∉ cs.takeWhile (!isExponentMark ·) :=
    fun hmem => hsep (List.takeWhile_subset _ hmem)
  obtain ⟨p, hp⟩ := exists_of_readPlain hbase hplain
  -- What stands behind the plain part is a mark, a sign and a count.
  have hrest : ∃ x : Exponent, x.chars = cs.dropWhile (!isExponentMark ·) := by
    have hmark := List.head?_dropWhile_not (!isExponentMark ·) cs
    revert h hmark
    generalize cs.dropWhile (!isExponentMark ·) = rest
    intro h hmark
    split at h
    · cases h
    · split at h
      · rename_i mark digits _ n hcount
        obtain ⟨plus, ds, rfl, hne⟩ := exists_of_readCount32 hcount
        exact ⟨⟨mark, true, plus, ds, by simpa using hmark, hne⟩, by simp [Exponent.chars]⟩
      · cases h
    · split at h
      · rename_i mark digits _ _ n hcount
        obtain ⟨plus, ds, rfl, hne⟩ := exists_of_readCount32 hcount
        exact ⟨⟨mark, false, plus, ds, by simpa using hmark, hne⟩, by simp [Exponent.chars]⟩
      · cases h
  obtain ⟨x, hx⟩ := hrest
  refine ⟨⟨p, some x⟩, ?_⟩
  rw [Numeral.chars, Option.elim_some, hp, hx, hsplit]

end Decimal

end MarketFeed
