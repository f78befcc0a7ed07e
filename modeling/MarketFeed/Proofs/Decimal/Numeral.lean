import MarketFeed.Decimal.Numeral
import MarketFeed.Text.Blank
import Mathlib.Algebra.Order.Field.Basic
import Mathlib.Data.List.Induction
import Mathlib.Data.Nat.Digits.Defs
import Mathlib.Data.Nat.Find

/-!
# Numerals and what they denote

The grammar of numerals and their exact values, told apart from how they are read. A plain numeral
is an optional sign and digits with at most one point; an exponent may follow it.

* `Digits.value_append`: the number that digits in a row stand for.
* `PlainNumeral`, `Numeral`: numerals with their texts (`chars`) and their values (`toRat`).
* `PlainNumeral.kept`, `PlainNumeral.excess`: how many fraction digits a decimal has room for, and
  the digits behind them.
* `Numeral.KeepsAll`: no digit but zeros is cut off before an exponent.
-/

namespace MarketFeed

/-- The exact value of a decimal. -/
def Decimal.toRat (d : Decimal) : ℚ := d.mantissa / 10 ^ d.scale

/-- Decimals lie at least one below the bound of their mantissas. -/
theorem Decimal.abs_toRat_le (d : Decimal) : |d.toRat| ≤ Decimal.bound - 1 := by
  have hmantissa : |(d.mantissa : ℚ)| ≤ Decimal.bound - 1 := by
    have hlt : (d.mantissa.natAbs : ℚ) + 1 ≤ Decimal.bound := by
      exact_mod_cast d.mantissa_lt
    rw [← Int.cast_abs, Int.abs_eq_natAbs, Int.cast_natCast]
    linarith
  have hpow : (1 : ℚ) ≤ 10 ^ d.scale := one_le_pow₀ (by norm_num)
  rw [Decimal.toRat, abs_div, abs_of_pos (by positivity : (0 : ℚ) < 10 ^ d.scale)]
  exact (div_le_self (abs_nonneg _) hpow).trans hmantissa

/-- Decimal digits, the first of them the most significant one. -/
abbrev Digits := List (Fin 10)

namespace Digits

/-- The digits that are given as numbers. -/
def of (ns : List Nat) : Digits := ns.map (Fin.ofNat 10)

/-- The number that digits stand for. -/
def value (ds : Digits) : Nat := Nat.ofDigits 10 (ds.reverse.map Fin.val)

/-- The characters of digits. -/
def chars (ds : Digits) : List Char := List.map (fun d : Fin 10 => Nat.digitChar d) ds

@[simp] theorem value_nil : value [] = 0 := rfl

@[simp] theorem chars_nil : chars [] = [] := rfl

@[simp] theorem chars_cons (d : Fin 10) (ds : Digits) :
    chars (d :: ds) = Nat.digitChar d :: chars ds := rfl

theorem chars_append (a b : Digits) : chars (a ++ b) = chars a ++ chars b := List.map_append

theorem value_append (a b : Digits) : value (a ++ b) = value a * 10 ^ b.length + value b := by
  unfold value
  rw [List.reverse_append, List.map_append, Nat.ofDigits_append, List.length_map,
    List.length_reverse]
  ring

theorem value_singleton (d : Fin 10) : value [d] = d := Nat.ofDigits_singleton ..

theorem value_cons (d : Fin 10) (ds : Digits) :
    value (d :: ds) = d * 10 ^ ds.length + value ds := by
  rw [← value_singleton d]
  exact value_append [d] ds

theorem value_lt (ds : Digits) : value ds < 10 ^ ds.length := by
  induction ds with
  | nil => decide
  | cons d ds ih =>
    have hd := d.isLt
    have hmul : (d : Nat) * 10 ^ ds.length ≤ 9 * 10 ^ ds.length := Nat.mul_le_mul_right _ (by omega)
    rw [value_cons, List.length_cons, Nat.pow_succ]
    omega

/-- Only zeros stand for zero. -/
theorem value_eq_zero {ds : Digits} : value ds = 0 ↔ ∀ d ∈ ds, d = 0 := by
  induction ds with
  | nil => simp
  | cons d ds ih =>
    have hpow : 10 ^ ds.length ≠ 0 := by positivity
    have hd : (d : Nat) = 0 ↔ d = 0 := Fin.val_eq_zero_iff
    rw [value_cons, Nat.add_eq_zero_iff, Nat.mul_eq_zero, hd, ih, List.forall_mem_cons]
    simp only [hpow, or_false]

end Digits

/-! ## Plain numerals -/

/-- The sign before a numeral. -/
inductive Sign where
  | none
  | plus
  | minus
deriving DecidableEq

/-- The characters of a sign. -/
def Sign.chars : Sign → List Char
  | .none => []
  | .plus => ['+']
  | .minus => ['-']

/-- A sign and digits with at most one point among them. -/
structure PlainNumeral where
  sign : Sign
  whole : Digits
  /-- The digits after the point, if there is one. -/
  fraction : Option Digits
  some_digit : whole ++ fraction.getD [] ≠ []

namespace PlainNumeral

variable (p : PlainNumeral)

/-- The fraction digits; none without a point. -/
def places : Digits := p.fraction.getD []

/-- The characters behind the sign. -/
def body : List Char := p.whole.chars ++ p.fraction.elim [] fun ds => '.' :: ds.chars

/-- The characters of a numeral. -/
def chars : List Char := p.sign.chars ++ p.body

/-- The digits with their sign, as an integer. -/
def mantissa : Int := Decimal.signed (p.sign = .minus) (p.whole ++ p.places).value

/-- The number that a numeral denotes. -/
def toRat : ℚ := p.mantissa / 10 ^ p.places.length

/-- The number that the digits up to some fraction digit stand for. -/
def valueAt (k : Nat) : Nat := (p.whole ++ p.places.take k).value

/-- Does a decimal have room for the digits up to some fraction digit? -/
def Fits (k : Nat) : Prop := k ≤ Decimal.maxScale ∧ p.valueAt k < Decimal.bound

instance (k : Nat) : Decidable (p.Fits k) := inferInstanceAs (Decidable (_ ∧ _))

/-- How many fraction digits a decimal has room for. -/
def kept : Nat := Nat.findGreatest p.Fits p.places.length

/-- The fraction digits that a decimal has no room for. -/
def excess : Digits := p.places.drop p.kept

variable {p}

theorem fits_kept (h : p.Fits 0) : p.Fits p.kept := Nat.findGreatest_spec (Nat.zero_le _) h

theorem kept_le_length : p.kept ≤ p.places.length := Nat.findGreatest_le _

/-- The first digit that is not kept does not fit. -/
theorem not_fits_succ {d : Fin 10} {ds : Digits} (h : p.excess = d :: ds) :
    ¬ p.Fits (p.kept + 1) := by
  have hlt : p.kept < p.places.length := by
    have hlength := congrArg List.length h
    simp only [excess, List.length_drop, List.length_cons] at hlength
    omega
  exact Nat.findGreatest_is_greatest (Nat.lt_succ_self _) hlt

theorem valueAt_succ {d : Fin 10} {ds : Digits} (h : p.excess = d :: ds) :
    p.valueAt (p.kept + 1) = p.valueAt p.kept * 10 + d := by
  have htake : p.places.take (p.kept + 1) = p.places.take p.kept ++ [d] := by
    have hget : p.places[p.kept]? = some d := by
      rw [← List.head?_drop, ← excess, h, List.head?_cons]
    rw [List.take_add_one, hget]
    rfl
  unfold valueAt
  rw [htake, ← List.append_assoc, Digits.value_append, Digits.value_singleton]
  rfl

/-- All digits are the kept ones and then the others. -/
theorem value_eq : (p.whole ++ p.places).value =
    p.valueAt p.kept * 10 ^ p.excess.length + p.excess.value := by
  rw [valueAt, ← Digits.value_append, List.append_assoc, excess, List.take_append_drop]

theorem length_places : p.places.length = p.kept + p.excess.length := by
  have h := kept_le_length (p := p)
  simp only [excess, List.length_drop]
  omega

end PlainNumeral

/-! ## Numerals -/

/-- A letter and an integer, which a plain numeral may be followed by. A plus sign may stand behind
a minus sign. -/
structure Exponent where
  mark : Char
  minus : Bool
  plus : Bool
  digits : Digits
  isMark : Decimal.isExponentMark mark = true
  some_digit : digits ≠ []

namespace Exponent

/-- The characters of an exponent. -/
def chars (x : Exponent) : List Char :=
  x.mark :: ((if x.minus then ['-'] else []) ++ (if x.plus then ['+'] else []) ++ x.digits.chars)

/-- What a number is multiplied by. -/
def factor (x : Exponent) : ℚ :=
  if x.minus then (10 ^ x.digits.value)⁻¹ else 10 ^ x.digits.value

theorem factor_ne_zero (x : Exponent) : x.factor ≠ 0 := by
  unfold factor
  split
  · exact inv_ne_zero (pow_ne_zero _ (by decide))
  · exact pow_ne_zero _ (by decide)

end Exponent

/-- A plain numeral, and an exponent if there is one. -/
structure Numeral where
  plain : PlainNumeral
  exponent : Option Exponent

namespace Numeral

/-- The characters of a numeral. -/
def chars (n : Numeral) : List Char := n.plain.chars ++ n.exponent.elim [] Exponent.chars

/-- The number that a numeral denotes. -/
def toRat (n : Numeral) : ℚ := n.plain.toRat * n.exponent.elim 1 Exponent.factor

/-- A text is a numeral with perhaps blanks around it. -/
def Spells (n : Numeral) (s : String) : Prop := n.chars = Text.trimChars s.toList

/-- Without an exponent nothing is cut off; before an exponent nothing but zeros is. -/
def KeepsAll (n : Numeral) : Prop := n.exponent = none ∨ ∀ d ∈ n.plain.excess, d = 0

end Numeral

end MarketFeed
