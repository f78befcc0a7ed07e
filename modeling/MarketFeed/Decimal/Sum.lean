import MarketFeed.Decimal.Basic

/-!
# Sums of decimals

The sum of two decimals has the larger of their scales, unless one of them is zero: then it is the
other, unchanged. A sum that leaves 96 bits gives up fraction digits, rounding a half to the even
neighbour, and is refused when there are none left to give up.
-/

namespace MarketFeed.Decimal

/-- The mantissa of a decimal at a scale of at least its own. -/
def mantissaAt (d : Decimal) (scale : Nat) : Int := d.mantissa * Nat.pow 10 (scale - d.scale)

/-- `n / 10 ^ k` to the nearest integer, a half to the even one. -/
def shorten (n k : Nat) : Nat :=
  let q := n / Nat.pow 10 k
  let twice := 2 * (n % Nat.pow 10 k)
  if twice > Nat.pow 10 k ∨ (twice = Nat.pow 10 k ∧ q % 2 = 1) then q + 1 else q

/-- The least count of digits, at most `scale`, whose removal brings `n` below the bound. -/
def excessDigits? (n scale : Nat) : Option Nat :=
  (List.range (scale + 1)).find? fun k => n / Nat.pow 10 k < bound

/-- The decimal next to `n / 10 ^ scale` with as many fraction digits as fit. -/
def fit? (negative : Bool) (n scale : Nat) : Option Decimal := do
  let k ← excessDigits? n scale
  let q := shorten n k
  if q < bound then ofDigits? negative q (scale - k)
  else if scale = k then none
  else ofDigits? negative (shorten q 1) (scale - k - 1)

/-- The sum of two decimals, if it can be represented. -/
def add? (a b : Decimal) : Option Decimal :=
  if a.isZero then some b
  else if b.isZero then some a
  else
    let scale := max a.scale b.scale
    let sum := a.mantissaAt scale + b.mantissaAt scale
    fit? (sum < 0) sum.natAbs scale

end MarketFeed.Decimal
