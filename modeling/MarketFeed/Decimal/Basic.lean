/-!
# Decimals

A decimal is a signed mantissa below `2 ^ 96` and a count of fraction digits of at most 28.
Two decimals with the same value and different scales are different: `2.0` keeps its zero.

* `Decimal.render`: the exact text, with as many fraction digits as the scale says.
* `Decimal.ofDigits?`: a decimal of a digit value and a scale, if it fits.
-/

namespace MarketFeed

/-- The largest count of fraction digits. -/
def Decimal.maxScale : Nat := 28

/-- Mantissas stay below `2 ^ 96`. -/
def Decimal.bound : Nat := Nat.pow 2 96

/-- An exact decimal number `mantissa / 10 ^ scale`. -/
structure Decimal where
  mantissa : Int
  scale : Nat
  mantissa_lt : mantissa.natAbs < Decimal.bound
  scale_le : scale ≤ Decimal.maxScale
deriving DecidableEq

namespace Decimal

/-- Zero without fraction digits. -/
def zero : Decimal := ⟨0, 0, by decide, by decide⟩

instance : Inhabited Decimal := ⟨zero⟩

/-- The integer `-n` or `n`. -/
def signed (negative : Bool) (n : Nat) : Int := if negative then -(n : Int) else n

theorem natAbs_signed (negative : Bool) (n : Nat) : (signed negative n).natAbs = n := by
  unfold signed; split <;> omega

/-- The decimal of a digit value and a scale, or nothing if one of them is too large. -/
def ofDigits? (negative : Bool) (n scale : Nat) : Option Decimal :=
  if h : n < bound ∧ scale ≤ maxScale then
    some ⟨signed negative n, scale, by rw [natAbs_signed]; exact h.1, h.2⟩
  else none

/-- Is the mantissa zero? -/
def isZero (d : Decimal) : Bool := d.mantissa == 0

/-- `digits` with zeros in front until there are at least `width` of them. -/
def padded (width : Nat) (digits : List Char) : List Char :=
  List.replicate (width - digits.length) '0' ++ digits

/-- The characters of the text of a decimal: a sign only below zero, at least one digit before
the point, and a point only if there are fraction digits. -/
def chars (d : Decimal) : List Char :=
  let digits := padded (d.scale + 1) (Nat.toDigits 10 d.mantissa.natAbs)
  let whole := digits.take (digits.length - d.scale)
  let fraction := digits.drop (digits.length - d.scale)
  (if d.mantissa < 0 then ['-'] else []) ++ whole ++
    (if d.scale = 0 then [] else '.' :: fraction)

/-- The exact text of a decimal. -/
def render (d : Decimal) : String := String.ofList d.chars

end Decimal

end MarketFeed
