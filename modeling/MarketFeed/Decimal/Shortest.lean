/-!
# Shortest decimal text of a binary number

A binary64 number stands for the reals that round to it. Its shortest text has the fewest digits
that lie among them, and of those the digits nearest to the number itself.

* `Binary.shortest`: these digits and the exponent of the first of them.
* `Binary.positional`: the digits with a point in place and no exponent.
* `Binary.compact`: the digits with an exponent where the number is very large or very small.
* `Binary.display`: the positional text, or the name of what is no finite number.
* `Binary.rounded`: the nearest integer of 64 bits without sign.
-/

namespace MarketFeed.Binary

/-- The sign bit of a binary64 pattern. -/
def isNegative (bits : UInt64) : Bool := bits ≥ 0x8000000000000000

/-- The significand `m` and exponent `q` of a finite pattern: its magnitude is `m * 2 ^ q`. -/
def parts (bits : UInt64) : Nat × Int :=
  let field : Nat := bits.toNat / Nat.pow 2 52 % Nat.pow 2 11
  let fraction : Nat := bits.toNat % Nat.pow 2 52
  if field = 0 then (fraction, Int.negOfNat 1074)
  else (Nat.pow 2 52 + fraction, Int.ofNat field - 1075)

/-- A positive fraction `num / den`. -/
structure Ratio where
  num : Nat
  den : Nat

/-- The magnitude `m * 2 ^ q`. -/
def Ratio.ofBinary (m : Nat) (q : Int) : Ratio := ⟨m * Nat.pow 2 q.toNat, Nat.pow 2 (-q).toNat⟩

/-- The exponent of the leading decimal digit. -/
def Ratio.leading (v : Ratio) : Int :=
  if v.den ≤ v.num then ((Nat.toDigits 10 (v.num / v.den)).length : Int) - 1
  else
    let inverse := (v.den + v.num - 1) / v.num
    Int.negOfNat (Nat.toDigits 10 (inverse - 1)).length

/-- The reals that round to a binary number, as four times their ends over a common
denominator: the lower end is nearer below a power of two. -/
structure Interval where
  low : Nat
  mid : Nat
  high : Nat
  den : Nat
  closed : Bool

/-- The interval of a finite nonzero pattern. -/
def interval (bits : UInt64) : Interval :=
  let (m, q) := parts bits
  let one := Nat.pow 2 q.toNat
  let den := Nat.pow 2 (-q).toNat
  let nearer := bits.toNat % Nat.pow 2 52 = 0 ∧ bits.toNat / Nat.pow 2 52 % Nat.pow 2 11 > 1
  { low := (4 * m - (if nearer then 1 else 2)) * one
    mid := 4 * m * one
    high := (4 * m + 2) * one
    den := 4 * den
    closed := m % 2 = 0 }

/-- Does `c * 10 ^ k` lie in the interval? -/
def Interval.holds (i : Interval) (c : Nat) (k : Int) : Bool :=
  let x := c * Nat.pow 10 k.toNat * i.den
  let s := Nat.pow 10 (-k).toNat
  if i.closed then i.low * s ≤ x && x ≤ i.high * s else i.low * s < x && x < i.high * s

/-- The point of the grid `10 ^ k` in the interval that is nearest to its middle. -/
def Interval.onGrid? (i : Interval) (k : Int) : Option Nat :=
  let scaled := i.mid * Nat.pow 10 (-k).toNat
  let unit := i.den * Nat.pow 10 k.toNat
  let below := scaled / unit
  let twice := 2 * (scaled % unit)
  let nearestFirst :=
    if twice < unit ∨ (twice = unit ∧ below % 2 = 0) then [below, below + 1]
    else [below + 1, below]
  nearestFirst.find? (i.holds · k)

/-- A digit value without the zeros at its end, and how many there were. -/
def stripZeros : Nat → Nat → Nat × Nat
  | 0, n => (n, 0)
  | fuel + 1, n =>
    if n ≠ 0 ∧ n % 10 = 0 then
      let (r, k) := stripZeros fuel (n / 10)
      (r, k + 1)
    else (n, 0)

/-- The digits of the shortest text of a finite pattern, and the exponent of the first. -/
def shortest (bits : UInt64) : List Char × Int :=
  let (m, q) := parts bits
  if m = 0 then (['0'], 0)
  else
    let i := interval bits
    let lead := (Ratio.ofBinary m q).leading
    let found := (List.range 17).findSome? fun (n : Nat) =>
      let k := lead - Int.ofNat n
      (i.onGrid? k).map fun c => (c, k)
    match found with
    | some (c, k) =>
      let (d, dropped) := stripZeros 20 c
      let digits := Nat.toDigits 10 d
      (digits, k + dropped + digits.length - 1)
    | none => (['0'], 0)

/-- Digits with a point in place: `exponent` is that of the first digit. -/
def place (digits : List Char) (exponent : Int) : List Char × List Char :=
  if exponent < 0 then (['0'], List.replicate (-exponent - 1).toNat '0' ++ digits)
  else
    let whole := exponent.toNat + 1
    (digits.take whole ++ List.replicate (whole - digits.length) '0', digits.drop whole)

/-- The text without an exponent; a whole number has no point. -/
def positional (bits : UInt64) : List Char :=
  let (digits, exponent) := shortest bits
  let (whole, fraction) := place digits exponent
  (if isNegative bits then ['-'] else []) ++ whole ++
    (if fraction.isEmpty then [] else '.' :: fraction)

/-- The text with a point and at least one fraction digit from `10 ^ -4` up to `10 ^ 16`; outside
of that, an exponent with its sign and at least two digits. -/
def compact (bits : UInt64) : List Char :=
  let (digits, exponent) := shortest bits
  let sign := if isNegative bits then ['-'] else []
  if -4 ≤ exponent ∧ exponent < 16 then
    let (whole, fraction) := place digits exponent
    sign ++ whole ++ '.' :: (if fraction.isEmpty then ['0'] else fraction)
  else
    let magnitude := Nat.toDigits 10 exponent.natAbs
    sign ++ digits.take 1 ++ (if digits.length > 1 then '.' :: digits.drop 1 else []) ++
      ['e', if exponent < 0 then '-' else '+'] ++
      List.replicate (2 - magnitude.length) '0' ++ magnitude

/-! ## All patterns -/

/-- Is the pattern neither infinite nor no number at all? -/
def isFinite (bits : UInt64) : Bool := bits.toNat / Nat.pow 2 52 % Nat.pow 2 11 < 2047

/-- Is the pattern no number at all? -/
def isUndefined (bits : UInt64) : Bool := !isFinite bits && bits.toNat % Nat.pow 2 52 ≠ 0

/-- The text of any pattern. -/
def display (bits : UInt64) : List Char :=
  if isUndefined bits then "NaN".toList
  else if isFinite bits then positional bits
  else (if isNegative bits then ['-'] else []) ++ "inf".toList

/-- The nearest integer from 0 below `2 ^ 64`; halves go away from zero, numbers outside to the
nearer end, and what is no number to 0. -/
def rounded (bits : UInt64) : UInt64 :=
  if isUndefined bits || isNegative bits then 0
  else if isFinite bits then
    let (m, q) := parts bits
    let den := Nat.pow 2 (-q).toNat
    UInt64.ofNat (min ((2 * m * Nat.pow 2 q.toNat + den) / (2 * den)) (UInt64.size - 1))
  else UInt64.ofNat (UInt64.size - 1)

end MarketFeed.Binary
