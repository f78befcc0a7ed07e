import MarketFeed.Decimal.Basic

/-!
# Decimal numerals

A plain numeral is an optional sign, digits and at most one point. A scientific numeral is a plain
one, `e` or `E`, and a 32-bit exponent with an optional sign.

* `Decimal.readExact`: a plain numeral whose value has to fit without rounding.
* `Decimal.readRounded`: a plain numeral; fraction digits that do not fit are rounded away.
* `Decimal.readScientific`: a scientific numeral, whose plain part is read as by `readRounded`.
-/

namespace MarketFeed

/-- Why a text is not a decimal. -/
inductive NumeralError where
  /-- The text is empty. -/
  | empty
  /-- There is no digit at all. -/
  | noDigits
  /-- A character has no place in a numeral. -/
  | unknownCharacter
  /-- A second point follows the first. -/
  | twoPoints
  /-- A separator stands before the first digit. -/
  | leadingSeparator
  /-- The digits before the point exceed 96 bits. -/
  | tooManyDigits
  /-- The value exceeds 96 bits once it is rounded to an integer. -/
  | roundedTooLarge
  /-- Fraction digits would have to be rounded away. -/
  | tooPrecise
  /-- The exponent lifts the value above 96 bits. -/
  | tooLarge
  /-- The exponent asks for a scale above 28. -/
  | scaleTooLarge (scale : Nat)
  /-- The exponent is not a 32-bit number. -/
  | badExponent
  /-- Digit separators are refused. -/
  | separator
deriving DecidableEq

/-- The wording of each cause. -/
def NumeralError.message : NumeralError → String
  | .empty => "Invalid decimal: empty"
  | .noDigits => "Invalid decimal: no digits found"
  | .unknownCharacter => "Invalid decimal: unknown character"
  | .twoPoints => "Invalid decimal: two decimal points"
  | .leadingSeparator => "Invalid decimal: must start lead with a number"
  | .tooManyDigits => "Invalid decimal: overflow from too many digits"
  | .roundedTooLarge => "Invalid decimal: overflow from mantissa after rounding"
  | .tooPrecise => "Number has a high precision that can not be represented."
  | .tooLarge => "Number exceeds maximum value that can be represented."
  | .scaleTooLarge n =>
    "Scale exceeds the maximum precision allowed: " ++ n.repr ++ " > " ++ Decimal.maxScale.repr
  | .badExponent => "Failed to parse"
  | .separator => "digit separators are not allowed"

namespace Decimal

/-- What becomes of fraction digits that do not fit. -/
inductive Excess where
  | refuse
  | round
deriving DecidableEq

/-- The value of an ASCII digit. -/
def digit? (c : Char) : Option Nat :=
  if '0' ≤ c ∧ c ≤ '9' then some (c.toNat - '0'.toNat) else none

/-- The cause that a character out of place stands for. -/
def misplaced (c : Char) : NumeralError :=
  if c = '.' then .twoPoints else if c = '_' then .leadingSeparator else .unknownCharacter

/-- Digits after the last one that fits only have to be digits. -/
def checkTail : List Char → Except NumeralError Unit
  | [] => .ok ()
  | c :: rest => if (digit? c).isSome || c = '_' then checkTail rest else .error (misplaced c)

/-- Rounds at the first digit `next` that does not fit: five and above count up, and a mantissa
that leaves 96 bits by this gives up one more digit. -/
def roundUpTo (value scale next : Nat) : Except NumeralError (Nat × Nat) :=
  if next < 5 then .ok (value, scale)
  else if value + 1 < bound then .ok (value + 1, scale)
  else if scale = 0 then .error .roundedTooLarge
  else .ok ((value + 5) / 10, scale - 1)

/-- What follows the last fraction digit that fits. -/
def cutOff (excess : Excess) (value scale : Nat) (c : Char) (rest : List Char) :
    Except NumeralError (Nat × Nat) :=
  match excess with
  | .refuse => .error .tooPrecise
  | .round =>
    match digit? c with
    | some next => do checkTail rest; roundUpTo value scale next
    | none => if c = '_' then do checkTail rest; .ok (value, scale) else .error (misplaced c)

/-- Reads digits and the point after the sign: `value` and `scale` so far, whether the point has
been read, and whether a digit has. -/
def readDigits (excess : Excess) (value scale : Nat) (point any : Bool) :
    List Char → Except NumeralError (Nat × Nat)
  | [] => if any then .ok (value, scale) else .error .noDigits
  | c :: rest =>
    if scale ≥ maxScale then cutOff excess value scale c rest
    else match digit? c with
      | some d =>
        if value * 10 + d < bound then
          readDigits excess (value * 10 + d) (if point then scale + 1 else 0) point true rest
        else if point then cutOff excess value scale c rest
        else .error .tooManyDigits
      | none =>
        if c = '.' ∧ !point then readDigits excess value scale true any rest
        else if c = '_' ∧ any then readDigits excess value scale point any rest
        else .error (misplaced c)

/-- Splits an optional sign from a text; the first part says whether it is a minus. -/
def splitSign : List Char → Bool × List Char
  | '-' :: rest => (true, rest)
  | '+' :: rest => (false, rest)
  | cs => (false, cs)

/-- Reads a plain numeral. -/
def readPlain (excess : Excess) (cs : List Char) : Except NumeralError Decimal :=
  if cs.isEmpty then .error .empty
  else do
    let (negative, rest) := splitSign cs
    let (value, scale) ← readDigits excess 0 0 false false rest
    match ofDigits? negative value scale with
    | some d => .ok d
    | none => .error .tooLarge

/-- Reads a plain numeral whose value fits without rounding. -/
def readExact (cs : List Char) : Except NumeralError Decimal := readPlain .refuse cs

/-- Reads a plain numeral, rounding fraction digits that do not fit. -/
def readRounded (cs : List Char) : Except NumeralError Decimal := readPlain .round cs

/-- The value of a text of ASCII digits. -/
def natOfDigits? : List Char → Option Nat
  | [] => none
  | cs => cs.foldl (fun acc c => do some (10 * (← acc) + (← digit? c))) (some 0)

/-- Reads a count of at most 32 bits, with an optional plus sign. -/
def readCount32 (cs : List Char) : Option Nat :=
  let digits := match cs with | '+' :: rest => rest | _ => cs
  (natOfDigits? digits).bind fun n => if n < UInt32.size then some n else none

/-- The same digits with another scale. -/
def withScale (d : Decimal) (scale : Nat) : Except NumeralError Decimal :=
  if h : scale ≤ maxScale then .ok ⟨d.mantissa, scale, d.mantissa_lt, h⟩
  else .error (.scaleTooLarge scale)

/-- Divides by a power of ten, which raises the scale; a scale stops at the last 32-bit number. -/
def lower (d : Decimal) (exponent : Nat) : Except NumeralError Decimal :=
  d.withScale (min (d.scale + exponent) (UInt32.size - 1))

/-- Multiplies by a power of ten: it takes up the scale first, then lifts the mantissa. -/
def lift (d : Decimal) (exponent : Nat) : Except NumeralError Decimal :=
  if exponent ≤ d.scale then d.withScale (d.scale - exponent)
  else if exponent > maxScale then .error (.scaleTooLarge exponent)
  else match ofDigits? (d.mantissa < 0) (d.mantissa.natAbs * Nat.pow 10 (exponent - d.scale)) 0 with
    | some r => .ok r
    | none => .error .tooLarge

/-- Is this the letter before an exponent? -/
def isExponentMark (c : Char) : Bool := c = 'e' || c = 'E'

/-- Reads a scientific numeral. -/
def readScientific (cs : List Char) : Except NumeralError Decimal := do
  let base ← readRounded (cs.takeWhile (!isExponentMark ·))
  match cs.dropWhile (!isExponentMark ·) with
  | [] => .error .badExponent
  | _ :: '-' :: digits =>
    match readCount32 digits with
    | some n => base.lower n
    | none => .error .badExponent
  | _ :: digits =>
    match readCount32 digits with
    | some n => base.lift n
    | none => .error .badExponent

end Decimal

end MarketFeed
