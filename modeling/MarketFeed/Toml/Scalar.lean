import MarketFeed.Settings.Basic

/-!
# Plain values of a TOML text

Numbers, switches and dates are told apart by their whole text, which ends before the next blank,
comma, bracket, comment or line end. Dates and times are kept as texts in one spelling.

* `integer?`, `float?`, `dateTime?`: the three kinds.
* `scalar?`: the value of a text.
-/

namespace MarketFeed.Toml

/-! ## Integers -/

/-- Digits of a class that may have single underscores between them, without these. -/
def ungroup? (isMember : Char → Bool) : List Char → Option (List Char)
  | [] => none
  | [c] => if isMember c then some [c] else none
  | c :: '_' :: d :: rest =>
    if isMember c then (ungroup? isMember (d :: rest)).map (c :: ·) else none
  | c :: rest => if isMember c then (ungroup? isMember rest).map (c :: ·) else none

/-- The number of digits in a base. -/
def valueOf (base : Nat) (digits : List Char) : Nat :=
  let digit (c : Char) : Nat :=
    if c ≤ '9' then c.toNat - 48 else if c ≤ 'F' then c.toNat - 55 else c.toNat - 87
  digits.foldl (fun n c => base * n + digit c) 0

/-- Is this a digit of base 16? -/
def isHexDigit (c : Char) : Bool :=
  c.isDigit || ('a' ≤ c && c ≤ 'f') || ('A' ≤ c && c ≤ 'F')

/-- Is this a digit of base 8? -/
def isOctalDigit (c : Char) : Bool := '0' ≤ c && c ≤ '7'

/-- Is this a digit of base 2? -/
def isBinaryDigit (c : Char) : Bool := c = '0' || c = '1'

/-- Decimal digits without a zero at their front, other than zero itself. -/
def decimalDigits? (cs : List Char) : Option (List Char) := do
  let digits ← ungroup? Char.isDigit cs
  if digits.head? = some '0' ∧ digits.length ≠ 1 then none else some digits

/-- A sign and what follows it: is the number negative? -/
def splitSign : List Char → Bool × List Char
  | '+' :: rest => (false, rest)
  | '-' :: rest => (true, rest)
  | cs => (false, cs)

/-- An integer of 64 bits. -/
def within64? (i : Int) : Option Int :=
  if Int64.minValue.toInt ≤ i ∧ i ≤ Int64.maxValue.toInt then some i else none

/-- The integer that a text spells. -/
def integer? (cs : List Char) : Option Int :=
  match cs with
  | '0' :: 'x' :: digits => do within64? (valueOf 16 (← ungroup? isHexDigit digits))
  | '0' :: 'o' :: digits => do within64? (valueOf 8 (← ungroup? isOctalDigit digits))
  | '0' :: 'b' :: digits => do within64? (valueOf 2 (← ungroup? isBinaryDigit digits))
  | _ => do
    let (isNegative, rest) := splitSign cs
    let n := valueOf 10 (← decimalDigits? rest)
    within64? (if isNegative then -(n : Int) else n)

/-! ## Floats -/

/-- The binary64 number nearest to `m * 10 ^ e`, where `m` has `count` digits. -/
def nearestFloat (m count : Nat) (e : Int) : Float :=
  if m = 0 ∨ e + count < -400 then 0.0
  else if 400 < e then 1.0 / 0.0
  else Float.ofScientific m (e < 0) e.natAbs

/-- A text up to a mark, and the text after the mark, if it is there. -/
def splitMark (isMark : Char → Bool) (cs : List Char) : List Char × Option (List Char) :=
  match cs.dropWhile fun c => !isMark c with
  | [] => (cs, none)
  | _ :: rest => (cs.takeWhile fun c => !isMark c, some rest)

/-- The digits of a part that may be missing. -/
def partDigits? : Option (List Char) → Option (List Char)
  | none => some []
  | some cs => ungroup? Char.isDigit cs

/-- The exponent that a part spells, 0 if it is missing. -/
def exponent? : Option (List Char) → Option Int
  | none => some 0
  | some cs => do
    let (isNegative, rest) := splitSign cs
    let n := valueOf 10 (← ungroup? Char.isDigit rest)
    some (if isNegative then -(n : Int) else n)

/-- The finite number that digits with a fraction or an exponent spell. One that is too large is
refused, unless it is negative. -/
def finite? (isNegative : Bool) (cs : List Char) : Option UInt64 := do
  let (mantissa, exponent) := splitMark (fun c => c = 'e' || c = 'E') cs
  let (whole, fraction) := splitMark (fun c => c = '.') mantissa
  if exponent.isNone ∧ fraction.isNone then none
  let digits := (← decimalDigits? whole) ++ (← partDigits? fraction)
  let places := (← partDigits? fraction).length
  let f := nearestFloat (valueOf 10 digits) digits.length ((← exponent? exponent) - places)
  if isNegative then some (-f).toBits
  else if f.isInf then none
  else some f.toBits

/-- The float that a text spells, as a binary64 pattern. -/
def float? (cs : List Char) : Option UInt64 :=
  let (isNegative, rest) := splitSign cs
  if rest = "inf".toList then
    some (if isNegative then 0xfff0000000000000 else 0x7ff0000000000000)
  else if rest = "nan".toList then some 0x7ff8000000000000
  else finite? isNegative rest

/-! ## Dates and times -/

/-- The number of exactly `count` digits at the front of a text. -/
def digits? (count : Nat) (cs : List Char) : Option (Nat × List Char) :=
  let front := cs.take count
  if front.length = count ∧ front.all Char.isDigit then some (valueOf 10 front, cs.drop count)
  else none

/-- Passes over one character. -/
def mark? (c : Char) : List Char → Option (List Char)
  | d :: rest => if d = c then some rest else none
  | [] => none

/-- A number with at least two digits. -/
def twoDigits (n : Nat) : List Char :=
  let digits := Nat.toDigits 10 n
  List.replicate (2 - digits.length) '0' ++ digits

/-- The days of a month. -/
def daysIn (year month : Nat) : Nat :=
  if month = 2 then
    if year % 4 = 0 ∧ (year % 100 ≠ 0 ∨ year % 400 = 0) then 29 else 28
  else if month = 4 ∨ month = 6 ∨ month = 9 ∨ month = 11 then 30
  else 31

/-- The date at the front of a text, in its own spelling. -/
def date? (cs : List Char) : Option (List Char × List Char) := do
  let (year, rest) ← digits? 4 cs
  let (month, rest) ← digits? 2 (← mark? '-' rest)
  let (day, rest) ← digits? 2 (← mark? '-' rest)
  if 1 ≤ month ∧ month ≤ 12 ∧ 1 ≤ day ∧ day ≤ daysIn year month then
    some (cs.take 10, rest)
  else none

/-- The fraction of a second at the front of a text: nine digits count, zeros at the end do not. -/
def fraction? (cs : List Char) : Option (List Char × List Char) :=
  match cs with
  | '.' :: rest =>
    let digits := rest.takeWhile Char.isDigit
    if digits.isEmpty then none
    else
      let kept := ((digits.take 9).reverse.dropWhile (· = '0')).reverse
      some (if kept.isEmpty then [] else '.' :: kept, rest.dropWhile Char.isDigit)
  | _ => some ([], cs)

/-- The time of day at the front of a text. -/
def time? (cs : List Char) : Option (List Char × List Char) := do
  let (hour, rest) ← digits? 2 cs
  let (minute, rest) ← digits? 2 (← mark? ':' rest)
  let (second, rest) ← digits? 2 (← mark? ':' rest)
  let (fraction, rest) ← fraction? rest
  if hour ≤ 23 ∧ minute ≤ 59 ∧ second ≤ 60 then some (cs.take 8 ++ fraction, rest) else none

/-- The offset from universal time that a text spells; an empty text has none. -/
def offset? (cs : List Char) : Option (List Char) :=
  match cs with
  | [] => some []
  | ['Z'] => some ['Z']
  | ['z'] => some ['Z']
  | sign :: rest => do
    let (hour, rest) ← digits? 2 rest
    let (minute, rest) ← digits? 2 (← mark? ':' rest)
    if (sign = '+' ∨ sign = '-') ∧ hour ≤ 23 ∧ minute ≤ 59 ∧ rest.isEmpty then
      let shown := if hour = 0 ∧ minute = 0 then '+' else sign
      some (shown :: twoDigits hour ++ ':' :: twoDigits minute)
    else none

/-- The time of day and the offset that a text spells. -/
def timeAndOffset? (cs : List Char) : Option (List Char) := do
  let (time, rest) ← time? cs
  some (time ++ (← offset? rest))

/-- The spelling of a date, of a time of day, or of both. -/
def dateTime? (cs : List Char) : Option (List Char) :=
  match date? cs with
  | some (date, []) => some date
  | some (date, mark :: rest) =>
    if mark = 'T' ∨ mark = 't' ∨ mark = ' ' then
      (timeAndOffset? rest).map fun t => date ++ 'T' :: t
    else none
  | none =>
    match time? cs with
    | some (time, []) => some time
    | _ => none

/-! ## All of them -/

/-- The value that a text spells. -/
def scalar? (cs : List Char) : Option Setting :=
  if cs = "true".toList then some (.bool true)
  else if cs = "false".toList then some (.bool false)
  else match dateTime? cs with
    | some text => some (.text (String.ofList text))
    | none =>
      match float? cs with
      | some bits => some (.float bits)
      | none => (integer? cs).map .int

end MarketFeed.Toml
