import MarketFeed.Text.Utf8

/-!
# Instants

An instant is written as a date, a time with optional fraction digits, and an offset from universal
time below 24 hours. `Instant.read` gives the milliseconds of the Unix epoch; a sixtieth second
counts on into the next minute.
-/

namespace MarketFeed.Instant

/-- Why a text is not an instant. -/
inductive TimeError where
  | outOfRange
  | invalid
  | tooShort
  | tooLong
deriving DecidableEq

/-- The wording of each cause. -/
def TimeError.message : TimeError → String
  | .outOfRange => "input is out of range"
  | .invalid => "input contains invalid characters"
  | .tooShort => "premature end of input"
  | .tooLong => "trailing input"

/-- Is this an ASCII digit? -/
def isDigit (b : UInt8) : Bool := 0x30 ≤ b && b ≤ 0x39

/-- The value of some digits. -/
def natOfDigits (digits : List UInt8) : Nat :=
  digits.foldl (fun n b => 10 * n + (b.toNat - 0x30)) 0

/-- Reads exactly `width` digits. -/
def readFixed (width : Nat) (input : List UInt8) : Except TimeError (Nat × List UInt8) :=
  if input.length < width then .error .tooShort
  else if (input.take width).all isDigit then
    .ok (natOfDigits (input.take width), input.drop width)
  else .error .invalid

/-- Passes over an octet of a class. -/
def readMark (p : UInt8 → Bool) : List UInt8 → Except TimeError (List UInt8)
  | [] => .error .tooShort
  | b :: rest => if p b then .ok rest else .error .invalid

/-- Reads a fraction of a second after its point, as nanoseconds; digits after the ninth are
passed over. -/
def readFraction (input : List UInt8) : Except TimeError (Nat × List UInt8) :=
  match input with
  | [] => .error .tooShort
  | b :: _ =>
    if !isDigit b then .error .invalid
    else
      let digits := input.takeWhile isDigit
      let kept := digits.take 9
      .ok (natOfDigits kept * Nat.pow 10 (9 - kept.length), input.dropWhile isDigit)

/-- Reads the sign of an offset; the minus sign of typography counts as well. -/
def readSign : List UInt8 → Except TimeError (Bool × List UInt8)
  | [] => .error .tooShort
  | 0x2b :: rest => .ok (false, rest)
  | 0x2d :: rest => .ok (true, rest)
  | 0xe2 :: 0x88 :: 0x92 :: rest => .ok (true, rest)
  | _ => .error .invalid

/-- Reads the minutes of an offset. -/
def readOffsetMinutes : List UInt8 → Except TimeError (Nat × List UInt8)
  | a :: b :: rest =>
    if isDigit a && isDigit b then
      if a ≤ 0x35 then .ok (natOfDigits [a, b], rest) else .error .outOfRange
    else .error .invalid
  | _ => .error .tooShort

/-- Reads an offset from universal time, in seconds: `Z` or a signed count of hours and
minutes. -/
def readOffset (input : List UInt8) : Except TimeError (Int × List UInt8) :=
  match input with
  | 0x5a :: rest => .ok (0, rest)
  | 0x7a :: rest => .ok (0, rest)
  | _ => do
    let (negative, rest) ← readSign input
    let (hours, rest) ← readFixed 2 rest
    let rest ← readMark (· = 0x3a) rest
    let (minutes, rest) ← readOffsetMinutes rest
    let seconds := hours * 3600 + minutes * 60
    .ok (if negative then -(seconds : Int) else seconds, rest)

/-- Is this a leap year? -/
def isLeap (year : Nat) : Bool := year % 4 = 0 && (year % 100 ≠ 0 || year % 400 = 0)

/-- The number of days of a month. -/
def daysInMonth (year month : Nat) : Nat :=
  if month = 2 then if isLeap year then 29 else 28
  else if month = 4 ∨ month = 6 ∨ month = 9 ∨ month = 11 then 30
  else 31

/-- The days of a year before a month. -/
def daysBeforeMonth (year month : Nat) : Nat :=
  (List.range (month - 1)).foldl (fun days m => days + daysInMonth year (m + 1)) 0

/-- The leap years from the year 0 up to, and without, a year. -/
def leapsBefore (year : Nat) : Nat :=
  (year + 3) / 4 - (year + 99) / 100 + (year + 399) / 400

/-- The days of the proleptic Gregorian calendar since the start of 1970. -/
def daysSinceEpoch (year month day : Nat) : Int :=
  ((365 * year + leapsBefore year + daysBeforeMonth year month + (day - 1) : Nat) : Int) - 719528

/-- The length of a date and a time without fraction and offset. -/
def clockLength : Nat := 19

/-- Reads a date as days since the start of 1970. -/
def readDate (input : List UInt8) : Except TimeError (Int × List UInt8) := do
  let (year, rest) ← readFixed 4 input
  let rest ← readMark (· = 0x2d) rest
  let (month, rest) ← readFixed 2 rest
  let rest ← readMark (· = 0x2d) rest
  let (day, rest) ← readFixed 2 rest
  if 1 ≤ month ∧ month ≤ 12 ∧ 1 ≤ day ∧ day ≤ daysInMonth year month then
    .ok (daysSinceEpoch year month day, rest)
  else .error .outOfRange

/-- Reads a time of day as milliseconds since midnight. -/
def readTime (input : List UInt8) : Except TimeError (Nat × List UInt8) := do
  let (hour, rest) ← readFixed 2 input
  let rest ← readMark (· = 0x3a) rest
  let (minute, rest) ← readFixed 2 rest
  let rest ← readMark (· = 0x3a) rest
  let (second, rest) ← readFixed 2 rest
  let (nanos, rest) ← match rest with
    | 0x2e :: rest => readFraction rest
    | _ => .ok (0, rest)
  if hour ≤ 23 ∧ minute ≤ 59 ∧ second ≤ 60 then
    .ok ((hour * 3600 + minute * 60 + second) * 1000 + nanos / 1000000, rest)
  else .error .outOfRange

/-- The milliseconds of the Unix epoch that a text stands for. A text that is too short for a date
and a time is refused as such, whatever it holds. -/
def readOctets (input : List UInt8) : Except TimeError Int := do
  if input.length < clockLength then .error .tooShort
  else
    let (days, rest) ← readDate input
    let rest ← readMark (fun b => b = 0x54 || b = 0x74 || b = 0x20) rest
    let (millis, rest) ← readTime rest
    let (offset, rest) ← readOffset rest
    if !rest.isEmpty then .error .tooLong
    else if offset.natAbs ≥ 86400 then .error .outOfRange
    else .ok ((days * 86400 - offset) * 1000 + millis)

/-- The milliseconds of the Unix epoch that a text stands for. They fit 64 bits, since the year
has four digits. -/
def read (s : String) : Except TimeError Int64 :=
  (readOctets (Text.encode s)).map Int64.ofInt

end MarketFeed.Instant
