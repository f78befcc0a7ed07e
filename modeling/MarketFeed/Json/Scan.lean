import MarketFeed.Text.Utf8
import MarketFeed.Json.Failure

/-!
# The tokens of a JSON text

Blanks, literal names, strings and numbers over the octets of a text. Every reader returns the
octets after what it read, or a failure with its place.

* `readString`: the characters of a string after its opening quote.
* `readNumber`: a number; integers outside of 64 bits become binary64.
* `skipValue`: passes over any value without keeping it; here strings need not be well-formed
  UTF-8 and nesting has no limit.
-/

namespace MarketFeed.Json

/-- The octets of a text. -/
abbrev Octets := List UInt8

/-- Fails after everything consumed so far. -/
def failAt {α : Type} (cause : Cause) (rest : Octets) : Except Failure α :=
  .error ⟨cause, rest.length⟩

/-- Fails at the next octet, if there is one. -/
def failNext {α : Type} (cause : Cause) (rest : Octets) : Except Failure α :=
  .error ⟨cause, rest.length - 1⟩

/-- Blank, tab, line feed and carriage return. -/
def isSpace (b : UInt8) : Bool := b = 0x20 || b = 0x09 || b = 0x0a || b = 0x0d

/-- The octets after leading blanks. -/
def skipSpace (input : Octets) : Octets := input.dropWhile isSpace

/-- Reads the rest of a literal name. -/
def readIdent : List UInt8 → Octets → Except Failure Octets
  | [], rest => .ok rest
  | _ :: _, [] => failAt .eofInValue []
  | expected :: more, b :: rest =>
    if b = expected then readIdent more rest else failAt .expectedIdent rest

/-- The octets of an ASCII text. -/
def ascii (s : String) : List UInt8 := s.toList.map fun c => UInt8.ofNat c.toNat

/-! ## Strings -/

/-- Where a reader stands inside a string. -/
inductive Escape where
  /-- Between characters. -/
  | plain
  /-- After a backslash. -/
  | slash
  /-- Among four hexadecimal digits, possibly after the first half of a surrogate pair. -/
  | hex (high : Option Nat) (digits : List UInt8)
  /-- After the first half of a pair, before the backslash of the second. -/
  | pairSlash (high : Nat)
  /-- After the first half of a pair and a backslash. -/
  | pairMark (high : Nat)

/-- The value of a hexadecimal digit. -/
def hexDigit? (b : UInt8) : Option Nat :=
  if 0x30 ≤ b ∧ b ≤ 0x39 then some (b.toNat - 0x30)
  else if 0x61 ≤ b ∧ b ≤ 0x66 then some (b.toNat - 0x61 + 10)
  else if 0x41 ≤ b ∧ b ≤ 0x46 then some (b.toNat - 0x41 + 10)
  else none

/-- The value of hexadecimal digits. -/
def hexValue? (digits : List UInt8) : Option Nat :=
  digits.foldl (fun acc b => do some (16 * (← acc) + (← hexDigit? b))) (some 0)

/-- The character that a one-letter escape stands for. -/
def shortEscape? (b : UInt8) : Option Char :=
  if b = 0x22 then some '"'
  else if b = 0x5c then some '\\'
  else if b = 0x2f then some '/'
  else if b = 0x62 then some '\x08'
  else if b = 0x66 then some '\x0c'
  else if b = 0x6e then some '\n'
  else if b = 0x72 then some '\r'
  else if b = 0x74 then some '\t'
  else none

/-- Is this the first half of a surrogate pair? -/
def isHighHalf (n : Nat) : Bool := 0xd800 ≤ n && n ≤ 0xdbff

/-- Is this the second half of a surrogate pair? -/
def isLowHalf (n : Nat) : Bool := 0xdc00 ≤ n && n ≤ 0xdfff

/-- What four hexadecimal digits mean: a character, or the first half of a pair. -/
def hexMeaning (high : Option Nat) (n : Nat) : Except Cause (Char ⊕ Nat) :=
  match high with
  | none =>
    if isLowHalf n then .error .loneSurrogate
    else if isHighHalf n then .ok (.inr n)
    else .ok (.inl (Char.ofNat n))
  | some h =>
    if isLowHalf n then .ok (.inl (Char.ofNat ((h - 0xd800) * 0x400 + (n - 0xdc00) + 0x10000)))
    else .error .loneSurrogate

/-- Decodes the octets between two escapes, given in reverse. What is not well-formed is reported
just after the octet where it starts; `rest` is what follows the octet that ended the stretch. -/
def decodeStretch (stretch : List UInt8) (rest : Octets) : Except Failure (List Char) :=
  match Text.decodeFront stretch.reverse with
  | (cs, []) => .ok cs
  | (_, left) => .error ⟨.invalidCodePoint, rest.length + left.length⟩

/-- Reads the characters of a string up to its closing quote; `acc` holds the characters up to
the last escape in reverse, `stretch` the octets since then in reverse. -/
def scanString : Escape → List Char → List UInt8 → Octets → Except Failure (List Char × Octets)
  | _, _, _, [] => failAt .eofInString []
  | .plain, acc, stretch, b :: rest =>
    if b = 0x22 then do .ok (acc.reverse ++ (← decodeStretch stretch rest), rest)
    else if b = 0x5c then do
      scanString .slash ((← decodeStretch stretch rest).reverse ++ acc) [] rest
    else if b < 0x20 then failAt .controlCharacter rest
    else scanString .plain acc (b :: stretch) rest
  | .slash, acc, _, b :: rest =>
    match shortEscape? b with
    | some c => scanString .plain (c :: acc) [] rest
    | none =>
      if b = 0x75 then scanString (.hex none []) acc [] rest else failAt .invalidEscape rest
  | .hex high digits, acc, _, b :: rest =>
    if digits.length < 3 then scanString (.hex high (digits ++ [b])) acc [] rest
    else match hexValue? (digits ++ [b]) with
      | none => failAt .invalidEscape rest
      | some n =>
        match hexMeaning high n with
        | .error cause => failAt cause rest
        | .ok (.inl c) => scanString .plain (c :: acc) [] rest
        | .ok (.inr h) => scanString (.pairSlash h) acc [] rest
  | .pairSlash h, acc, _, b :: rest =>
    if b = 0x5c then scanString (.pairMark h) acc [] rest else failAt .endOfHexEscape rest
  | .pairMark h, acc, _, b :: rest =>
    if b = 0x75 then scanString (.hex (some h) []) acc [] rest else failAt .endOfHexEscape rest

/-- Reads a string after its opening quote. -/
def readString (input : Octets) : Except Failure (String × Octets) := do
  let (cs, rest) ← scanString .plain [] [] input
  .ok (String.ofList cs, rest)

/-- Passes over a string after its opening quote. -/
def skipString : Escape → Octets → Except Failure Octets
  | _, [] => failAt .eofInString []
  | .plain, b :: rest =>
    if b = 0x22 then .ok rest
    else if b = 0x5c then skipString .slash rest
    else if b < 0x20 then failAt .controlCharacter (b :: rest)
    else skipString .plain rest
  | .slash, b :: rest =>
    if (shortEscape? b).isSome then skipString .plain rest
    else if b = 0x75 then skipString (.hex none []) rest
    else failAt .invalidEscape rest
  | .hex high digits, b :: rest =>
    if digits.length < 3 then skipString (.hex high (digits ++ [b])) rest
    else if (hexValue? (digits ++ [b])).isSome then skipString .plain rest
    else failAt .invalidEscape rest
  | .pairSlash _, _ :: rest => skipString .plain rest
  | .pairMark _, _ :: rest => skipString .plain rest

/-! ## Numbers -/

/-- Is this an ASCII digit? -/
def isDigit (b : UInt8) : Bool := 0x30 ≤ b && b ≤ 0x39

/-- Is this the letter before an exponent? -/
def isExponentMark (b : UInt8) : Bool := b = 0x65 || b = 0x45

/-- The leading digits of some octets, and the rest. -/
def splitDigits (input : Octets) : List UInt8 × Octets :=
  (input.takeWhile isDigit, input.dropWhile isDigit)

/-- Takes digits into a value below `limit` as long as they fit; the others are left. -/
def absorb (limit : Nat) : Nat → List UInt8 → Nat × List UInt8
  | n, [] => (n, [])
  | n, d :: rest =>
    let next := 10 * n + (d.toNat - 0x30)
    if next < limit then absorb limit next rest else (n, d :: rest)

/-- Scales by a power of ten in steps that binary64 can hold; nothing if the result is infinite.
A few steps reach zero whatever the exponent. -/
def scaleFloat : Nat → Float → Int → Option Float
  | 0, f, _ => some f
  | fuel + 1, f, exponent =>
    if exponent.natAbs ≤ 308 then
      let power := Float.ofScientific 1 false exponent.natAbs
      if exponent < 0 then some (f / power)
      else if (f * power).isInf then none else some (f * power)
    else if f == 0 then some f
    else if exponent > 0 then none
    else scaleFloat fuel (f / Float.ofScientific 1 false 308) (exponent + 308)

/-- The binary64 number `± significand * 10 ^ exponent`. -/
def floatOfParts (positive : Bool) (significand : Nat) (exponent : Int) : Option Number :=
  (scaleFloat 8 (UInt64.ofNat significand).toFloat exponent).map fun f =>
    .float (if positive then f else -f).toBits

/-- Finishes a number that is no integer. -/
def finishFloat (positive : Bool) (significand : Nat) (exponent : Int) (rest : Octets) :
    Except Failure (Number × Octets) :=
  match floatOfParts positive significand exponent with
  | some n => .ok (n, rest)
  | none => failAt .numberOutOfRange rest

/-- Reads an exponent after its letter. -/
def readExponent (positive : Bool) (significand : Nat) (exponent : Int) (input : Octets) :
    Except Failure (Number × Octets) :=
  let (up, rest) : Bool × Octets := match input with
    | 0x2b :: rest => (true, rest)
    | 0x2d :: rest => (false, rest)
    | _ => (true, input)
  match rest with
  | [] => failAt .eofInValue []
  | b :: after =>
    if !isDigit b then failAt .invalidNumber after
    else
      let (digits, rest) := splitDigits rest
      match absorb (Nat.pow 2 31) 0 digits with
      | (n, []) => finishFloat positive significand (if up then exponent + n else exponent - n) rest
      | (_, _ :: extra) =>
        if significand ≠ 0 ∧ up then failAt .numberOutOfRange (extra ++ rest)
        else .ok (.float (if positive then (0.0 : Float) else -0.0).toBits, rest)

/-- Reads a fraction after its point. -/
def readFraction (positive : Bool) (significand : Nat) (exponent : Int) (input : Octets) :
    Except Failure (Number × Octets) :=
  let (digits, rest) := splitDigits input
  if digits.isEmpty then
    if rest.isEmpty then failNext .eofInValue rest else failNext .invalidNumber rest
  else
    let (n, extra) := absorb UInt64.size significand digits
    let exponent := exponent - (digits.length - extra.length : Nat)
    match rest with
    | b :: after =>
      if isExponentMark b then readExponent positive n exponent after
      else finishFloat positive n exponent rest
    | [] => finishFloat positive n exponent rest

/-- The number of an integer without fraction and exponent. -/
def integerNumber (positive : Bool) (n : Nat) : Number :=
  if positive then .natural n
  else if 0 < n ∧ n ≤ Nat.pow 2 63 then .negative (-(n : Int))
  else .float (-(UInt64.ofNat n).toFloat).toBits

/-- Reads a number after its sign. -/
def readNumber (positive : Bool) (input : Octets) : Except Failure (Number × Octets) :=
  match input with
  | [] => failAt .eofInValue []
  | b :: after =>
    if !isDigit b then failAt .invalidNumber after
    else if b = 0x30 ∧ after.head?.any isDigit then failNext .invalidNumber after
    else
      let (digits, rest) := splitDigits input
      let (n, extra) := absorb UInt64.size 0 digits
      match rest with
      | c :: more =>
        if c = 0x2e then readFraction positive n extra.length more
        else if isExponentMark c then readExponent positive n extra.length more
        else if extra.isEmpty then .ok (integerNumber positive n, rest)
        else finishFloat positive n extra.length rest
      | [] =>
        if extra.isEmpty then .ok (integerNumber positive n, rest)
        else finishFloat positive n extra.length rest

/-- Passes over an exponent after its letter. -/
def skipExponent (input : Octets) : Except Failure Octets :=
  let rest : Octets := match input with
    | 0x2b :: rest => rest
    | 0x2d :: rest => rest
    | _ => input
  match rest with
  | [] => failAt .invalidNumber []
  | b :: after =>
    if isDigit b then .ok (after.dropWhile isDigit) else failAt .invalidNumber after

/-- Passes over a number after its sign. -/
def skipNumber (input : Octets) : Except Failure Octets :=
  match input with
  | [] => failAt .invalidNumber []
  | b :: after =>
    if !isDigit b then failAt .invalidNumber after
    else if b = 0x30 ∧ after.head?.any isDigit then failNext .invalidNumber after
    else match input.dropWhile isDigit with
      | [] => .ok []
      | c :: more =>
        if c = 0x2e then
          if !more.head?.any isDigit then failNext .invalidNumber more
          else match more.dropWhile isDigit with
            | [] => .ok []
            | e :: rest => if isExponentMark e then skipExponent rest else .ok (e :: rest)
        else if isExponentMark c then skipExponent more
        else .ok (c :: more)

/-! ## Values that are passed over -/

/-- A container that is still open. -/
inductive Frame where
  | list
  | object
deriving DecidableEq

/-- The octet that closes a container. -/
def Frame.close : Frame → UInt8
  | .list => 0x5d
  | .object => 0x7d

/-- What the reader of a passed-over value waits for. -/
inductive Awaiting where
  /-- A value. -/
  | value
  /-- The first entry of the innermost container, or its end. -/
  | first
  /-- A comma or the end of the innermost container. -/
  | more

/-- Passes over a key and its colon, in an object. -/
def skipKey (frame : Frame) (input : Octets) : Except Failure Octets :=
  match frame with
  | .list => .ok input
  | .object =>
    match skipSpace input with
    | [] => failNext .eofInObject []
    | b :: rest =>
      if b ≠ 0x22 then failNext .keyMustBeString (b :: rest)
      else do
        match skipSpace (← skipString .plain rest) with
        | [] => failNext .eofInObject []
        | c :: rest => if c = 0x3a then .ok rest else failNext .expectedColon (c :: rest)

/-- Passes over what is left of the open containers. -/
def skipFrom : Nat → Awaiting → List Frame → Octets → Except Failure Octets
  | 0, _, _, _ => failNext .eofInValue []
  | fuel + 1, .value, open_, input =>
    match skipSpace input with
    | [] => failNext .eofInValue []
    | b :: rest =>
      if b = 0x6e then do skipFrom fuel .more open_ (← readIdent (ascii "ull") rest)
      else if b = 0x74 then do skipFrom fuel .more open_ (← readIdent (ascii "rue") rest)
      else if b = 0x66 then do skipFrom fuel .more open_ (← readIdent (ascii "alse") rest)
      else if b = 0x2d then do skipFrom fuel .more open_ (← skipNumber rest)
      else if isDigit b then do skipFrom fuel .more open_ (← skipNumber (b :: rest))
      else if b = 0x22 then do skipFrom fuel .more open_ (← skipString .plain rest)
      else if b = 0x5b then skipFrom fuel .first (.list :: open_) rest
      else if b = 0x7b then skipFrom fuel .first (.object :: open_) rest
      else failNext .expectedValue (b :: rest)
  | _ + 1, _, [], input => .ok input
  | fuel + 1, awaiting, frame :: outer, input =>
    match skipSpace input with
    | [] =>
      failNext (match frame with | .list => Cause.eofInList | .object => Cause.eofInObject) []
    | b :: rest =>
      if b = frame.close then skipFrom fuel .more outer rest
      else match awaiting with
        | .first => do skipFrom fuel .value (frame :: outer) (← skipKey frame (b :: rest))
        | _ =>
          if b = 0x2c then do skipFrom fuel .value (frame :: outer) (← skipKey frame rest)
          else failNext (match frame with
            | .list => Cause.expectedListCommaOrEnd
            | .object => Cause.expectedObjectCommaOrEnd) (b :: rest)

/-- Passes over one value. -/
def skipValue (input : Octets) : Except Failure Octets :=
  skipFrom (2 * input.length + 2) .value [] input

end MarketFeed.Json
