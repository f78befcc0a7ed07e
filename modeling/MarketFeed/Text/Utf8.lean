/-!
# UTF-8

Octets to characters and back. Decoding refuses overlong forms, surrogates, code points above
`10ffff` and incomplete sequences.
-/

namespace MarketFeed.Text

/-- The six payload bits of a continuation octet. -/
def continuation? (b : UInt8) : Option Nat :=
  if 0x80 ≤ b ∧ b ≤ 0xbf then some (b.toNat - 0x80) else none

/-- The character of a code point that takes at least `least`. -/
def scalar? (least n : Nat) : Option Char :=
  if h : least ≤ n ∧ n.isValidChar then some (Char.ofNatAux n h.2) else none

/-- The first character of an octet sequence, and the octets after it. -/
def decodeChar? : List UInt8 → Option (Char × List UInt8)
  | [] => none
  | a :: rest =>
    if a < 0x80 then some (Char.ofNat a.toNat, rest)
    else if 0xc2 ≤ a ∧ a ≤ 0xdf then
      match rest with
      | b :: rest => do
        let c ← scalar? 0x80 ((a.toNat - 0xc0) * 64 + (← continuation? b))
        some (c, rest)
      | _ => none
    else if 0xe0 ≤ a ∧ a ≤ 0xef then
      match rest with
      | b :: c :: rest => do
        let n := ((a.toNat - 0xe0) * 64 + (← continuation? b)) * 64 + (← continuation? c)
        some (← scalar? 0x800 n, rest)
      | _ => none
    else if 0xf0 ≤ a ∧ a ≤ 0xf4 then
      match rest with
      | b :: c :: d :: rest => do
        let n := (((a.toNat - 0xf0) * 64 + (← continuation? b)) * 64 + (← continuation? c)) * 64
          + (← continuation? d)
        some (← scalar? 0x10000 n, rest)
      | _ => none
    else none

/-- Decodes at most `fuel` characters; the second part is what is left when decoding stops. -/
def decodeWithin : Nat → List UInt8 → List Char × List UInt8
  | 0, bs => ([], bs)
  | fuel + 1, bs =>
    match decodeChar? bs with
    | some (c, rest) =>
      let (cs, left) := decodeWithin fuel rest
      (c :: cs, left)
    | none => ([], bs)

/-- The characters of the longest well-formed front of an octet sequence, and the rest. -/
def decodeFront (bs : List UInt8) : List Char × List UInt8 := decodeWithin bs.length bs

/-- The characters that an octet sequence encodes, if it is well-formed. -/
def decode? (bs : List UInt8) : Option (List Char) :=
  match decodeFront bs with
  | (cs, []) => some cs
  | _ => none

/-- The octets of a character. -/
def encodeChar (c : Char) : List UInt8 :=
  let n := c.toNat
  if n < 0x80 then [UInt8.ofNat n]
  else if n < 0x800 then [UInt8.ofNat (0xc0 + n / 64), UInt8.ofNat (0x80 + n % 64)]
  else if n < 0x10000 then
    [UInt8.ofNat (0xe0 + n / 4096), UInt8.ofNat (0x80 + n / 64 % 64), UInt8.ofNat (0x80 + n % 64)]
  else
    [UInt8.ofNat (0xf0 + n / 262144), UInt8.ofNat (0x80 + n / 4096 % 64),
      UInt8.ofNat (0x80 + n / 64 % 64), UInt8.ofNat (0x80 + n % 64)]

/-- The octets of a text. -/
def encode (s : String) : List UInt8 := s.toList.flatMap encodeChar

end MarketFeed.Text
