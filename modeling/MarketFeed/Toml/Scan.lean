/-!
# The tokens of a TOML text

Blanks, comments, strings and keys. Every reader takes the characters of a text and gives what it
read together with the characters after it, or nothing if the text is refused.

* `readString`: a string of any of the four kinds.
* `readKey`: a key of one or more parts.
-/

namespace MarketFeed.Toml

/-- The characters of a text that are still to be read. -/
abbrev Input := List Char

/-- Blank and tab. -/
def isGap (c : Char) : Bool := c = ' ' || c = '\t'

/-- The characters after leading blanks and tabs. -/
def skipGap (input : Input) : Input := input.dropWhile isGap

/-- Passes over the end of a line. -/
def endOfLine? : Input → Option Input
  | '\n' :: rest => some rest
  | '\r' :: '\n' :: rest => some rest
  | _ => none

/-- May a character stand in a comment? Of the control characters only the tab may. -/
def isText (c : Char) : Bool := c = '\t' || (0x20 ≤ c.toNat && c.toNat ≠ 0x7f)

/-- Passes over a comment, if there is one. -/
def skipComment : Input → Input
  | '#' :: rest => rest.dropWhile isText
  | input => input

/-- Passes over what may follow on a line: blanks and a comment, up to its end or that of the
text. -/
def finishLine (input : Input) : Option Input :=
  match skipComment (skipGap input) with
  | [] => some []
  | rest => endOfLine? rest

/-- Passes over blanks, line ends and comments. -/
def skipLines : Nat → Input → Option Input
  | 0, input => some input
  | fuel + 1, input =>
    match skipGap input with
    | '#' :: rest => do skipLines fuel (← endOfLine? (rest.dropWhile isText))
    | '\n' :: rest => skipLines fuel rest
    | '\r' :: rest => do skipLines fuel (← endOfLine? ('\r' :: rest))
    | rest => some rest

/-! ## Strings -/

/-- The value of a hexadecimal digit. -/
def hexDigit? (c : Char) : Option Nat :=
  if '0' ≤ c ∧ c ≤ '9' then some (c.toNat - 0x30)
  else if 'a' ≤ c ∧ c ≤ 'f' then some (c.toNat - 0x61 + 10)
  else if 'A' ≤ c ∧ c ≤ 'F' then some (c.toNat - 0x41 + 10)
  else none

/-- The character of a hexadecimal code point. -/
def charOfHex? (digits : List Char) : Option Char := do
  let n ← digits.foldl (fun acc c => do some (16 * (← acc) + (← hexDigit? c))) (some 0)
  if n < 0xd800 ∨ (0xdfff < n ∧ n < 0x110000) then some (Char.ofNat n) else none

/-- The character that a one-letter escape stands for. -/
def escaped? (c : Char) : Option Char :=
  if c = 'b' then some '\x08'
  else if c = 't' then some '\t'
  else if c = 'n' then some '\n'
  else if c = 'f' then some '\x0c'
  else if c = 'r' then some '\r'
  else if c = '"' then some '"'
  else if c = '\\' then some '\\'
  else none

/-- What follows a text that a reader has read, with a character put before the text. -/
def withChar (c : Char) (r : Option (List Char × Input)) : Option (List Char × Input) :=
  r.map fun (cs, rest) => (c :: cs, rest)

/-- Reads a string with escapes on one line, after its opening quote. -/
def readBasic : Input → Option (List Char × Input)
  | [] => none
  | '"' :: rest => some ([], rest)
  | '\\' :: 'u' :: a :: b :: c :: d :: rest => do
    withChar (← charOfHex? [a, b, c, d]) (readBasic rest)
  | '\\' :: 'U' :: a :: b :: c :: d :: e :: f :: g :: h :: rest => do
    withChar (← charOfHex? [a, b, c, d, e, f, g, h]) (readBasic rest)
  | '\\' :: c :: rest => do withChar (← escaped? c) (readBasic rest)
  | c :: rest => if isText c && c ≠ '\\' then withChar c (readBasic rest) else none

/-- Reads a string without escapes on one line, after its opening quote. -/
def readLiteral (input : Input) : Option (List Char × Input) :=
  let isPlain (c : Char) : Bool := isText c && c ≠ '\''
  match input.dropWhile isPlain with
  | '\'' :: rest => some (input.takeWhile isPlain, rest)
  | _ => none

/-- Where a reader stands in a string of several lines. -/
inductive Break where
  /-- Between characters. -/
  | none
  /-- After a backslash that has only blanks before the end of its line. -/
  | before
  /-- After that line end: blanks and further line ends do not count. -/
  | after
deriving DecidableEq

/-- Up to two quotes that belong to a string of several lines though they touch its end. -/
def closingQuotes (quote : Char) : Input → List Char × Input
  | a :: b :: rest =>
    if a = quote ∧ b = quote then ([a, b], rest)
    else if a = quote then ([a], b :: rest)
    else ([], a :: b :: rest)
  | [a] => if a = quote then ([a], []) else ([], [a])
  | [] => ([], [])

/-- Does a backslash stand before the end of its line? -/
def endsLine (input : Input) : Bool := (endOfLine? (skipGap input)).isSome

/-- Reads a string with escapes on several lines, after its opening quotes. -/
def readLongBasic : Break → Input → Option (List Char × Input)
  | _, [] => none
  | .before, '\n' :: rest => readLongBasic .after rest
  | .before, _ :: rest => readLongBasic .before rest
  | at_, '\r' :: '\n' :: rest =>
    if at_ = .after then readLongBasic .after rest else withChar '\n' (readLongBasic .none rest)
  | at_, '\n' :: rest =>
    if at_ = .after then readLongBasic .after rest else withChar '\n' (readLongBasic .none rest)
  | _, '"' :: '"' :: '"' :: rest => some (closingQuotes '"' rest)
  | _, '\\' :: 'u' :: a :: b :: c :: d :: rest => do
    withChar (← charOfHex? [a, b, c, d]) (readLongBasic .none rest)
  | _, '\\' :: 'U' :: a :: b :: c :: d :: e :: f :: g :: h :: rest => do
    withChar (← charOfHex? [a, b, c, d, e, f, g, h]) (readLongBasic .none rest)
  | _, '\\' :: rest =>
    if endsLine rest then readLongBasic .before rest
    else match rest with
      | c :: rest => do withChar (← escaped? c) (readLongBasic .none rest)
      | [] => none
  | at_, c :: rest =>
    if at_ = .after ∧ isGap c then readLongBasic .after rest
    else if isText c then withChar c (readLongBasic .none rest)
    else none

/-- Reads a string without escapes on several lines, after its opening quotes. -/
def readLongLiteral : Input → Option (List Char × Input)
  | [] => none
  | '\'' :: '\'' :: '\'' :: rest => some (closingQuotes '\'' rest)
  | '\r' :: '\n' :: rest => withChar '\n' (readLongLiteral rest)
  | '\n' :: rest => withChar '\n' (readLongLiteral rest)
  | c :: rest => if isText c then withChar c (readLongLiteral rest) else none

/-- A line end right after the opening quotes of a string of several lines does not count. -/
def skipFirstEnd (input : Input) : Input := (endOfLine? input).getD input

/-- Reads a string of any kind, if one starts here: the outer option says whether one does. -/
def readString : Input → Option (Option (List Char × Input))
  | '"' :: '"' :: '"' :: rest => some (readLongBasic .none (skipFirstEnd rest))
  | '"' :: rest => some (readBasic rest)
  | '\'' :: '\'' :: '\'' :: rest => some (readLongLiteral (skipFirstEnd rest))
  | '\'' :: rest => some (readLiteral rest)
  | _ => none

/-! ## Keys -/

/-- May a character stand in a key without quotes? -/
def isKeyChar (c : Char) : Bool := c.isAlphanum || c = '_' || c = '-'

/-- Reads one part of a key. -/
def readKeyPart : Input → Option (String × Input)
  | '"' :: rest => (readBasic rest).map fun (cs, rest) => (String.ofList cs, rest)
  | '\'' :: rest => (readLiteral rest).map fun (cs, rest) => (String.ofList cs, rest)
  | input =>
    let part := input.takeWhile isKeyChar
    if part.isEmpty then none else some (String.ofList part, input.dropWhile isKeyChar)

/-- How many parts a key may have, plus one. -/
def keyLimit : Nat := 80

/-- Reads the parts of a key; `fuel` counts down from the limit. -/
def readKeyParts : Nat → Input → Option (List String × Input)
  | 0, _ => none
  | fuel + 1, input => do
    let (part, rest) ← readKeyPart (skipGap input)
    match skipGap rest with
    | '.' :: rest => do
      let (parts, rest) ← readKeyParts fuel rest
      some (part :: parts, rest)
    | rest => some ([part], rest)

/-- Reads a key, whose parts have points between them. -/
def readKey (input : Input) : Option (List String × Input) := readKeyParts (keyLimit - 1) input

end MarketFeed.Toml
