import MarketFeed.Json.Value

/-!
# Writing JSON values

The compact text of a value: no blanks, the quote, the backslash and control characters below the
blank escaped, all else as it is.
-/

namespace MarketFeed.Json

/-- One character of a written string. -/
def writtenChar (c : Char) : List Char :=
  if c = '"' then ['\\', '"']
  else if c = '\\' then ['\\', '\\']
  else if c = '\x08' then ['\\', 'b']
  else if c = '\x0c' then ['\\', 'f']
  else if c = '\n' then ['\\', 'n']
  else if c = '\r' then ['\\', 'r']
  else if c = '\t' then ['\\', 't']
  else if c.toNat < 0x20 then
    ['\\', 'u', '0', '0', Nat.digitChar (c.toNat / 16), Nat.digitChar (c.toNat % 16)]
  else [c]

/-- A string between quotes. -/
def writtenString (s : String) : List Char :=
  '"' :: (s.toList.flatMap writtenChar ++ ['"'])

/-- The texts of some parts with commas between them. -/
def joined : List (List Char) → List Char
  | [] => []
  | [part] => part
  | part :: parts => part ++ ',' :: joined parts

/-- The text of a number; a number that is no integer has no text here. -/
def Number.written : Number → List Char
  | .natural n => n.repr.toList
  | .negative i => i.repr.toList
  | .float _ => "null".toList

mutual

/-- The characters of the text of a value. -/
def Value.written : Value → List Char
  | .null => "null".toList
  | .bool b => (if b then "true" else "false").toList
  | .number n => n.written
  | .string s => writtenString s
  | .array items => '[' :: (joined (writtenItems items) ++ [']'])
  | .object entries => '\x7b' :: (joined (writtenEntries entries) ++ ['\x7d'])

/-- The texts of list elements. -/
def writtenItems : List Value → List (List Char)
  | [] => []
  | v :: rest => v.written :: writtenItems rest

/-- The texts of object entries. -/
def writtenEntries : List (String × Value) → List (List Char)
  | [] => []
  | (k, v) :: rest => (writtenString k ++ ':' :: v.written) :: writtenEntries rest

end

/-- The compact text of a value. -/
def Value.render (v : Value) : String := String.ofList v.written

end MarketFeed.Json
