import MarketFeed.Text.Faceless

/-!
# Quoted texts

A message quotes a text between double quotes. The quote and the backslash are escaped, four
control characters have short names, and every other character without a face of its own is
spelled by its code point in hexadecimal.
-/

namespace MarketFeed.Text

/-- A code point in lower-case hexadecimal, between braces. -/
def codePoint (c : Char) : List Char :=
  '\\' :: 'u' :: '\x7b' :: Nat.toDigits 16 c.toNat ++ ['\x7d']

/-- One character of a quoted text. -/
def quotedChar (c : Char) : List Char :=
  if c = '"' then ['\\', '"']
  else if c = '\\' then ['\\', '\\']
  else if c = '\n' then ['\\', 'n']
  else if c = '\r' then ['\\', 'r']
  else if c = '\t' then ['\\', 't']
  else if c = '\x00' then ['\\', '0']
  else if isFaceless c then codePoint c
  else [c]

/-- A text as a message quotes it. -/
def quoted (s : String) : String :=
  String.ofList ('"' :: s.toList.flatMap quotedChar ++ ['"'])

end MarketFeed.Text
