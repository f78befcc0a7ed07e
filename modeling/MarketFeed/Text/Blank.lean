/-!
# Blanks

The 25 white-space characters of Unicode, and texts without them at either end.
-/

namespace MarketFeed.Text

/-- Is this a white-space character? -/
def isBlank (c : Char) : Bool :=
  let n := c.toNat
  (9 ≤ n && n ≤ 13) || n == 0x20 || n == 0x85 || n == 0xa0 || n == 0x1680 ||
    (0x2000 ≤ n && n ≤ 0x200a) || n == 0x2028 || n == 0x2029 || n == 0x202f || n == 0x205f ||
    n == 0x3000

/-- A list without the elements of a class at either end. -/
def trimmedOf (p : Char → Bool) (cs : List Char) : List Char :=
  ((cs.dropWhile p).reverse.dropWhile p).reverse

/-- The characters of a text without blanks at either end. -/
def trimChars (cs : List Char) : List Char := trimmedOf isBlank cs

/-- A text without blanks at either end. -/
def trim (s : String) : String := String.ofList (trimChars s.toList)

/-- Does a text hold nothing but blanks? -/
def isAllBlank (s : String) : Bool := s.toList.all isBlank

end MarketFeed.Text
