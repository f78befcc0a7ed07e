import MarketFeed.Text.Case

/-!
# Currency pairs

A pair names what is priced (`base`) and in what (`quote`). Its symbol is the upper-case text of
both, without anything between them: the key under which prices are kept.
-/

namespace MarketFeed

/-- A base and a quote currency. -/
structure Pair where
  base : String
  quote : String
deriving DecidableEq, Inhabited

namespace Pair

/-- The pair of two names, in upper case. -/
def of (base quote : String) : Pair := ⟨Text.upper base, Text.upper quote⟩

/-- The names one after the other, as they are. -/
def display (p : Pair) : String := p.base ++ p.quote

/-- The canonical symbol. -/
def symbol (p : Pair) : String := Text.upper p.display

/-- Splits a text at the first separator. -/
def splitFirst (separator : Char) (cs : List Char) : Option (List Char × List Char) :=
  match cs.dropWhile (· ≠ separator) with
  | [] => none
  | _ :: after => some (cs.takeWhile (· ≠ separator), after)

/-- The pair of a text with exactly one separator and a name on either side of it. -/
def ofSeparated? (separator : Char) (s : String) : Option Pair := do
  let (base, quote) ← splitFirst separator s.toList
  if base.isEmpty || quote.isEmpty || quote.contains separator then none
  else some (of (String.ofList base) (String.ofList quote))

/-- The two names with a separator between them. -/
def separated (separator : Char) (p : Pair) : String :=
  String.ofList (p.base.toList ++ separator :: p.quote.toList)

end Pair

end MarketFeed
