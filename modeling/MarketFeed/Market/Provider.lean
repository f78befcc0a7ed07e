import MarketFeed.Text.Case

/-!
# Providers

The exchanges that the feed knows, and their names.
-/

namespace MarketFeed

/-- An exchange that streams prices. -/
inductive Provider where
  | coinbase
  | osmosisV2
deriving DecidableEq, Inhabited

namespace Provider

/-- All providers, in their fixed order. -/
def all : List Provider := [.coinbase, .osmosisV2]

/-- The canonical name of a provider. -/
def name : Provider → String
  | .coinbase => "coinbase"
  | .osmosisV2 => "osmosisv2"

/-- The provider of a name in any letter case. -/
def ofName? (s : String) : Option Provider := all.find? fun p => Text.spells s p.name

/-- The provider of a canonical name. -/
def ofExactName? (s : String) : Option Provider := all.find? fun p => p.name = s

end Provider

end MarketFeed
