import MarketFeed.Decimal.Numeral
import MarketFeed.Fault
import MarketFeed.Market.Pair
import MarketFeed.Market.Provider
import MarketFeed.Text.Blank
import MarketFeed.Text.Quoted

/-!
# Errors of the feed

Each error is a cause with what it is about; `FeedError.message` holds the wording.

* `Decimal.read`: the decimal of a text that an exchange sends.
-/

namespace MarketFeed

/-- Why a provider could not do what it was asked for. -/
inductive FeedError where
  /-- Nothing was ever reported for a symbol. -/
  | tickerNotFound (provider : Provider) (symbol : String)
  /-- No candle or trade was ever reported for a symbol. -/
  | candleNotFound (provider : Provider) (symbol : String)
  /-- None of some pairs has a ticker. -/
  | noTickers (provider : Provider) (pairs : List Pair)
  /-- None of some pairs has candles. -/
  | noCandles (provider : Provider) (pairs : List Pair)
  /-- The list of tradable pairs could not be had. -/
  | availablePairs (provider : Provider) (reason : String)
  /-- A request could not be made. -/
  | http (reason : String)
  /-- A JSON value was refused. -/
  | json (reason : String)
  /-- A text is no decimal. -/
  | decimal (value reason : String)
  /-- A text is not what its field asks for. -/
  | invalidField (field value reason : String)
  /-- A computation left the range of its numbers. -/
  | fault (f : Fault)
deriving DecidableEq

/-- The symbols of some pairs, between brackets. -/
def symbolList (pairs : List Pair) : String :=
  "[" ++ ", ".intercalate (pairs.map Pair.symbol) ++ "]"

/-- The wording of an error. -/
def FeedError.message : FeedError → String
  | .tickerNotFound p symbol => p.name ++ " failed to get ticker price for " ++ symbol
  | .candleNotFound p symbol => p.name ++ " failed to get candle prices for " ++ symbol
  | .noTickers p pairs =>
    p.name ++ " has no ticker data for requested pairs: " ++ symbolList pairs
  | .noCandles p pairs =>
    p.name ++ " has no candle data for requested pairs: " ++ symbolList pairs
  | .availablePairs p reason => p.name ++ " failed to fetch available pairs: " ++ reason
  | .http reason => "http request failed: " ++ reason
  | .json reason => "invalid json: " ++ reason
  | .decimal value reason => "invalid decimal " ++ Text.quoted value ++ ": " ++ reason
  | .invalidField field value reason =>
    "invalid " ++ field ++ " " ++ Text.quoted value ++ ": " ++ reason
  | .fault f => f.message

/-- The decimal of a numeral, plain or scientific, without digit separators. -/
def Decimal.readNumeral (cs : List Char) : Except NumeralError Decimal :=
  if cs.contains '_' then .error .separator
  else if cs.any isExponentMark then readScientific cs
  else readExact cs

/-- The decimal of a text that an exchange sends; blanks around it do not count. -/
def Decimal.read (value : String) : Except FeedError Decimal :=
  match readNumeral (Text.trimChars value.toList) with
  | .ok d => .ok d
  | .error e => .error (.decimal value e.message)

end MarketFeed
