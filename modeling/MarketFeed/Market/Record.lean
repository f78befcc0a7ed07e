import MarketFeed.Decimal.Basic
import MarketFeed.Market.Provider

/-!
# Price records

What an exchange reports about a market: tickers, candles and trades. Times are milliseconds of
the Unix epoch in 64 bits.
-/

namespace MarketFeed

/-- The latest price of a market and its volume over 24 hours. -/
structure Ticker where
  price : Decimal
  volume : Decimal
deriving DecidableEq

/-- The closing price and the volume of a span of time that ends at `timestamp`. -/
structure Candle where
  price : Decimal
  volume : Decimal
  timestamp : Int64
deriving DecidableEq

/-- One executed trade, under the symbol of its market. -/
structure Trade where
  symbol : String
  timestamp : Int64
  size : Decimal
  price : Decimal
deriving DecidableEq

/-- Where a provider is reached. -/
structure Endpoint where
  provider : Provider
  rest : String
  websocket : String
  apiKey : Option String
deriving DecidableEq

end MarketFeed
