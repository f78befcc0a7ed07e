import MarketFeed.Json.Record
import MarketFeed.Market.Pair
import MarketFeed.Market.Record

/-!
# Price records as JSON

Pairs, tickers, candles, trades and endpoints as JSON objects. Decimals are strings, providers are
their names, and the fields are written in a fixed order.
-/

namespace MarketFeed

open Json

/-- A decimal as a JSON string. -/
def Decimal.toJson (d : Decimal) : Value := .string d.render

/-- The fields of a pair. -/
def Pair.shape : Shape := ⟨"CurrencyPair", [⟨"base", .text, true⟩, ⟨"quote", .text, true⟩]⟩

/-- The pair of named values. -/
def Pair.ofFields? (f : Fields) : Option Pair := do
  some ⟨← f.text? "base", ← f.text? "quote"⟩

/-- A pair as a JSON object. -/
def Pair.toJson (p : Pair) : Value :=
  .object [("base", .string p.base), ("quote", .string p.quote)]

/-- The fields of a ticker. -/
def Ticker.shape : Shape :=
  ⟨"TickerPrice", [⟨"price", .decimal, true⟩, ⟨"volume", .decimal, true⟩]⟩

/-- The ticker of named values. -/
def Ticker.ofFields? (f : Fields) : Option Ticker := do
  some ⟨← f.decimal? "price", ← f.decimal? "volume"⟩

/-- A ticker as a JSON object. -/
def Ticker.toJson (t : Ticker) : Value :=
  .object [("price", t.price.toJson), ("volume", t.volume.toJson)]

/-- The fields of a candle. -/
def Candle.shape : Shape :=
  ⟨"CandlePrice",
    [⟨"price", .decimal, true⟩, ⟨"volume", .decimal, true⟩, ⟨"timestamp", .int64, true⟩]⟩

/-- The candle of named values. -/
def Candle.ofFields? (f : Fields) : Option Candle := do
  some ⟨← f.decimal? "price", ← f.decimal? "volume", ← f.int64? "timestamp"⟩

/-- A candle as a JSON object. -/
def Candle.toJson (c : Candle) : Value :=
  .object [("price", c.price.toJson), ("volume", c.volume.toJson),
    ("timestamp", .int c.timestamp.toInt)]

/-- The fields of a trade. -/
def Trade.shape : Shape :=
  ⟨"Trade", [⟨"symbol", .text, true⟩, ⟨"timestamp", .int64, true⟩, ⟨"size", .decimal, true⟩,
    ⟨"price", .decimal, true⟩]⟩

/-- The trade of named values. -/
def Trade.ofFields? (f : Fields) : Option Trade := do
  some ⟨← f.text? "symbol", ← f.int64? "timestamp", ← f.decimal? "size", ← f.decimal? "price"⟩

/-- A trade as a JSON object. -/
def Trade.toJson (t : Trade) : Value :=
  .object [("symbol", .string t.symbol), ("timestamp", .int t.timestamp.toInt),
    ("size", t.size.toJson), ("price", t.price.toJson)]

/-- The fields of an endpoint; the key may be missing. -/
def Endpoint.shape : Shape :=
  ⟨"Endpoint", [⟨"name", .provider, true⟩, ⟨"rest", .text, true⟩, ⟨"websocket", .text, true⟩,
    ⟨"api_key", .optionalText, false⟩]⟩

/-- The endpoint of named values. -/
def Endpoint.ofFields? (f : Fields) : Option Endpoint := do
  some ⟨← f.provider? "name", ← f.text? "rest", ← f.text? "websocket", f.optionalText "api_key"⟩

/-- An optional text as JSON. -/
def optionalTextJson : Option String → Value
  | none => .null
  | some s => .string s

/-- An endpoint as a JSON object. -/
def Endpoint.toJson (e : Endpoint) : Value :=
  .object [("name", .string e.provider.name), ("rest", .string e.rest),
    ("websocket", .string e.websocket), ("api_key", optionalTextJson e.apiKey)]

/-- Reads a provider's name as JSON. -/
def Provider.readJson (input : Octets) : Except Failure Provider := readWhole readProvider input

/-- Reads a pair as JSON. -/
def Pair.readJson (input : Octets) : Except Failure Pair :=
  readRecordWith Pair.shape Pair.ofFields? input

/-- Reads a ticker as JSON. -/
def Ticker.readJson (input : Octets) : Except Failure Ticker :=
  readRecordWith Ticker.shape Ticker.ofFields? input

/-- Reads a candle as JSON. -/
def Candle.readJson (input : Octets) : Except Failure Candle :=
  readRecordWith Candle.shape Candle.ofFields? input

/-- Reads a trade as JSON. -/
def Trade.readJson (input : Octets) : Except Failure Trade :=
  readRecordWith Trade.shape Trade.ofFields? input

/-- Reads an endpoint as JSON. -/
def Endpoint.readJson (input : Octets) : Except Failure Endpoint :=
  readRecordWith Endpoint.shape Endpoint.ofFields? input

end MarketFeed
