import MarketFeed.Exchange.Basic
import MarketFeed.Instant
import MarketFeed.Json.Record
import MarketFeed.Market.Error

/-!
# Coinbase

Messages are JSON objects whose `type` says what they are. Tickers and trades each give one
update; candles are cut from the trades.
-/

namespace MarketFeed.Coinbase

open Json

/-- The spelling of a pair has a hyphen in the middle. -/
def separator : Char := '-'

/-- The field that every message has. -/
def envelopeShape : Shape := ⟨"CoinbaseEnvelope", [⟨"type", .text, true⟩]⟩

/-- The fields of a trade message. -/
def tradeShape : Shape :=
  ⟨"CoinbaseTradeResponse", [⟨"product_id", .text, true⟩, ⟨"time", .text, true⟩,
    ⟨"size", .text, true⟩, ⟨"price", .text, true⟩]⟩

/-- The fields of a ticker message. -/
def tickerShape : Shape :=
  ⟨"CoinbaseTicker", [⟨"product_id", .text, true⟩, ⟨"price", .text, true⟩,
    ⟨"volume_24h", .text, true⟩]⟩

/-- The fields of an error message. -/
def errorShape : Shape :=
  ⟨"CoinbaseErrResponse", [⟨"message", .text, false⟩, ⟨"reason", .text, false⟩]⟩

/-- The fields of a tradable pair. -/
def listingShape : Shape :=
  ⟨"CoinbasePairSummary", [⟨"base_currency", .text, true⟩, ⟨"quote_currency", .text, true⟩]⟩

/-- A trade message as it came. -/
structure TradeMessage where
  productId : String
  time : String
  size : String
  price : String

/-- A ticker message as it came. -/
structure TickerMessage where
  productId : String
  price : String
  volume : String

/-- The type of a message. -/
def readType (frame : List UInt8) : Except Failure String :=
  readRecordWith envelopeShape (·.text? "type") frame

/-- The trade message of a frame. -/
def readTrade (frame : List UInt8) : Except Failure TradeMessage :=
  readRecordWith tradeShape (fun f => do
    some ⟨← f.text? "product_id", ← f.text? "time", ← f.text? "size", ← f.text? "price"⟩) frame

/-- The ticker message of a frame. -/
def readTicker (frame : List UInt8) : Except Failure TickerMessage :=
  readRecordWith tickerShape (fun f => do
    some ⟨← f.text? "product_id", ← f.text? "price", ← f.text? "volume_24h"⟩) frame

/-- The message and the reason of an error frame; both are empty if they cannot be read. -/
def readError (frame : List UInt8) : String × String :=
  let read := readRecordWith errorShape (fun f =>
    some ((f.text? "message").getD "", (f.text? "reason").getD "")) frame
  match read with
  | .ok texts => texts
  | .error _ => ("", "")

/-- The canonical symbol of a product. -/
def canonicalSymbol (productId : String) : Except FeedError String :=
  match Pair.ofSeparated? separator productId with
  | some pair => .ok pair.symbol
  | none => .error (.invalidField "product_id" productId "not a BASE-QUOTE product id")

/-- The update of a ticker message. -/
def TickerMessage.update (m : TickerMessage) : Except FeedError Update := do
  let symbol ← canonicalSymbol m.productId
  let price ← Decimal.read m.price
  let volume ← Decimal.read m.volume
  .ok (.ticker symbol ⟨price, volume⟩)

/-- The instant of a trade message. -/
def TradeMessage.timestamp (m : TradeMessage) : Except FeedError Int64 :=
  match Instant.read m.time with
  | .ok t => .ok t
  | .error e => .error (.invalidField "time" m.time e.message)

/-- The update of a trade message. -/
def TradeMessage.update (m : TradeMessage) : Except FeedError Update := do
  let timestamp ← m.timestamp
  let symbol ← canonicalSymbol m.productId
  let size ← Decimal.read m.size
  let price ← Decimal.read m.price
  .ok (.trade ⟨symbol, timestamp, size, price⟩)

/-- A valid update is the only one of its frame; an invalid one is dropped and logged. -/
def keepValid : Except FeedError Update → Decoded
  | .ok update => ⟨.ok (.updates [update]), []⟩
  | .error (.fault f) => ⟨.error (.fault f), []⟩
  | .error e =>
    ⟨.ok (.updates []), [⟨.warn, "Dropping invalid update",
      [("provider", .text Provider.coinbase.name), ("error", .text e.message)]⟩]⟩

/-- A refused frame. -/
def malformed (frame : List UInt8) (e : Failure) : Decoded :=
  ⟨.error (.malformed (e.message frame)), []⟩

/-- Decodes one message. -/
def decode (frame : List UInt8) : Decoded :=
  match readType frame with
  | .error e => malformed frame e
  | .ok type =>
    if type = "error" then
      let (message, reason) := readError frame
      ⟨.ok (.exchangeError (Text.trim (message ++ " " ++ reason))), []⟩
    else if type = "subscriptions" ∨ type = "heartbeat" then ⟨.ok (.control type), []⟩
    else if type = "ticker" then
      match readTicker frame with
      | .ok m => keepValid m.update
      | .error e => malformed frame e
    else if type = "match" ∨ type = "last_match" then
      match readTrade frame with
      | .ok m => keepValid m.update
      | .error e => malformed frame e
    else ⟨.ok (.unrecognized type), []⟩

/-- The message that subscribes to the trades and tickers of some pairs. -/
def subscription (pairs : List Pair) : Value :=
  .object [("type", .string "subscribe"),
    ("product_ids", .array (pairs.map fun p => .string (p.separated separator))),
    ("channels", .array [.string "matches", .string "ticker"])]

/-- Decodes the list of tradable pairs. -/
def readListing (body : List UInt8) : Except Failure (List Pair) :=
  readRecordsWith listingShape (fun f => do
    some (Pair.of (← f.text? "base_currency") (← f.text? "quote_currency"))) body

end MarketFeed.Coinbase

namespace MarketFeed

/-- The Coinbase exchange. -/
def Exchange.coinbase : Exchange where
  provider := .coinbase
  websocketPath := ""
  pairsPath := "/products"
  candleSource := .trades
  subscribeByRequest := true
  maxPairsPerConnection := none
  defaultEndpoint :=
    ⟨.coinbase, "https://api.exchange.coinbase.com", "ws-feed.exchange.coinbase.com", none⟩
  keepAlive := .ping
  separator := Coinbase.separator
  subscriptionFrames pairs := [(Coinbase.subscription pairs).render]
  decode := Coinbase.decode
  readListing := Coinbase.readListing

end MarketFeed
