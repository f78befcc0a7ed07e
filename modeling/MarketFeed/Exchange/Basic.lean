import MarketFeed.Json.Failure
import MarketFeed.Market.Frame
import MarketFeed.Market.Pair

/-!
# Exchanges

An exchange is a provider with its addresses, its spelling of pairs and its messages. The feed
works with any value of `Exchange`; `Exchange.Coinbase` and `Exchange.Osmosis` hold the two that
are built in.
-/

namespace MarketFeed

/-- Where the candles of an exchange come from. -/
inductive CandleSource where
  /-- The exchange streams candles. -/
  | candles
  /-- Candles are cut from the stored trades when they are asked for. -/
  | trades
deriving DecidableEq

/-- The name of a source of candles. -/
def CandleSource.name : CandleSource → String
  | .candles => "candles"
  | .trades => "trades"

/-- What is sent now and then to see whether a connection is alive. -/
inductive KeepAlive where
  /-- A ping of the websocket protocol. -/
  | ping
  /-- A text message. -/
  | text (payload : String)
deriving DecidableEq

/-- An exchange: its addresses, its spelling of pairs and its messages. -/
structure Exchange where
  provider : Provider
  websocketPath : String
  pairsPath : String
  candleSource : CandleSource
  /-- Does a new pair need a subscription message? -/
  subscribeByRequest : Bool
  /-- How many pairs one connection may carry, if there is a limit. -/
  maxPairsPerConnection : Option Nat
  defaultEndpoint : Endpoint
  keepAlive : KeepAlive
  /-- Stands between base and quote in the exchange's spelling of a pair. -/
  separator : Char
  /-- The messages that subscribe to some pairs. -/
  subscriptionFrames : List Pair → List String
  /-- Decodes one message. -/
  decode : List UInt8 → Decoded
  /-- Decodes the list of tradable pairs. -/
  readListing : List UInt8 → Except Json.Failure (List Pair)

namespace Exchange

/-- The exchange's spelling of a pair. -/
def wireSymbol (e : Exchange) (p : Pair) : String := p.separated e.separator

/-- The pair that the exchange spells in this way. -/
def pairOfWire? (e : Exchange) (s : String) : Option Pair := Pair.ofSeparated? e.separator s

/-- The configured endpoint if it belongs to the exchange, else the built-in one. -/
def resolveEndpoint (e : Exchange) (configured : Option Endpoint) : Endpoint :=
  match configured with
  | some endpoint => if endpoint.provider = e.provider then endpoint else e.defaultEndpoint
  | none => e.defaultEndpoint

end Exchange

end MarketFeed
