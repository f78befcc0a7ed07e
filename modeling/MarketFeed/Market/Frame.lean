import MarketFeed.Fault
import MarketFeed.Log.Event
import MarketFeed.Market.Record

/-!
# Frames

What one message of an exchange means once it is decoded: price updates, a control message, an
error that the exchange reports, or something that the feed has no use for.
-/

namespace MarketFeed

/-- The kind of a price update. -/
inductive UpdateKind where
  | ticker
  | trade
  | candle
deriving DecidableEq

/-- The name of a kind of update. -/
def UpdateKind.name : UpdateKind → String
  | .ticker => "ticker"
  | .trade => "trade"
  | .candle => "candle"

/-- A price update for the market of a symbol. -/
inductive Update where
  | ticker (symbol : String) (ticker : Ticker)
  | trade (trade : Trade)
  | candle (symbol : String) (candle : Candle)
deriving DecidableEq

namespace Update

/-- The symbol of the market that an update is about. -/
def symbol : Update → String
  | .ticker s _ => s
  | .trade t => t.symbol
  | .candle s _ => s

/-- The kind of an update. -/
def kind : Update → UpdateKind
  | .ticker .. => .ticker
  | .trade .. => .trade
  | .candle .. => .candle

end Update

/-- A decoded message. -/
inductive Frame where
  /-- Valid updates; invalid ones have been dropped. -/
  | updates (items : List Update)
  /-- A confirmation or a heartbeat. -/
  | control (kind : String)
  /-- An error that the exchange reports. -/
  | exchangeError (reason : String)
  /-- A message of a kind that the feed does not use. -/
  | unrecognized (kind : String)
deriving DecidableEq

/-- Why a message could not be decoded. -/
inductive FrameError where
  /-- The message is not the JSON that was expected. -/
  | malformed (reason : String)
  /-- The message is JSON of another form. -/
  | schema (reason : String)
  /-- A computation left the range of its numbers. -/
  | fault (f : Fault)
deriving DecidableEq

/-- The wording of an error. -/
def FrameError.message : FrameError → String
  | .malformed reason => "malformed frame: " ++ reason
  | .schema reason => "unexpected frame schema: " ++ reason
  | .fault f => f.message

/-- A decoded message and what was logged about its invalid parts. -/
structure Decoded where
  result : Except FrameError Frame
  events : Log.Events

end MarketFeed
