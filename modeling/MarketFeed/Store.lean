import MarketFeed.Market.Error
import MarketFeed.Market.Record
import MarketFeed.Table

/-!
# The price store

The latest ticker of each symbol, and its candles and trades, newest first. A write to a list drops
the older entries of the same symbol that are at or before the cutoff, which lies one retention
period before the clock; the new entry itself always stays.
-/

namespace MarketFeed

/-- The prices of one provider. -/
structure Store where
  provider : Provider
  /-- How long candles and trades are kept, in milliseconds. -/
  period : Int64
  tickers : Table Ticker
  candles : Table (List Candle)
  trades : Table (List Trade)

namespace Store

/-- The default retention in milliseconds. -/
def defaultPeriodMillis : Nat := 900000

/-- An empty store; the retention counts modulo 64 bits. -/
def new (provider : Provider) (periodMillis : Nat) : Store :=
  ⟨provider, Int64.ofNat periodMillis, .empty, .empty, .empty⟩

/-- The retention in milliseconds, as a count without a sign. -/
def periodMillis (s : Store) : Nat := s.period.toUInt64.toNat

/-- A list with a new entry in front, without the older ones at or before the cutoff. -/
def prependFresh {α : Type} (time : α → Int64) (cutoff : Int64) (item : α) (list : List α) :
    List α :=
  item :: list.filter fun a => cutoff < time a

/-- Entries at or before this time are stale. -/
def cutoff (s : Store) (now : Int64) : Except Fault Int64 := checkedSub now s.period

/-- Puts the ticker of a symbol in the place of the one before. -/
def setTicker (s : Store) (symbol : String) (t : Ticker) : Store :=
  { s with tickers := s.tickers.put symbol t }

/-- Adds a candle of a symbol. -/
def setCandle (s : Store) (symbol : String) (c : Candle) (now : Int64) : Except Fault Store := do
  let cutoff ← s.cutoff now
  let list := (s.candles.get? symbol).getD []
  .ok { s with candles := s.candles.put symbol (prependFresh Candle.timestamp cutoff c list) }

/-- Adds a trade under its own symbol. -/
def setTrade (s : Store) (t : Trade) (now : Int64) : Except Fault Store := do
  let cutoff ← s.cutoff now
  let list := (s.trades.get? t.symbol).getD []
  .ok { s with trades := s.trades.put t.symbol (prependFresh Trade.timestamp cutoff t list) }

/-- The ticker of a symbol. -/
def ticker (s : Store) (symbol : String) : Except FeedError Ticker :=
  match s.tickers.get? symbol with
  | some t => .ok t
  | none => .error (.tickerNotFound s.provider symbol)

/-- The candles of a symbol, newest first. -/
def candlesOf (s : Store) (symbol : String) : Except FeedError (List Candle) :=
  match s.candles.get? symbol with
  | some list => .ok list
  | none => .error (.candleNotFound s.provider symbol)

/-- The trades of a symbol, newest first. -/
def tradesOf (s : Store) (symbol : String) : Except FeedError (List Trade) :=
  match s.trades.get? symbol with
  | some list => .ok list
  | none => .error (.candleNotFound s.provider symbol)

end Store

end MarketFeed
