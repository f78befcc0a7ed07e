import MarketFeed.Decimal.Sum
import MarketFeed.Fault
import MarketFeed.Market.Record

/-!
# Candles from trades

Trades in the order of their times are cut into windows. A window opens with a trade and takes the
trades that follow within a minute of it; the first one later than that opens the next window. The
candle of a window has the price and the time of its last trade and the sum of the sizes.
-/

namespace MarketFeed.Candles

/-- The length of a window in milliseconds. -/
def windowMillis : Int := 60000

/-- A window that may still take trades. -/
structure Window where
  start : Int64
  price : Decimal
  volume : Decimal
  last : Int64

/-- The window that a trade opens. -/
def Window.open (t : Trade) : Window := ⟨t.timestamp, t.price, t.size, t.timestamp⟩

/-- The window after one more trade. -/
def Window.add (w : Window) (t : Trade) : Except Fault Window :=
  match w.volume.add? t.size with
  | some volume => .ok { w with price := t.price, volume := volume, last := t.timestamp }
  | none => .error .decimalSum

/-- The candle of a window. -/
def Window.candle (w : Window) : Candle := ⟨w.price, w.volume, w.last⟩

/-- The candles of an open window and of trades in the order of their times. -/
def cut (w : Window) : List Trade → Except Fault (List Candle)
  | [] => .ok [w.candle]
  | t :: rest => do
    let age ← checkedSub t.timestamp w.start
    if age.toInt ≤ windowMillis then cut (← w.add t) rest
    else .ok (w.candle :: (← cut (Window.open t) rest))

/-- Trades in the order of their times; trades of the same time keep their order. -/
def sorted (trades : List Trade) : List Trade :=
  trades.mergeSort fun a b => a.timestamp ≤ b.timestamp

/-- The candles of trades in any order, oldest first. -/
def ofTrades (trades : List Trade) : Except Fault (List Candle) :=
  match sorted trades with
  | [] => .ok []
  | t :: rest => cut (Window.open t) rest

end MarketFeed.Candles
