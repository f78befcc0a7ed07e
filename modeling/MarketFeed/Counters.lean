import MarketFeed.Market.Frame

/-!
# Update counters

How many updates of each kind a provider has taken, in 64 bits.
-/

namespace MarketFeed

/-- Counts of updates by kind. -/
structure Counters where
  ticker : UInt64 := 0
  trade : UInt64 := 0
  candle : UInt64 := 0
deriving DecidableEq

/-- The count of a kind. -/
def Counters.get (c : Counters) : UpdateKind → UInt64
  | .ticker => c.ticker
  | .trade => c.trade
  | .candle => c.candle

/-- Is the count of a kind the last one that 64 bits hold? -/
def Counters.isFull (c : Counters) (kind : UpdateKind) : Bool :=
  (c.get kind).toNat + 1 = UInt64.size

/-- Counts one more update. -/
def Counters.record (c : Counters) : UpdateKind → Counters
  | .ticker => { c with ticker := c.ticker + 1 }
  | .trade => { c with trade := c.trade + 1 }
  | .candle => { c with candle := c.candle + 1 }

/-- One more update raises the count of its own kind, unless that is full. -/
theorem Counters.get_record {c : Counters} {kind : UpdateKind} (h : c.isFull kind = false)
    (other : UpdateKind) :
    ((c.record kind).get other).toNat = (c.get other).toNat + if kind = other then 1 else 0 := by
  have hadd : ∀ n : UInt64, n.toNat + 1 ≠ UInt64.size → (n + 1).toNat = n.toNat + 1 := by
    intro n hn
    have hlt := n.toNat_lt
    simp only [UInt64.size] at hn
    simp only [UInt64.toNat_add, UInt64.toNat_one]
    omega
  simp only [isFull, decide_eq_false_iff_not] at h
  cases kind <;> cases other <;> simp only [record, get, reduceCtorEq, ↓reduceIte, Nat.add_zero] <;>
    exact hadd _ h

end MarketFeed
