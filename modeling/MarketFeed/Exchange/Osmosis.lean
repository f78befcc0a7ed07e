import MarketFeed.Exchange.Basic
import MarketFeed.Json.Record
import MarketFeed.Market.Error

/-!
# Osmosis

The exchange pushes all pairs that it tracks. A message is a JSON object keyed by the spelling of
a pair: an object is its ticker, a list holds its candles. A bare `ack` confirms the connection.
-/

namespace MarketFeed.Osmosis

open Json

/-- The spelling of a pair has a slash in the middle. -/
def separator : Char := '/'

/-- The fields of a ticker. -/
def tickerShape : Shape :=
  ⟨"OsmosisV2Ticker", [⟨"Price", .text, true⟩, ⟨"Volume", .text, true⟩]⟩

/-- The fields of a candle. -/
def candleShape : Shape :=
  ⟨"OsmosisV2Candle", [⟨"Close", .text, true⟩, ⟨"Volume", .text, true⟩, ⟨"EndTime", .int64, true⟩]⟩

/-- The fields of a tradable pair. -/
def listingShape : Shape :=
  ⟨"OsmosisV2PairData", [⟨"base", .text, true⟩, ⟨"quote", .text, true⟩]⟩

/-- A refused JSON value as an error of the feed. -/
def refused {α : Type} : Except Cause α → Except FeedError α
  | .ok a => .ok a
  | .error cause => .error (.json cause.message)

/-- The ticker of a JSON value. -/
def tickerOfValue (v : Value) : Except FeedError Ticker := do
  let (price, volume) ← refused (recordOfValueWith tickerShape (fun f => do
    some (← f.text? "Price", ← f.text? "Volume")) v)
  let price ← Decimal.read price
  let volume ← Decimal.read volume
  .ok ⟨price, volume⟩

/-- The candle of a JSON value. -/
def candleOfValue (v : Value) : Except FeedError Candle := do
  let (close, volume, endTime) ← refused (recordOfValueWith candleShape (fun f => do
    some (← f.text? "Close", ← f.text? "Volume", ← f.int64? "EndTime")) v)
  let price ← Decimal.read close
  let volume ← Decimal.read volume
  .ok ⟨price, volume, endTime⟩

/-- What was dropped under a key, and why. -/
def dropped (what key : String) (e : FeedError) : Log.Event :=
  ⟨.warn, "Dropping invalid " ++ what, [("provider", .text Provider.osmosisV2.name),
    ("pair", .text key), ("error", .text e.message)]⟩

/-- Updates and events so far, unless a fault has ended the work. -/
abbrev Gathered := Except (Fault × Log.Events) (List Update × Log.Events)

/-- The update of one value under a key, or the event that says why there is none. -/
def gatherOne (what key : String) (read : Except FeedError Update) : Gathered :=
  match read with
  | .ok update => .ok ([update], [])
  | .error (.fault f) => .error (f, [])
  | .error e => .ok ([], [dropped what key e])

/-- One part after another; a fault keeps the events before it. -/
def gatherAll : List Gathered → Gathered
  | [] => .ok ([], [])
  | .error fault :: _ => .error fault
  | .ok (updates, events) :: rest =>
    match gatherAll rest with
    | .ok (moreUpdates, moreEvents) => .ok (updates ++ moreUpdates, events ++ moreEvents)
    | .error (fault, moreEvents) => .error (fault, events ++ moreEvents)

/-- The updates of one entry of a message. -/
def gatherEntry (entry : String × Value) : Gathered :=
  let (key, value) := entry
  match Pair.ofSeparated? separator key with
  | none => .ok ([], [])
  | some pair =>
    match value with
    | .object _ =>
      gatherOne "ticker" key ((tickerOfValue value).map fun t => .ticker pair.symbol t)
    | .array items =>
      gatherAll (items.map fun item =>
        gatherOne "candle" key ((candleOfValue item).map fun c => .candle pair.symbol c))
    | _ => .ok ([], [])

/-- Decodes the entries of a message, in their order. -/
def decodeEntries (entries : List (String × Value)) : Decoded :=
  match gatherAll (entries.map gatherEntry) with
  | .ok (updates, events) => ⟨.ok (.updates updates), events⟩
  | .error (fault, events) => ⟨.error (.fault fault), events⟩

/-- Decodes one message. -/
def decode (frame : List UInt8) : Decoded :=
  if frame = ascii "ack" then ⟨.ok (.control "ack"), []⟩
  else match Value.read frame with
    | .error e => ⟨.error (.malformed (e.message frame)), []⟩
    | .ok (.object entries) => decodeEntries entries
    | .ok _ => ⟨.error (.schema "expected an object keyed by BASE/QUOTE"), []⟩

/-- Decodes the list of tradable pairs. -/
def readListing (body : List UInt8) : Except Failure (List Pair) :=
  readRecordsWith listingShape (fun f => do
    some (Pair.of (← f.text? "base") (← f.text? "quote"))) body

end MarketFeed.Osmosis

namespace MarketFeed

/-- The Osmosis exchange. -/
def Exchange.osmosis : Exchange where
  provider := .osmosisV2
  websocketPath := "/ws"
  pairsPath := "/assetpairs"
  candleSource := .candles
  subscribeByRequest := false
  maxPairsPerConnection := none
  defaultEndpoint :=
    ⟨.osmosisV2, "https://api.osmo-api.prod.network.umee.cc",
      "api.osmo-api.prod.network.umee.cc", none⟩
  keepAlive := .ping
  separator := Osmosis.separator
  subscriptionFrames _ := [""]
  decode := Osmosis.decode
  readListing := Osmosis.readListing

end MarketFeed
