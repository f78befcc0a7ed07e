import MarketFeed.Candles
import MarketFeed.Connection.Controller
import MarketFeed.Counters
import MarketFeed.Exchange.Coinbase
import MarketFeed.Exchange.Osmosis
import MarketFeed.Store

/-!
# Feeds

The feed of one exchange: which pairs it streams, the prices it has taken, and its connections.
Updates are taken only for symbols that are subscribed when their frame arrives.
-/

namespace MarketFeed

/-- How a feed is set up; times are in milliseconds. -/
structure FeedOptions where
  connection : ConnectionSettings
  candlePeriod : Nat
  websocketScheme : String
  restTimeout : Nat
deriving DecidableEq

/-- The built-in options. -/
def FeedOptions.default : FeedOptions := ⟨.default, Store.defaultPeriodMillis, "wss", 30000⟩

/-- The readings of the clock while a message is handled: each of its updates takes the next. -/
structure Clock where
  reading : Nat → Int64

/-- A clock that stands still. -/
instance : Coe Int64 Clock := ⟨fun now => ⟨fun _ => now⟩⟩

/-- The clock after its first reading. -/
def Clock.later (clock : Clock) : Clock := ⟨fun n => clock.reading (n + 1)⟩

/-- The feed of one exchange. -/
structure Feed where
  exchange : Exchange
  endpoint : Endpoint
  store : Store
  /-- The subscribed pairs under their symbols. -/
  subscribed : Table Pair
  counters : Counters
  controller : Controller

/-- What a step of a feed gives: a result, the addresses it asked for, and what was logged. -/
structure Reply (α : Type) where
  result : Except FeedError α
  fetched : List String
  events : Log.Events

namespace Feed

/-- The provider of a feed. -/
def provider (f : Feed) : Provider := f.exchange.provider

/-- The field that every event of a feed has. -/
def providerField (f : Feed) : String × Log.Datum := ("provider", .text f.provider.name)

/-- Is a symbol subscribed? -/
def isSubscribed (f : Feed) (symbol : String) : Bool := f.subscribed.has symbol

/-! ## Frames -/

/-- Puts an update into the store. -/
def keep (f : Feed) (now : Int64) : Update → Except Fault Feed
  | .ticker symbol t => .ok { f with store := f.store.setTicker symbol t }
  | .trade t => do .ok { f with store := ← f.store.setTrade t now }
  | .candle symbol c => do .ok { f with store := ← f.store.setCandle symbol c now }

/-- Takes an update if its symbol is subscribed. A fault keeps the count of the update. -/
def apply (f : Feed) (now : Int64) (u : Update) : Feed × Except Fault Unit × Log.Events :=
  if f.isSubscribed u.symbol then
    let counted := { f with counters := f.counters.record u.kind }
    -- The new total is reported too, and it has no 64 bits left after a full count.
    if f.counters.isFull u.kind then (counted, .error .sum, [])
    else match counted.keep now u with
      | .ok kept => (kept, .ok (), [])
      | .error fault => (counted, .error fault, [])
  else
    (f, .ok (), [⟨.debug, "Update for unsubscribed pair",
      [f.providerField, ("symbol", .text u.symbol)]⟩])

/-- Takes updates one after the other, up to the first fault. -/
def applyAll (f : Feed) (clock : Clock) : List Update → Feed × Except Fault Unit × Log.Events
  | [] => (f, .ok (), [])
  | u :: rest =>
    match f.apply (clock.reading 0) u with
    | (f', .error fault, events) => (f', .error fault, events)
    | (f', .ok (), events) =>
      let (f'', result, more) := f'.applyAll clock.later rest
      (f'', result, events ++ more)

/-- Handles one message of the exchange. -/
def handleFrame (f : Feed) (clock : Clock) (frame : List UInt8) :
    Feed × Except Fault Unit × Log.Events :=
  let decoded := f.exchange.decode frame
  let log (level : Log.Level) (message : String) (fields : List (String × Log.Datum)) :
      Log.Events :=
    decoded.events ++ [⟨level, message, f.providerField :: fields⟩]
  match decoded.result with
  | .ok (.updates updates) =>
    let (f', result, events) := f.applyAll clock updates
    (f', result, decoded.events ++ events)
  | .ok (.control kind) => (f, .ok (), log .debug "Control message" [("kind", .text kind)])
  | .ok (.exchangeError reason) =>
    (f, .ok (), log .error "Exchange reported error" [("reason", .text reason)])
  | .ok (.unrecognized kind) =>
    (f, .ok (), log .debug "Skipping unrecognized message" [("kind", .text kind)])
  | .error (.fault fault) => (f, .error fault, decoded.events)
  | .error e =>
    (f, .ok (), log .warn "Failed to parse websocket message"
      [("length", .count frame.length), ("error", .text e.message)])

/-! ## Queries -/

/-- The values of the pairs that have one, under their symbols, or the first fault. -/
def collect {α : Type} (f : Feed) (missing : String) (find : String → Except FeedError α) :
    List Pair → Table α → Except Fault (Table α) × Log.Events
  | [], found => (.ok found, [])
  | pair :: rest, found =>
    match find pair.symbol with
    | .ok a => f.collect missing find rest (found.put pair.symbol a)
    | .error (.fault fault) => (.error fault, [])
    | .error e =>
      let (result, events) := f.collect missing find rest found
      (result, ⟨.warn, missing, [f.providerField, ("error", .text e.message)]⟩ :: events)

/-- The answer to a query: what was found, or an error if nothing was. -/
def answer {α : Type} (none : FeedError) (collected : Except Fault (Table α) × Log.Events) :
    Reply (Table α) :=
  match collected with
  | (.error fault, events) => ⟨.error (.fault fault), [], events⟩
  | (.ok found, events) => ⟨if found.isEmpty then .error none else .ok found, [], events⟩

/-- The tickers of the pairs that have one. -/
def tickers (f : Feed) (pairs : List Pair) : Reply (Table Ticker) :=
  answer (.noTickers f.provider pairs) (f.collect "Missing ticker" f.store.ticker pairs .empty)

/-- The candles of a symbol, streamed or cut from the trades. -/
def candlesOf (f : Feed) (symbol : String) : Except FeedError (List Candle) :=
  match f.exchange.candleSource with
  | .candles => f.store.candlesOf symbol
  | .trades => do
    match Candles.ofTrades (← f.store.tradesOf symbol) with
    | .ok candles => .ok candles
    | .error fault => .error (.fault fault)

/-- The candles of the pairs that have some. -/
def candles (f : Feed) (pairs : List Pair) : Reply (Table (List Candle)) :=
  answer (.noCandles f.provider pairs) (f.collect "Missing candles" f.candlesOf pairs .empty)

/-! ## Connections -/

/-- The address that the connections of a feed go to. -/
def websocketUrl (f : Feed) : String := f.controller.url

/-- Starts the connections. -/
def start (f : Feed) : Feed × Log.Events :=
  let (controller, events) := f.controller.start
  ({ f with controller := controller }, events)

/-- Stops the connections. -/
def shutdown (f : Feed) : Feed × Log.Events :=
  let (controller, events) := f.controller.shutdown
  ({ f with controller := controller }, events)

/-- Pairs in portions for one connection each: no portion is longer than the limit, a limit of
zero is none. -/
def portions (limit : Option Nat) (pairs : List Pair) : List (List Pair) :=
  if pairs.isEmpty then []
  else match limit with
    | some (n + 1) => chunk (n + 1) pairs.length pairs
    | _ => [pairs]
where
  /-- Cuts a list into pieces of a length, the last one possibly shorter. -/
  chunk (size : Nat) : Nat → List Pair → List (List Pair)
    | 0, _ => []
    | fuel + 1, list =>
      if list.isEmpty then [] else list.take size :: chunk size fuel (list.drop size)

/-- Adds a connection that subscribes to some pairs. -/
def connect (f : Feed) (pairs : List Pair) : Feed :=
  { f with controller :=
      (f.controller.add (f.exchange.subscriptionFrames pairs) f.exchange.keepAlive).1 }

/-- Adds the connections that some pairs need. -/
def connectAll (f : Feed) (pairs : List Pair) : Feed :=
  (portions f.exchange.maxPairsPerConnection pairs).foldl connect f

end Feed

end MarketFeed
