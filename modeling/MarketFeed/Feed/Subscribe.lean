import MarketFeed.Feed.Basic

/-!
# Subscriptions

A pair is subscribed once the exchange's list of tradable pairs has confirmed it. The list is asked
for anew each time it is needed; the caller hands in what came back.

* `Feed.open?`: a feed with its first pairs.
* `Feed.subscribe`: more pairs for a feed.
-/

namespace MarketFeed

/-- What asking for the list of tradable pairs brought: its octets, or why there are none. -/
abbrev Listing := Except FeedError (List UInt8)

/-- What comes back if the address of the list is no URL: nothing can be asked for. -/
def Listing.withoutUrl : Listing := .error (.http "builder error: relative URL without a base")

/-- The symbols of a list of tradable pairs. -/
def listedSymbols (exchange : Exchange) (listing : Listing) : Except FeedError (List String) :=
  let refuse (reason : String) : FeedError := .availablePairs exchange.provider reason
  match listing with
  | .error e => .error (refuse e.message)
  | .ok body =>
    match exchange.readListing body with
    | .error e => .error (refuse (e.message body))
    | .ok pairs => .ok (pairs.map fun p => Text.upper p.symbol)

/-- The pairs whose symbol is listed; the others are logged. -/
def confirmPairs (provider : Provider) (listed : List String) (pairs : List Pair) :
    List Pair × Log.Events :=
  (pairs.filter fun p => listed.contains p.symbol,
    (pairs.filter fun p => !listed.contains p.symbol).map fun p =>
      ⟨.warn, "Pair not available on provider; skipping",
        [("provider", .text provider.name), ("pair", .text p.display)]⟩)

namespace Feed

/-- Where the list of tradable pairs is. -/
def listingUrl (f : Feed) : String := f.endpoint.rest ++ f.exchange.pairsPath

/-- The pairs that the exchange confirms. Without pairs the list is not asked for. -/
def confirm (f : Feed) (pairs : List Pair) (listing : Listing) : Reply (List Pair) :=
  if pairs.isEmpty then ⟨.ok [], [], []⟩
  else match listedSymbols f.exchange listing with
    | .error e => ⟨.error e, [f.listingUrl], []⟩
    | .ok listed =>
      let (confirmed, events) := confirmPairs f.provider listed pairs
      ⟨.ok confirmed, [f.listingUrl], events⟩

/-- Subscribes pairs one after the other and gives those whose symbol was new. A symbol that was
subscribed before now stands for the later pair. -/
def register (f : Feed) : List Pair → Feed × List Pair
  | [] => (f, [])
  | pair :: rest =>
    let fresh := !f.isSubscribed pair.symbol
    let (f', added) := register { f with subscribed := f.subscribed.put pair.symbol pair } rest
    (f', if fresh then pair :: added else added)

/-- A feed without pairs. -/
def bare (exchange : Exchange) (configured : Option Endpoint) (options : FeedOptions) : Feed :=
  let endpoint := exchange.resolveEndpoint configured
  { exchange := exchange
    endpoint := endpoint
    store := .new exchange.provider options.candlePeriod
    subscribed := .empty
    counters := {}
    controller := .new exchange.provider
      (options.websocketScheme ++ "://" ++ endpoint.websocket ++ exchange.websocketPath)
      options.connection }

/-- The first connections of a feed: those that its pairs need, or the only one of an exchange
that pushes everything. -/
def connectFirst (f : Feed) (pairs : List Pair) : Feed :=
  if f.exchange.subscribeByRequest then f.connectAll pairs else f.connect pairs

/-- A feed with its first pairs, as far as the exchange confirms them. -/
def open? (exchange : Exchange) (configured : Option Endpoint) (options : FeedOptions)
    (pairs : List Pair) (listing : Listing) : Reply Feed :=
  let f := bare exchange configured options
  let confirmation := f.confirm pairs listing
  match confirmation.result with
  | .error e => ⟨.error e, confirmation.fetched, confirmation.events⟩
  | .ok confirmed =>
    let f := (f.register confirmed).1.connectFirst confirmed
    ⟨.ok f, confirmation.fetched, confirmation.events ++
      [⟨.info, "Provider initialized", [f.providerField, ("pairs", .count confirmed.length),
        ("url", .text f.websocketUrl)]⟩]⟩

/-- The pairs of a request that are not subscribed, the first of each symbol. -/
def newPairs (f : Feed) (pairs : List Pair) : List Pair :=
  go [] (pairs.filter fun p => !f.isSubscribed p.symbol)
where
  /-- Keeps the pairs whose symbol has not been seen. -/
  go (seen : List String) : List Pair → List Pair
    | [] => []
    | p :: rest =>
      if seen.contains p.symbol then go seen rest else p :: go (p.symbol :: seen) rest

/-- Subscribes the confirmed pairs of a request and adds the connections for those that are new. -/
def addConfirmed (f : Feed) (confirmed : List Pair) : Feed × List Pair :=
  let (f, added) := f.register confirmed
  (if f.exchange.subscribeByRequest && !added.isEmpty then f.connectAll added else f, added)

/-- Subscribes more pairs and gives those that were added. -/
def subscribe (f : Feed) (pairs : List Pair) (listing : Listing) : Feed × Reply (List Pair) :=
  let fresh := f.newPairs pairs
  if fresh.isEmpty then (f, ⟨.ok [], [], []⟩)
  else
    let confirmation := f.confirm fresh listing
    match confirmation.result with
    | .error e => (f, ⟨.error e, confirmation.fetched, confirmation.events⟩)
    | .ok confirmed =>
      let (f', added) := f.addConfirmed confirmed
      (f', ⟨.ok added, confirmation.fetched, confirmation.events ++
        [⟨.info, "Subscribed currency pairs", [f.providerField,
          ("requested", .count pairs.length), ("added", .count added.length)]⟩]⟩)

/-- The symbols that the exchange lists. -/
def available (f : Feed) (listing : Listing) : Reply (List String) :=
  ⟨listedSymbols f.exchange listing, [f.listingUrl], []⟩

end Feed

end MarketFeed
