import MarketFeed.Feed.Basic

/-!
# Configurations

What a feeder is asked to do: the pairs and their providers, endpoints that replace the built-in
ones, and how connections are kept. The sections hold what was written, whether it makes sense or
not.

* `Config.providerPairs`: the pairs of each provider.
* `Config.endpoints`: the replaced endpoint of each provider.
* `Config.options`: the options of the feeds.
* `Config.digest`: one line for the log.
-/

namespace MarketFeed

/-- A pair and the names of the providers that stream it. -/
structure PairSection where
  base : String
  quote : String
  providers : List String
deriving DecidableEq

/-- An endpoint for the provider of a name. -/
structure EndpointSection where
  name : String
  rest : String
  websocket : String
  apiKey : Option String
deriving DecidableEq

/-- How to reconnect; delays are in milliseconds. -/
structure ReconnectSection where
  mode : String
  baseDelay : UInt64
  maxDelay : UInt64
deriving DecidableEq

/-- How connections are kept alive; times are in seconds. -/
structure ConnectionSection where
  pingInterval : UInt64
  /-- Twice the ping interval, if this is 0. -/
  stallTimeout : UInt64
  reconnect : ReconnectSection
deriving DecidableEq

/-- A configuration; times are in seconds. -/
structure Config where
  pairs : List PairSection
  endpoints : List EndpointSection
  connection : ConnectionSection
  /-- How long candles and trades are kept. -/
  candlePeriod : UInt64
  /-- How often the latest prices are logged. -/
  priceLogInterval : UInt64
deriving DecidableEq

/-! ## Connections -/

/-- The policy of a mode in any letter case. -/
def ReconnectSection.policy? (r : ReconnectSection) : Option ReconnectPolicy :=
  if Text.spells r.mode "immediate" then some .immediate
  else if Text.spells r.mode "fixed" then some (.fixed r.baseDelay.toNat)
  else if Text.spells r.mode "backoff" then some (.backoff r.baseDelay.toNat r.maxDelay.toNat)
  else none

/-- The milliseconds of some seconds. -/
def millis (seconds : UInt64) : Nat := 1000 * seconds.toNat

/-- How long a connection may be silent, in milliseconds; a duration has at most `2 ^ 64 - 1`
seconds. -/
def ConnectionSection.stallMillis (c : ConnectionSection) : Except Fault Nat :=
  if c.stallTimeout = 0 then
    if 2 * c.pingInterval.toNat < UInt64.size then .ok (2 * millis c.pingInterval)
    else .error .durationMultiple
  else .ok (millis c.stallTimeout)

/-- The settings of connections; an unknown mode gives the default policy. -/
def ConnectionSection.settings (c : ConnectionSection) : Except Fault ConnectionSettings := do
  .ok ⟨millis c.pingInterval, ← c.stallMillis, c.reconnect.policy?.getD .default⟩

/-! ## Providers -/

/-- The canonical pair of a section. -/
def PairSection.pair (s : PairSection) : Pair := Pair.of s.base s.quote

/-- Adds a pair to those of a provider, unless it is among them. -/
def addPair (pair : Pair) (p : Provider) :
    List (Provider × List Pair) → List (Provider × List Pair)
  | [] => [(p, [pair])]
  | (q, pairs) :: rest =>
    if p = q then (q, if pair ∈ pairs then pairs else pairs ++ [pair]) :: rest
    else (q, pairs) :: addPair pair p rest

/-- Sets the endpoint of a provider. -/
def setEndpoint (p : Provider) (e : Endpoint) :
    List (Provider × Endpoint) → List (Provider × Endpoint)
  | [] => [(p, e)]
  | (q, old) :: rest => if p = q then (q, e) :: rest else (q, old) :: setEndpoint p e rest

/-- The endpoint of a section, if its provider is known. -/
def EndpointSection.endpoint? (s : EndpointSection) : Option Endpoint :=
  (Provider.ofName? s.name).map fun p => ⟨p, s.rest, s.websocket, s.apiKey⟩

namespace Config

/-- The pairs of each provider in the order in which they are configured, each pair once. Unknown
providers are passed over. -/
def providerPairs (c : Config) : List (Provider × List Pair) :=
  c.pairs.foldl (fun groups s =>
    (s.providers.filterMap Provider.ofName?).foldl (fun groups p => addPair s.pair p groups)
      groups) []

/-- The replaced endpoints; of several for one provider the last one counts. Unknown providers
are passed over. -/
def endpointOverrides (c : Config) : List (Provider × Endpoint) :=
  (c.endpoints.filterMap EndpointSection.endpoint?).foldl
    (fun overrides e => setEndpoint e.provider e overrides) []

/-- The options of the feeds. -/
def options (c : Config) : Except Fault FeedOptions := do
  .ok { FeedOptions.default with
    connection := ← c.connection.settings
    candlePeriod := millis c.candlePeriod }

/-- How often prices are logged, in milliseconds: once a second at most. -/
def priceLogMillis (c : Config) : Nat := millis (max c.priceLogInterval 1)

/-- How many pairs each provider has, in the order of their names. -/
def providerCounts (c : Config) : List (String × Nat) :=
  c.providerPairs.foldl (fun counts (p, pairs) =>
    Json.insertEntry p.name pairs.length counts) []

/-- The configuration in one line. -/
def digest (c : Config) : String :=
  let providers := c.providerCounts.map fun (name, n) => name ++ "=" ++ n.repr
  "pairs=" ++ c.pairs.length.repr ++ " providers=[" ++ ", ".intercalate providers ++
    "] ping=" ++ c.connection.pingInterval.toNat.repr ++
    "s candle_period=" ++ c.candlePeriod.toNat.repr ++
    "s reconnect=" ++ c.connection.reconnect.mode

end Config

end MarketFeed
