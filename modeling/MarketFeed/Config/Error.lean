import MarketFeed.Config.Basic
import MarketFeed.Fault
import MarketFeed.Text.Quoted

/-!
# Refused configurations

* `Config.validate`: the first thing that is wrong with a configuration, in a fixed order: the
  pairs one by one, the endpoints one by one, the connection, the candles.
-/

namespace MarketFeed

/-- Why a configuration is refused. -/
inductive ConfigError where
  /-- A source is missing or not written in its format. -/
  | unreadable
  /-- A value is missing or of the wrong type. -/
  | mistyped
  | noPairs
  | incompletePair (base quote : String)
  | noProviders (base quote : String)
  | unsupportedProvider (name base quote : String)
  | unsupportedEndpoint (name : String)
  | incompleteEndpoint (name : String)
  | noPingInterval
  | unknownReconnectMode (mode : String)
  | noCandlePeriod
  /-- A computation left the range of its numbers. -/
  | fault (f : Fault)
deriving DecidableEq

/-- The wording of a refusal. -/
def ConfigError.message : ConfigError → String
  | .unreadable => "Failed to build configuration"
  | .mistyped => "Failed to deserialize configuration"
  | .noPairs => "At least one currency pair must be configured"
  | .incompletePair base quote =>
    "Currency pair " ++ Text.quoted base ++ "/" ++ Text.quoted quote ++
      " needs both base and quote"
  | .noProviders base quote => "Currency pair " ++ base ++ quote ++ " has no providers"
  | .unsupportedProvider name base quote =>
    "Unsupported provider " ++ Text.quoted name ++ " for pair " ++ base ++ quote
  | .unsupportedEndpoint name =>
    "Unsupported provider " ++ Text.quoted name ++ " in provider_endpoints"
  | .incompleteEndpoint name => "Endpoint for " ++ name ++ " needs both rest and websocket"
  | .noPingInterval => "connection.ping_interval_secs must be positive"
  | .unknownReconnectMode mode =>
    "Unknown reconnect mode " ++ Text.quoted mode ++
      " (expected immediate, fixed or backoff)"
  | .noCandlePeriod => "candle_period_secs must be positive"
  | .fault f => f.message

/-- Is this the name of a provider, in any letter case? -/
def isProviderName (name : String) : Bool := (Provider.ofName? name).isSome

/-- Refuses a pair without names or without known providers. -/
def PairSection.validate (s : PairSection) : Except ConfigError Unit :=
  if Text.isAllBlank s.base || Text.isAllBlank s.quote then
    .error (.incompletePair s.base s.quote)
  else if s.providers.isEmpty then .error (.noProviders s.base s.quote)
  else match s.providers.find? fun name => !isProviderName name with
    | some name => .error (.unsupportedProvider name s.base s.quote)
    | none => .ok ()

/-- Refuses an endpoint of no known provider or without addresses. -/
def EndpointSection.validate (s : EndpointSection) : Except ConfigError Unit :=
  if !isProviderName s.name then .error (.unsupportedEndpoint s.name)
  else if Text.isAllBlank s.rest || Text.isAllBlank s.websocket then
    .error (.incompleteEndpoint s.name)
  else .ok ()

/-- Refuses what a feeder cannot run with. -/
def Config.validate (c : Config) : Except ConfigError Unit := do
  if c.pairs.isEmpty then throw .noPairs
  c.pairs.forM PairSection.validate
  c.endpoints.forM EndpointSection.validate
  if c.connection.pingInterval = 0 then throw .noPingInterval
  if c.connection.reconnect.policy?.isNone then
    throw (.unknownReconnectMode c.connection.reconnect.mode)
  if c.candlePeriod = 0 then throw .noCandlePeriod

end MarketFeed
