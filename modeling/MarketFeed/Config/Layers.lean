import MarketFeed.Config.Error
import MarketFeed.Settings.Overlay
import MarketFeed.Toml.Read

/-!
# Configurations from layers of settings

The built-in defaults are the lowest layer. What lies on top of them may leave out any setting that
has a default, and is read leniently.

* `Config.defaults`: the built-in layer.
* `Config.ofSetting?`: the configuration that settings spell.
* `Config.ofLayers`: the validated configuration of some layers.
* `Config.ofToml`: the configuration of a TOML text on top of the defaults.
-/

namespace MarketFeed

namespace PairSection

/-- The pair that a setting spells. -/
def ofSetting? (s : Setting) : Option PairSection := do
  let base ← (← s.member? 0 "base").text?
  let quote ← (← s.member? 1 "quote").text?
  let providers ← match s.member? 2 "providers" with
    | some names => names.listOf? Setting.text?
    | none => some []
  some ⟨base, quote, providers⟩

end PairSection

namespace EndpointSection

/-- The endpoint that a setting spells. -/
def ofSetting? (s : Setting) : Option EndpointSection := do
  let name ← (← s.member? 0 "name").text?
  let rest ← (← s.member? 1 "rest").text?
  let websocket ← (← s.member? 2 "websocket").text?
  let apiKey ← match s.member? 3 "api_key" with
    | some key => key.optionalText?
    | none => some none
  some ⟨name, rest, websocket, apiKey⟩

end EndpointSection

namespace ReconnectSection

/-- How to reconnect, as a setting spells it. -/
def ofSetting? (s : Setting) : Option ReconnectSection := do
  let mode ← (← s.member? 0 "mode").text?
  let baseDelay ← (← s.member? 1 "base_delay_ms").count?
  let maxDelay ← (← s.member? 2 "max_delay_ms").count?
  some ⟨mode, baseDelay, maxDelay⟩

end ReconnectSection

namespace ConnectionSection

/-- How connections are kept, as a setting spells it. -/
def ofSetting? (s : Setting) : Option ConnectionSection := do
  let pingInterval ← (← s.member? 0 "ping_interval_secs").count?
  let stallTimeout ← (← s.member? 1 "stall_timeout_secs").count?
  let reconnect ← ReconnectSection.ofSetting? (← s.member? 2 "reconnect")
  some ⟨pingInterval, stallTimeout, reconnect⟩

end ConnectionSection

namespace Config

/-- The configuration that settings spell. -/
def ofSetting? (s : Setting) : Option Config := do
  let pairs ← (← s.member? 0 "currency_pairs").listOf? PairSection.ofSetting?
  let endpoints ← match s.member? 1 "provider_endpoints" with
    | some endpoints => endpoints.listOf? EndpointSection.ofSetting?
    | none => some []
  let connection ← ConnectionSection.ofSetting? (← s.member? 2 "connection")
  let candlePeriod ← (← s.member? 3 "candle_period_secs").count?
  let priceLogInterval ← (← s.member? 4 "price_log_interval_secs").count?
  some ⟨pairs, endpoints, connection, candlePeriod, priceLogInterval⟩

/-- One source of settings. -/
abbrev Layer := List (String × Setting)

/-- The built-in layer. -/
def defaults : Layer :=
  [("connection.ping_interval_secs", .int 15),
    ("connection.stall_timeout_secs", .int 0),
    ("connection.reconnect.mode", .text "backoff"),
    ("connection.reconnect.base_delay_ms", .int 1000),
    ("connection.reconnect.max_delay_ms", .int 60000),
    ("candle_period_secs", .int 900),
    ("price_log_interval_secs", .int 30)]

/-- Puts a layer that could be read on top of settings. -/
def addLayer (s : Setting) (layer : Except ConfigError Layer) : Except ConfigError Setting := do
  match s.overlay? (← layer) with
  | .ok s => .ok s
  | .error f => .error (.fault f)

/-- The settings of layers on top of the defaults, the lowest one first. The first layer that
could not be read or put on top ends this. -/
def settingsOf (layers : List (Except ConfigError Layer)) : Except ConfigError Setting :=
  (.ok defaults :: layers).foldlM addLayer (.table [])

/-- The validated configuration of layers on top of the defaults. -/
def ofLayers (layers : List (Except ConfigError Layer)) : Except ConfigError Config := do
  match ofSetting? (← settingsOf layers) with
  | none => .error .mistyped
  | some c => do
    c.validate
    .ok c

/-- The layer of a text in some format, which may read as none. -/
def layerOf : Option Layer → Except ConfigError Layer
  | some layer => .ok layer
  | none => .error .unreadable

/-- The configuration of a TOML text on top of the defaults. -/
def ofToml (text : String) : Except ConfigError Config := ofLayers [layerOf (Toml.read text)]

end Config

end MarketFeed
