import MarketFeed.Config.Basic
import MarketFeed.Json.Record

/-!
# Configurations as JSON

A decoded JSON value as a configuration, with exact types and no defaults. A section is an object
or the list of its values in order. The entries of an object are looked at one by one in the order
of their keys, and only then the missing fields.

* `Config.ofJson`: the configuration, or why there is none.
-/

namespace MarketFeed

open Json

namespace Config

/-- How a value of some type is read. -/
abbrev ValueReader (α : Type) := Value → Except Cause α

/-- A field of a section: its name, how its value is checked, and whether it has to be there. -/
structure Entry where
  name : String
  check : ValueReader Unit
  required : Bool := true

/-- A field that is read in some way. -/
def entry {α : Type} (name : String) (read : ValueReader α) : Entry :=
  ⟨name, fun v => (read v).map fun _ => (), true⟩

/-- A field that may be missing. -/
def optionalEntry {α : Type} (name : String) (read : ValueReader α) : Entry :=
  { entry name read with required := false }

/-- Checks the entries of an object in order. -/
def checkEntries (shape : List Entry) : List (String × Value) → Except Cause Unit
  | [] => .ok ()
  | (key, v) :: rest => do
    match shape.find? fun e => e.name = key with
    | none => pure ()
    | some e => e.check v
    checkEntries shape rest

/-- Checks the values of a list in order; `index` counts the fields before these. -/
def checkItems (expecting : String) : List Entry → Nat → List Value → Except Cause Unit
  | [], _, _ => .ok ()
  | e :: more, index, v :: rest => do
    e.check v
    checkItems expecting more (index + 1) rest
  | e :: more, index, [] =>
    if e.required then .error (.invalidLength index expecting)
    else checkItems expecting more (index + 1) []

/-- The named values of a section, each of them checked. -/
def sectionOf (title : String) (shape : List Entry) :
    Value → Except Cause (List (String × Value))
  | .object entries => do
    checkEntries shape entries
    match shape.find? fun e => e.required && (entries.lookup e.name).isNone with
    | some e => .error (.missingField e.name)
    | none => .ok entries
  | .array items => do
    checkItems
      ("struct " ++ title ++ " with " ++ shape.length.repr ++ " elements") shape 0 items
    if items.length > shape.length then
      .error (.invalidLength items.length "fewer elements in array")
    else .ok ((shape.map Entry.name).zip items)
  | v => .error (.invalidType v.found ("struct " ++ title))

/-- The value of a field that has to be there. -/
def fieldOf {α : Type} (values : List (String × Value)) (name : String) (read : ValueReader α) :
    Except Cause α :=
  match values.lookup name with
  | some v => read v
  | none => .error (.missingField name)

/-- The value of a field that may be missing. -/
def fieldOr {α : Type} (values : List (String × Value)) (name : String) (default : α)
    (read : ValueReader α) : Except Cause α :=
  match values.lookup name with
  | some v => read v
  | none => .ok default

/-! ## Values -/

/-- An integer of 64 bits without sign. -/
def countOf : ValueReader UInt64
  | .number (.natural n) => .ok (UInt64.ofNat n)
  | .number (.negative i) => .error (.invalidValue (.number (.negative i)) "u64")
  | v => .error (.invalidType v.found "u64")

/-- A list whose items are read alike. -/
def listOf {α : Type} (read : ValueReader α) : ValueReader (List α)
  | .array items => items.mapM read
  | v => .error (.invalidType v.found "a sequence")

/-- A text, or nothing for `null`. -/
def optionalTextOf : ValueReader (Option String)
  | .null => .ok none
  | v => v.text.map some

/-! ## Sections -/

/-- A pair with its providers. -/
def pairOf : ValueReader PairSection := fun v => do
  let values ← sectionOf "CurrencyPairConfig"
    [entry "base" Value.text, entry "quote" Value.text,
      optionalEntry "providers" (listOf Value.text)] v
  .ok ⟨← fieldOf values "base" Value.text, ← fieldOf values "quote" Value.text,
    ← fieldOr values "providers" [] (listOf Value.text)⟩

/-- An endpoint. -/
def endpointOf : ValueReader EndpointSection := fun v => do
  let values ← sectionOf "EndpointConfig"
    [entry "name" Value.text, entry "rest" Value.text, entry "websocket" Value.text,
      optionalEntry "api_key" optionalTextOf] v
  .ok ⟨← fieldOf values "name" Value.text, ← fieldOf values "rest" Value.text,
    ← fieldOf values "websocket" Value.text, ← fieldOr values "api_key" none optionalTextOf⟩

/-- How to reconnect. -/
def reconnectOf : ValueReader ReconnectSection := fun v => do
  let values ← sectionOf "ReconnectConfig"
    [entry "mode" Value.text, entry "base_delay_ms" countOf, entry "max_delay_ms" countOf] v
  .ok ⟨← fieldOf values "mode" Value.text, ← fieldOf values "base_delay_ms" countOf,
    ← fieldOf values "max_delay_ms" countOf⟩

/-- How connections are kept. -/
def connectionOf : ValueReader ConnectionSection := fun v => do
  let values ← sectionOf "ConnectionConfig"
    [entry "ping_interval_secs" countOf, entry "stall_timeout_secs" countOf,
      entry "reconnect" reconnectOf] v
  .ok ⟨← fieldOf values "ping_interval_secs" countOf, ← fieldOf values "stall_timeout_secs" countOf,
    ← fieldOf values "reconnect" reconnectOf⟩

/-- The configuration that a value holds. -/
def ofJson : ValueReader Config := fun v => do
  let values ← sectionOf "FeederConfig"
    [entry "currency_pairs" (listOf pairOf),
      optionalEntry "provider_endpoints" (listOf endpointOf),
      entry "connection" connectionOf, entry "candle_period_secs" countOf,
      entry "price_log_interval_secs" countOf] v
  .ok ⟨← fieldOf values "currency_pairs" (listOf pairOf),
    ← fieldOr values "provider_endpoints" [] (listOf endpointOf),
    ← fieldOf values "connection" connectionOf, ← fieldOf values "candle_period_secs" countOf,
    ← fieldOf values "price_log_interval_secs" countOf⟩

end Config

end MarketFeed
