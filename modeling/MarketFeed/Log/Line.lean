import MarketFeed.Json.Write
import MarketFeed.Log.Event

/-!
# Log lines

An event as a line of text or as a JSON object. Lines do not show the time.
-/

namespace MarketFeed.Log

/-- The upper-case name of a level. -/
def Level.label : Level → String
  | .debug => "DEBUG"
  | .info => "INFO"
  | .warn => "WARN"
  | .error => "ERROR"

/-- An event and the part of the program that it comes from. -/
structure Record where
  target : String
  event : Event
deriving DecidableEq

/-- A value as JSON. -/
def Datum.toJson : Datum → Json.Value
  | .text s => .string s
  | .count n => .nat n

/-- The line of an event. -/
def Record.line (r : Record) : String :=
  let values := r.event.fields.map fun (name, d) => " " ++ name ++ "=" ++ d.render
  r.event.level.label ++ " " ++ r.target ++ ": " ++ r.event.message ++ String.join values

/-- The JSON object of an event; the message is the first of its fields. -/
def Record.toJson (r : Record) : Json.Value :=
  .object [("level", .string r.event.level.label),
    ("fields", .object (("message", .string r.event.message) ::
      r.event.fields.map fun (name, d) => (name, d.toJson))),
    ("target", .string r.target)]

end MarketFeed.Log
