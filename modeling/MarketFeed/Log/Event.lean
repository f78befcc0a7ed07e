/-!
# Log events

What the feed reports about its work: a level, a message and named values, in the order in which
they are written.
-/

namespace MarketFeed.Log

/-- How important an event is. -/
inductive Level where
  | debug
  | info
  | warn
  | error
deriving DecidableEq

/-- The lower-case name of a level. -/
def Level.name : Level → String
  | .debug => "debug"
  | .info => "info"
  | .warn => "warn"
  | .error => "error"

/-- A value of an event. -/
inductive Datum where
  | text (s : String)
  | count (n : Nat)
deriving DecidableEq

/-- The text of a value. -/
def Datum.render : Datum → String
  | .text s => s
  | .count n => n.repr

/-- One event. -/
structure Event where
  level : Level
  message : String
  fields : List (String × Datum)
deriving DecidableEq

/-- Events in the order in which they happened. -/
abbrev Events := List Event

end MarketFeed.Log
