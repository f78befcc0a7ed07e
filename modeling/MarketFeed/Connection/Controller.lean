import MarketFeed.Exchange.Basic
import MarketFeed.Connection.Reconnect

/-!
# The connections of a provider

Connections that are added before the start wait for it; later ones run at once. Each gets the next
number. A shutdown stops and forgets all of them, but what was started stays started.
-/

namespace MarketFeed

/-- A connection and the messages that it subscribes with. -/
structure Connection where
  id : Nat
  frames : List String
  keepAlive : KeepAlive
deriving DecidableEq

/-- The connections of one provider. -/
structure Controller where
  provider : Provider
  url : String
  settings : ConnectionSettings
  /-- Connections that wait for the start. -/
  pending : List Connection
  /-- Connections that run. -/
  running : List Connection
  started : Bool
  nextId : Nat

namespace Controller

/-- No connections yet. -/
def new (provider : Provider) (url : String) (settings : ConnectionSettings) : Controller :=
  ⟨provider, url, settings, [], [], false, 0⟩

/-- Adds a connection and gives its number. -/
def add (c : Controller) (frames : List String) (keepAlive : KeepAlive) : Controller × Nat :=
  let connection : Connection := ⟨c.nextId, frames, keepAlive⟩
  let c' := { c with nextId := c.nextId + 1 }
  if c.started then ({ c' with running := c.running ++ [connection] }, c.nextId)
  else ({ c' with pending := c.pending ++ [connection] }, c.nextId)

/-- Runs the waiting connections; a second start does nothing. -/
def start (c : Controller) : Controller × Log.Events :=
  if c.started then (c, [])
  else
    ({ c with started := true, pending := [], running := c.running ++ c.pending },
      [⟨.info, "Starting websocket connections",
        [("provider", .text c.provider.name), ("connections", .count c.pending.length)]⟩])

/-- Stops and forgets all connections. -/
def shutdown (c : Controller) : Controller × Log.Events :=
  ({ c with pending := [], running := [] },
    [⟨.info, "Websocket connections shut down", [("provider", .text c.provider.name)]⟩])

/-- How many connections there are, waiting or running. -/
def count (c : Controller) : Nat := c.pending.length + c.running.length

/-- All connections in the order in which they were added. -/
def connections (c : Controller) : List Connection := c.running ++ c.pending

end Controller

end MarketFeed
