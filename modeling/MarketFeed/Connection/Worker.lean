import MarketFeed.Connection.Reconnect
import MarketFeed.Log.Event
import MarketFeed.Market.Provider

/-!
# Workers

A worker keeps one connection: it tries to connect, and after a failed attempt waits and tries
again, until it is cancelled. Here no attempt succeeds; what happens to a worker is a list of
signals.

* `Worker.start`: the first attempt.
* `Worker.step`: what a signal does, and the events that it causes.
* `Worker.run`: what several signals do.
-/

namespace MarketFeed

/-- A worker and the connection that it keeps. -/
structure Worker where
  provider : Provider
  /-- The number of the connection. -/
  connection : Nat
  url : String
  reconnect : ReconnectPolicy
deriving DecidableEq

/-- What happens to a worker. -/
inductive Signal where
  /-- The attempt to connect has failed. The random factor belongs to the delay that follows. -/
  | failed (reason : String) (jitter : Rat)
  /-- The delay is over. -/
  | elapsed
  | cancelled

/-- Where a worker stands; attempts that failed are counted in 32 bits. -/
inductive WorkerState where
  | connecting (failures : UInt32)
  /-- The next attempt comes when the delay is over. -/
  | waiting (failures : UInt32) (delay : Rat)
  | stopped
  | faulted (fault : Fault)
deriving DecidableEq

namespace Worker

/-- The fields that every event of a worker has. -/
def fields (w : Worker) : List (String × Log.Datum) :=
  [("provider", .text w.provider.name), ("connection", .count w.connection)]

/-- An attempt to connect begins. -/
def connectingEvent (w : Worker) (attempt : Nat) : Log.Event :=
  ⟨.info, "Connecting to websocket: " ++ w.url, w.fields ++ [("attempt", .count attempt)]⟩

/-- An attempt to connect has failed. -/
def failedEvent (w : Worker) (reason : String) : Log.Event :=
  ⟨.warn, "Failed to connect websocket", w.fields ++ [("error", .text reason)]⟩

/-- The delay before an attempt in whole milliseconds, as far as 64 bits hold them. -/
def delayMillis (w : Worker) (attempt : Nat) (jitter : Rat) : Nat :=
  (w.reconnect.delay attempt jitter).floor.toNat % UInt64.size

/-- The next attempt is scheduled. -/
def scheduledEvent (w : Worker) (attempt : Nat) (jitter : Rat) : Log.Event :=
  ⟨.warn, "Websocket reconnect scheduled",
    w.fields ++
      [("attempt", .count attempt), ("delay_ms", .count (w.delayMillis attempt jitter))]⟩

/-- The worker has stopped. -/
def stoppedEvent (w : Worker) : Log.Event :=
  ⟨.info, "Websocket connection stopped", w.fields⟩

/-- One more failure; at the end of 32 bits the count stays where it is. -/
def countFailure (failures : UInt32) : UInt32 :=
  if failures.toNat + 1 < UInt32.size then failures + 1 else failures

/-- Begins an attempt. Its number has to fit into 32 bits. -/
def connect (w : Worker) (failures : UInt32) : WorkerState × Log.Events :=
  if failures.toNat + 1 < UInt32.size then
    (.connecting failures, [w.connectingEvent (failures.toNat + 1)])
  else (.faulted .sum, [])

/-- Begins the first attempt. -/
def start (w : Worker) : WorkerState × Log.Events := w.connect 0

/-- Stops the worker. -/
def stop (w : Worker) : WorkerState × Log.Events := (.stopped, [w.stoppedEvent])

/-- What a signal does; one that cannot come in a state does nothing. -/
def step (w : Worker) : WorkerState → Signal → WorkerState × Log.Events
  | .connecting failures, .failed reason jitter =>
    let failures := countFailure failures
    (.waiting failures (w.reconnect.delay failures.toNat jitter),
      [w.failedEvent reason, w.scheduledEvent failures.toNat jitter])
  | .connecting _, .cancelled => w.stop
  | .waiting failures _, .elapsed => w.connect failures
  | .waiting _ _, .cancelled => w.stop
  | state, _ => (state, [])

/-- What signals do from a state on. -/
def runFrom (w : Worker) : WorkerState → List Signal → WorkerState × Log.Events
  | state, [] => (state, [])
  | state, signal :: rest =>
    let (next, events) := w.step state signal
    let (last, more) := w.runFrom next rest
    (last, events ++ more)

/-- What signals do to a new worker. -/
def run (w : Worker) (signals : List Signal) : WorkerState × Log.Events :=
  let (state, events) := w.start
  let (last, more) := w.runFrom state signals
  (last, events ++ more)

/-- Failed attempts one after the other, each but the last with the delay after it. -/
def failures (reason : String) (jitter : Rat) : Nat → List Signal
  | 0 => []
  | 1 => [.failed reason jitter]
  | n + 2 => .failed reason jitter :: .elapsed :: failures reason jitter (n + 1)

end Worker

end MarketFeed
