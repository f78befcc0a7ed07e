import MarketFeed.Fault

/-!
# Reconnecting

How long a connection waits before it tries again. A growing delay doubles from attempt to attempt
up to a maximum and is then stretched or shortened by a random factor between 4/5 and 6/5.

* `ReconnectPolicy.delay`: the delay before an attempt.
* `ReconnectPolicy.computed?`: a growing delay as it is computed, with words and times that are
  bounded.
-/

namespace MarketFeed

/-- The delay between attempts to connect, in milliseconds. -/
inductive ReconnectPolicy where
  /-- Try again at once. -/
  | immediate
  /-- Always wait the same time. -/
  | fixed (delay : Nat)
  /-- Wait twice as long each time, from `base` up to `max`. -/
  | backoff (base max : Nat)
deriving DecidableEq

namespace ReconnectPolicy

/-- From one second up to one minute. -/
def default : ReconnectPolicy := .backoff 1000 60000

/-- How often the delay has doubled before an attempt; attempts count from 1. -/
def doublings (attempt : Nat) : Nat := min (attempt - 1) 16

/-- A growing delay before the random factor. -/
def nominal (base max attempt : Nat) : Nat := min (base * Nat.pow 2 (doublings attempt)) max

/-- The delay before an attempt, where `jitter` is the random factor. -/
def delay (p : ReconnectPolicy) (attempt : Nat) (jitter : Rat) : Rat :=
  match p with
  | .immediate => 0
  | .fixed d => d
  | .backoff base max =>
    let stretched := nominal base max attempt * jitter
    if stretched ≤ max then stretched else max

/-! ## The computation -/

/-- Times are counted in nanoseconds; the seconds of a time fit into 64 bits. -/
def timeBound : Nat := UInt64.size * Nat.pow 10 9

/-- A time of some milliseconds. -/
def timeOfMillis (millis : UInt64) : Nat := millis.toNat * Nat.pow 10 6

/-- The attempts before one; the subtraction stops at zero. -/
def attemptsBefore (attempt : UInt32) : UInt32 := if attempt = 0 then 0 else attempt - 1

/-- How often the delay has doubled before an attempt. -/
def wordDoublings (attempt : UInt32) : UInt32 :=
  if attemptsBefore attempt ≤ 16 then attemptsBefore attempt else 16

/-- A power of two, if it is shifted by fewer bits than a word has. -/
def powerOfTwo? (exponent : UInt32) : Option UInt32 :=
  if exponent < 32 then some (1 <<< exponent) else none

/-- A multiple of a time; it stops at the longest time. -/
def saturatingMultiple (time : Nat) (factor : UInt32) : Nat :=
  min (time * factor.toNat) (timeBound - 1)

/-- A time that is stretched by a factor, if it is one. -/
def stretch? (time : Nat) (factor : Rat) : Option Rat :=
  let stretched := time * factor
  if 0 ≤ stretched ∧ stretched < timeBound then some stretched else none

/-- The delay before an attempt in nanoseconds, from the base and the maximum in milliseconds. -/
def computed? (base max : UInt64) (attempt : UInt32) (jitter : Rat) : Option Rat := do
  let factor ← powerOfTwo? (wordDoublings attempt)
  let bounded := min (saturatingMultiple (timeOfMillis base) factor) (timeOfMillis max)
  let stretched ← stretch? bounded jitter
  some (if stretched ≤ timeOfMillis max then stretched else timeOfMillis max)

end ReconnectPolicy

/-- How a connection is kept alive; times are in milliseconds. -/
structure ConnectionSettings where
  ping : Nat
  /-- Reconnect after this long without any sign of life. -/
  stall : Nat
  reconnect : ReconnectPolicy
deriving DecidableEq

/-- A ping every 15 seconds. -/
def ConnectionSettings.default : ConnectionSettings := ⟨15000, 30000, .default⟩

end MarketFeed
