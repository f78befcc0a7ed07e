import MarketFeed.Config.Load
import MarketFeed.Feed.Subscribe
import MarketFeed.Log.Filter
import MarketFeed.Log.Line

/-!
# The service

The service loads its configuration and opens a feed for every provider in it. It stops at once if
the configuration is refused or no feed can be opened.

* `Service.start`: the feeds that are open, or why the service has stopped, and what was logged.
* `Service.written`, `Service.logLine`: which of these events are written, and how.
-/

namespace MarketFeed

/-- Why the service has stopped. -/
inductive ServiceError where
  | config (e : ConfigError)
  | noProvider
  | fault (f : Fault)
deriving DecidableEq

/-- The wording of a reason to stop. -/
def ServiceError.message : ServiceError → String
  | .config e => e.message
  | .noProvider => "No provider could be started"
  | .fault f => f.message

/-- The exit code of a service that has stopped: a fault is told apart from a refusal. -/
def ServiceError.exitCode : ServiceError → UInt32
  | .fault _ => 101
  | _ => 1

/-- What a start gives. -/
structure Started where
  result : Except ServiceError (List Feed)
  events : List Log.Record

namespace Service

/-- An event of the service itself. -/
def own (e : Log.Event) : Log.Record := ⟨"price_feeder", e⟩

/-- An event of a feed. -/
def ofFeed (e : Log.Event) : Log.Record := ⟨"price_feeder::oracle::provider", e⟩

/-- Answers a request for the list of pairs that a provider has at an address. -/
abbrev Fetch := Provider → Endpoint → Listing

/-- The exchange of a provider. -/
def exchangeOf : Provider → Exchange
  | .coinbase => .coinbase
  | .osmosisV2 => .osmosis

/-- The configuration has been loaded. -/
def loadedEvent (c : Config) : Log.Record :=
  own ⟨.info, "Configuration loaded", [("config", .text c.digest)]⟩

/-- A feed could not be opened. -/
def refusedEvent (p : Provider) (e : FeedError) : Log.Record :=
  own ⟨.error, "Failed to create provider",
    [("provider", .text p.name), ("error", .text e.message)]⟩

/-- Opens the feed of a provider. -/
def openFeed (fetch : Fetch) (c : Config) (options : FeedOptions) (p : Provider)
    (pairs : List Pair) : Reply Feed :=
  let exchange := exchangeOf p
  let chosen := c.endpointOverrides.lookup p
  Feed.open? exchange chosen options pairs (fetch p (exchange.resolveEndpoint chosen))

/-- Opens the feeds of providers one after the other. -/
def openFeeds (fetch : Fetch) (c : Config) (options : FeedOptions) :
    List (Provider × List Pair) → List Feed × List Log.Record
  | [] => ([], [])
  | (p, pairs) :: rest =>
    let reply := openFeed fetch c options p pairs
    let (feeds, events) := openFeeds fetch c options rest
    let logged := reply.events.map ofFeed
    match reply.result with
    | .ok feed => (feed :: feeds, logged ++ events)
    | .error e => (feeds, logged ++ refusedEvent p e :: events)

/-- Starts the service with a configuration. -/
def startWith (fetch : Fetch) (c : Config) : Started :=
  match c.options with
  | .error fault => ⟨.error (.fault fault), [loadedEvent c]⟩
  | .ok options =>
    let (feeds, events) := openFeeds fetch c options c.providerPairs
    if feeds.isEmpty then ⟨.error .noProvider, loadedEvent c :: events⟩
    else ⟨.ok feeds, loadedEvent c :: events⟩

/-- Starts the service: the first argument is the path of its configuration. -/
def start (fetch : Fetch) (files : Files) (env : Environment) (args : List String) : Started :=
  match Config.load files env args.head? with
  | .error (.fault fault) => ⟨.error (.fault fault), []⟩
  | .error e => ⟨.error (.config e), []⟩
  | .ok c => startWith fetch c

/-! ## What is written -/

/-- The filter that the environment asks for. -/
def filterOf (env : Environment) : Log.Filter :=
  ((env.get? "RUST_LOG").bind Log.Filter.ofText?).getD .default

/-- Does the environment ask for lines in JSON? -/
def asksForJson (env : Environment) : Bool :=
  match env.get? "PRICE_FEEDER_LOG_JSON" with
  | some v => v = "1" || v.toList.map Log.Verbosity.lowered = "true".toList
  | none => false

/-- The events that are written. -/
def written (env : Environment) (events : List Log.Record) : List Log.Record :=
  events.filter fun r => (filterOf env).enabled r.target r.event.level

/-- The line of an event, as the environment asks for it. -/
def logLine (env : Environment) (r : Log.Record) : String :=
  if asksForJson env then r.toJson.render else r.line

/-- The first line of the error output of a service that has stopped. -/
def errorLine (e : ServiceError) : String :=
  "Error: " ++ String.ofList (e.message.toList.takeWhile (· ≠ '\n'))

end Service

end MarketFeed
