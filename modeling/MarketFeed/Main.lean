import MarketFeed.Service

/-!
# The command line

Reads the configuration files and the environment, starts the service and prints what it has
logged. No listing can be fetched from here, so every provider is refused.
-/

open MarketFeed

/-- The content of a file, if it can be read. -/
def readIfPresent (path : String) : IO (Option (String × String)) := do
  try
    let text ← IO.FS.readFile path
    return some (path, text)
  catch _ => return none

/-- The environment of this process: assignments that end in zero octets. -/
def readEnvironment : IO Environment := do
  try
    let octets ← IO.FS.readBinFile "/proc/self/environ"
    let assignments := (octets.toList.splitOn 0).filterMap fun part => do
      let text ← Text.decode? part
      let name := text.takeWhile (· ≠ '=')
      some (String.ofList name, String.ofList (text.drop (name.length + 1)))
    return ⟨assignments⟩
  catch _ => return .empty

/-- Refuses every request. -/
def refuseRequest (_ : Provider) (e : Endpoint) : Listing :=
  if (Config.pathParts e.rest.toList).length < 3 then
    .withoutUrl
  else .error (.http ("error sending request for url (" ++ e.rest ++ ")"))

/-- Runs the service. -/
def main (args : List String) : IO UInt32 := do
  let env ← readEnvironment
  let found ← (Config.searched args.head?).filterMapM readIfPresent
  let started := Service.start refuseRequest ⟨found⟩ env args
  for record in Service.written env started.events do
    IO.println (Service.logLine env record)
  match started.result with
  | .ok _ => return 0
  | .error e =>
    IO.eprintln (Service.errorLine e)
    return e.exitCode
