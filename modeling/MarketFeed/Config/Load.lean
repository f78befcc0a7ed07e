import MarketFeed.Config.Environment
import MarketFeed.Json.Read

/-!
# Loading configurations

The layers of a configuration, from the lowest to the highest: the defaults, `config/default`,
`config/local`, the environment. A path that is given takes the place of the two files, and then
there has to be such a file. The ending of a file tells its format and may be left out.

* `Config.load`: the configuration of some files, variables and maybe a path.
-/

namespace MarketFeed

/-- The contents of files under their paths. -/
abbrev Files := Table String

namespace Config

/-- The format of a file. Files in YAML, INI, RON or JSON5 are not looked for. -/
inductive Format where
  | toml
  | json
deriving DecidableEq

/-- All formats, in the order in which files are looked for. -/
def Format.all : List Format := [.toml, .json]

/-- The ending of the names of files. -/
def Format.ending : Format → String
  | .toml => "toml"
  | .json => "json"

/-- The settings of a text. -/
def Format.read (f : Format) (text : String) : Option Layer :=
  match f with
  | .toml => Toml.read text
  | .json =>
    match Json.Value.read (Text.encode text) with
    | .ok (.object entries) => some (settingsOfEntries entries)
    | _ => none

/-- The parts of a path between its slashes. -/
def pathParts : List Char → List (List Char)
  | [] => [[]]
  | c :: rest =>
    match pathParts rest with
    | [] => [[c]]
    | part :: parts => if c = '/' then [] :: part :: parts else (c :: part) :: parts

/-- A path without parts that lead nowhere; it is absolute if it starts with a slash. -/
def normalPath (path : String) : String :=
  let cs := path.toList
  let parts := (pathParts cs).filter fun part => part ≠ [] && part ≠ ['.']
  String.ofList ((if cs.head? = some '/' then ['/'] else []) ++ ['/'].intercalate parts)

/-- What follows the last point in the name of a file; a point at its front does not count. -/
def endingOf (path : String) : Option String :=
  let name := ((pathParts path.toList).getLast?).getD []
  match name.reverse.dropWhile (· ≠ '.') with
  | [] => none
  | [_] => none
  | _ => some (String.ofList (name.reverse.takeWhile (· ≠ '.')).reverse)

/-- The text and the format of the file at a path. A file of that very name comes first; its
ending has to be known. -/
def findFile (files : Files) (path : String) : Option (String × Format) :=
  let path := normalPath path
  match files.get? path with
  | some text => do
    let ending ← endingOf path
    let format ← Format.all.find? fun f => f.ending = ending
    some (text, format)
  | none =>
    if path.isEmpty then none
    else Format.all.findSome? fun f =>
      (files.get? (path ++ "." ++ f.ending)).map fun text => (text, f)

/-- Where the file at a path is looked for. -/
def placesOf (path : String) : List String :=
  normalPath path :: Format.all.map fun f => normalPath path ++ "." ++ f.ending

/-- The paths of all files that may matter. -/
def searched : Option String → List String
  | some path => ".env" :: placesOf path
  | none => ".env" :: placesOf "config/default" ++ placesOf "config/local"

/-- The layer of a file that may be missing. -/
def optionalLayer (files : Files) (path : String) : Except ConfigError Layer :=
  match findFile files path with
  | none => .ok []
  | some (text, format) => layerOf (format.read text)

/-- The layer of a file that has to be there. -/
def requiredLayer (files : Files) (path : String) : Except ConfigError Layer :=
  if (findFile files path).isNone then .error .unreadable else optionalLayer files path

/-- The layers of files: of the one at a path, or else of the two usual ones. -/
def fileLayers (files : Files) : Option String → List (Except ConfigError Layer)
  | some path => [requiredLayer files path]
  | none => [optionalLayer files "config/default", optionalLayer files "config/local"]

/-- The variables, with those of the file `.env` added. -/
def fullEnvironment (files : Files) (env : Environment) : Environment :=
  match files.get? ".env" with
  | some text => env.extend text
  | none => env

/-- The configuration of files, variables and maybe a path. -/
def load (files : Files) (env : Environment) (path : Option String) :
    Except ConfigError Config :=
  ofLayers (fileLayers files path ++ [.ok (fullEnvironment files env).layer])

end Config

end MarketFeed
