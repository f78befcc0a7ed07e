import MarketFeed.Log.Event
import MarketFeed.Text.Blank

/-!
# Log filters

Which events are written. A filter is a list of directives between commas: a level for all events,
or a target with a level for the events of the targets that begin with it. Of the directives that
speak about an event the one with the longest target decides.

* `Filter.ofText?`: the filter that a text spells.
* `Filter.enabled`: is an event of some target and level written?
-/

namespace MarketFeed.Log

/-- How much is written: a number from 0 (nothing) to 5 (everything). -/
structure Verbosity where
  rank : Nat
deriving DecidableEq

namespace Verbosity

/-- Nothing is written. -/
def off : Verbosity := ⟨0⟩

/-- Everything is written. -/
def trace : Verbosity := ⟨5⟩

/-- The names, from 0 on. -/
def names : List String := ["off", "error", "warn", "info", "debug", "trace"]

/-- A letter in lower case. -/
def lowered (c : Char) : Char := if 'A' ≤ c ∧ c ≤ 'Z' then Char.ofNat (c.toNat + 32) else c

/-- The number that digits spell, possibly after a plus sign. -/
def number? (cs : List Char) : Option Nat :=
  let digits := match cs with
    | '+' :: rest => rest
    | cs => cs
  if digits.isEmpty || !digits.all Char.isDigit then none
  else some (digits.foldl (fun n c => 10 * n + (c.toNat - 48)) 0)

/-- The verbosity of a number or a name in any letter case. -/
def ofText? (cs : List Char) : Option Verbosity :=
  match number? cs with
  | some n => if n ≤ 5 then some ⟨n⟩ else none
  | none => (names.findIdx? fun name => cs.map lowered = name.toList).map Verbosity.mk

end Verbosity

/-- The verbosity that an event needs to be written. -/
def Level.rank : Level → Nat
  | .error => 1
  | .warn => 2
  | .info => 3
  | .debug => 4

/-- What is written of the targets that begin in some way. -/
structure Directive where
  /-- How the targets begin; nothing stands for all targets. -/
  target : Option (List Char)
  verbosity : Verbosity
deriving DecidableEq

namespace Directive

/-- May a directive begin with this character? Beyond ASCII any may. -/
def isStart (c : Char) : Bool :=
  c.isAlphanum || c = '-' || c = ':' || c = '_' || 0x80 ≤ c.toNat

/-- The level after a sign; a sign alone has everything written. -/
def levelOf? (cs : List Char) : Option Verbosity :=
  if cs.isEmpty then some .trace else Verbosity.ofText? cs

/-- A target and a level, or one of the two alone. A target alone has everything written. The place
of the sign is counted without the blanks at the front, the parts are taken with them. -/
def ofText? (cs : List Char) : Option Directive :=
  let trimmed := Text.trimChars cs
  if !trimmed.head?.any isStart then none
  else match trimmed.dropWhile (· ≠ '=') with
    | [] =>
      match Verbosity.ofText? cs with
      | some v => some ⟨none, v⟩
      | none => some ⟨some cs, .trace⟩
    | _ =>
      let place := (trimmed.takeWhile (· ≠ '=')).length
      (levelOf? (cs.drop (place + 1))).map fun v => ⟨some (cs.take place), v⟩

/-- Is this a well-formed directive about spans? Such a directive has a name in brackets, and says
nothing about events. -/
def isAboutSpans (cs : List Char) : Bool :=
  match (cs.dropWhile (· ≠ '[')).dropWhile (· ≠ ']') with
  | [_] => true
  | _ :: '=' :: level => (levelOf? level).isSome
  | _ => false

/-- Does a directive speak about a target? -/
def covers (d : Directive) (target : String) : Bool :=
  match d.target with
  | none => true
  | some start => start.isPrefixOf target.toList

/-- The length of a target; no target is shorter than every target. -/
def weight (d : Directive) : Nat :=
  match d.target with
  | none => 0
  | some start => start.length + 1

end Directive

/-- A list of directives; of several for one target the last one counts. -/
abbrev Filter := List Directive

namespace Filter

/-- The parts of a text between commas. -/
def parts : List Char → List (List Char)
  | [] => [[]]
  | c :: rest =>
    match parts rest with
    | [] => [[c]]
    | part :: more => if c = ',' then [] :: part :: more else (c :: part) :: more

/-- The filter that a text spells; without directives nothing is written. -/
def ofText? (text : String) : Option Filter := do
  let given := (parts text.toList).filter fun part => !part.isEmpty
  let directives ← (given.filter fun part => !Directive.isAboutSpans part).mapM Directive.ofText?
  some (if directives.isEmpty then [⟨none, .off⟩] else directives)

/-- The filter that writes events from `info` on. -/
def default : Filter := [⟨none, ⟨3⟩⟩]

/-- The directive that decides about a target: the longest, and of equally long ones the last. -/
def deciding? (f : Filter) (target : String) : Option Directive :=
  (f.filter fun d => d.covers target).foldl (fun best d =>
    match best with
    | some b => if b.weight ≤ d.weight then some d else some b
    | none => some d) none

/-- Is an event written? -/
def enabled (f : Filter) (target : String) (level : Level) : Bool :=
  match f.deciding? target with
  | some d => level.rank ≤ d.verbosity.rank
  | none => false

end Filter

end MarketFeed.Log
