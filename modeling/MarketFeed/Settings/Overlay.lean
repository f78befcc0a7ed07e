import MarketFeed.Fault
import MarketFeed.Settings.Basic
import MarketFeed.Table

/-!
# Settings in layers

Later sources take precedence over earlier ones, name by name. Tables are merged, everything else
takes the place of what was there, a list as a whole. Names do not depend on letter case: they are
kept in lower case. At the top of a source a name may be a path into the tables below.

* `Setting.put`: sets one name of a table.
* `SettingPath.ofText?`: the path that a name spells, such as `connection.reconnect.mode`.
* `Setting.overlay`: a source on top of the earlier ones.
* `Setting.overlay?`: the same, unless a name of the source counts back beyond the front of a list.
-/

namespace MarketFeed

/-- A name in lower case. The names that have a meaning are ASCII, so other letters may stay. -/
def loweredName (name : String) : String := String.ofList (name.toList.map Text.lowerAscii)

mutual

/-- Sets a name of a table. A setting that is no table becomes one. -/
def Setting.put (root : Setting) (name : String) : Setting → Setting
  | .table incoming =>
    let target := (root.entries.lookup (loweredName name)).getD (.table [])
    .table (Table.putEntry (loweredName name) (target.putAll incoming) root.entries)
  | value => .table (Table.putEntry (loweredName name) value root.entries)

/-- Sets names one after the other. -/
def Setting.putAll (root : Setting) : List (String × Setting) → Setting
  | [] => root
  | (name, value) :: rest => (root.put name value).putAll rest

end

/-! ## Paths -/

/-- One step from a setting to a part of it. -/
inductive SettingStep where
  | member (name : String)
  /-- An item of a list; below 0 it counts from the end. -/
  | item (index : Int)
deriving DecidableEq

/-- A way from the top table to a setting. -/
structure SettingPath where
  name : String
  steps : List SettingStep
deriving DecidableEq

namespace SettingPath

/-- May a character stand in a name of a path? -/
def isNameChar (c : Char) : Bool := c.isAlphanum || c = ' ' || c = '_' || c = '-'

/-- The name at the front of a path, and the rest. -/
def splitName (cs : List Char) : Option (String × List Char) :=
  let name := cs.takeWhile isNameChar
  if name.isEmpty then none else some (String.ofList name, cs.dropWhile isNameChar)

/-- The integer that digits spell. -/
def integer? (cs : List Char) : Option Int :=
  let value (digits : List Char) : Option Nat :=
    if digits.isEmpty || !digits.all Char.isDigit then none
    else some (digits.foldl (fun n c => 10 * n + (c.toNat - 48)) 0)
  match cs with
  | '-' :: digits => (value digits).map fun n => -(n : Int)
  | digits => (value digits).map fun n => (n : Int)

/-- The steps after the name; every step takes a character at least. -/
def readSteps : Nat → List Char → Option (List SettingStep)
  | _, [] => some []
  | 0, _ => none
  | fuel + 1, c :: cs =>
    if c = '.' then do
      let (name, rest) ← splitName cs
      some (.member name :: (← readSteps fuel rest))
    else if c = '[' then do
      let isGap (c : Char) : Bool := c = ' ' || c = '\t'
      match cs.dropWhile (· ≠ ']') with
      | [] => none
      | _ :: rest =>
        let index ← integer? (Text.trimmedOf isGap (cs.takeWhile (· ≠ ']')))
        some (.item index :: (← readSteps fuel rest))
    else none

/-- The path that a text spells. -/
def ofText? (s : String) : Option SettingPath := do
  let (name, rest) ← splitName s.toList
  some ⟨name, ← readSteps rest.length rest⟩

end SettingPath

namespace Setting

/-- The place of an item in a list of some length. An index that counts back beyond the front has
none; see `Setting.overlay?`. -/
def placeOf (index : Int) (length : Nat) : Nat :=
  if 0 ≤ index then index.toNat else length - index.natAbs

/-- Changes an item of a list, which is made long enough. -/
def modifyItem (index : Int) (change : Setting → Setting) (s : Setting) : Setting :=
  let place := placeOf index s.items.length
  let padded := s.items ++ List.replicate (place + 1 - s.items.length) .null
  .list (padded.modify place change)

/-- Changes the setting at the end of some steps, making tables and lists on the way. -/
def modifyAt (change : Setting → Setting) : List SettingStep → Setting → Setting
  | [], s => change s
  | .member name :: steps, s =>
    let inner := (s.entries.lookup (loweredName name)).getD .null
    .table (Table.putEntry (loweredName name) (modifyAt change steps inner) s.entries)
  | .item index :: steps, s => s.modifyItem index (modifyAt change steps)

/-- Sets what one step leads to. -/
def putStep (value : Setting) : SettingStep → Setting → Setting
  | .member name, s => s.put name value
  | .item index, s => s.modifyItem index fun _ => value

/-- Sets what a path leads to. -/
def set (root : Setting) (path : SettingPath) (value : Setting) : Setting :=
  match path.steps.getLast? with
  | none => root.put path.name value
  | some last =>
    modifyAt (putStep value last) (.member path.name :: path.steps.dropLast) root

/-- Sets what a name at the top of a source stands for: a path, or else the name itself. -/
def setNamed (root : Setting) (name : String) (value : Setting) : Setting :=
  match SettingPath.ofText? name with
  | some path => root.set path value
  | none => root.put name value

/-- Puts a source on top of what is there. -/
def overlay (root : Setting) (source : List (String × Setting)) : Setting :=
  source.foldl (fun s (name, value) => s.setNamed name value) root

/-! ## Indices beyond the front -/

/-- Does one of some steps count back beyond the front of its list? What is not there is `null`, and
what is no list has no items. -/
def passesFront : List SettingStep → Setting → Bool
  | [], _ => false
  | .member name :: steps, s =>
    passesFront steps ((s.entries.lookup (loweredName name)).getD .null)
  | .item index :: steps, s =>
    decide (index + s.items.length < 0) ||
      passesFront steps (s.items[placeOf index s.items.length]?.getD .null)

/-- Sets what a name at the top of a source stands for. The place of an item is a difference of
machine integers. -/
def setNamed? (root : Setting) (name : String) (value : Setting) : Except Fault Setting :=
  match SettingPath.ofText? name with
  | some path =>
    if passesFront (.member path.name :: path.steps) root then .error .difference
    else .ok (root.set path value)
  | none => .ok (root.put name value)

theorem setNamed_of_setNamed? {root s : Setting} {name : String} {value : Setting}
    (h : root.setNamed? name value = .ok s) : root.setNamed name value = s := by
  unfold setNamed? at h
  unfold setNamed
  split at h
  · split at h
    · cases h
    · exact Except.ok.inj h
  · exact Except.ok.inj h

/-- Puts a source on top of what is there, unless a name of it counts back beyond the front of a
list. -/
def overlay? (root : Setting) : List (String × Setting) → Except Fault Setting
  | [] => .ok root
  | (name, value) :: rest => do (← root.setNamed? name value).overlay? rest

/-- Where a source can be put on top, this is what it makes of the settings. -/
theorem overlay_of_overlay? {root s : Setting} {source : List (String × Setting)}
    (h : root.overlay? source = .ok s) : root.overlay source = s := by
  induction source generalizing root with
  | nil => exact Except.ok.inj h
  | cons e source ih =>
    obtain ⟨next, hnext, hrest⟩ := bind_eq_ok.mp h
    have hset := setNamed_of_setNamed? hnext
    exact (congrArg (·.overlay source) hset).trans (ih hrest)

end Setting

end MarketFeed
