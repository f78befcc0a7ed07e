import MarketFeed.Config.Layers

/-!
# Environment variables

Variables whose names begin with `PRICE_FEEDER__`, in any letter case, are settings; two underscores
separate the names on the way to a setting. A file may assign variables line by line, but never
replaces one that is there.

* `Environment.layer`: the settings among the variables.
* `Environment.extend`: the variables together with those that a file assigns.
-/

namespace MarketFeed

/-- The values of variables. -/
abbrev Environment := Table String

namespace Environment

/-! ## Settings -/

/-- How the names of settings begin, in lower case. -/
def settingStart : List Char := "price_feeder__".toList

/-- A name with points in place of double underscores. -/
def pointed : List Char → List Char
  | '_' :: '_' :: rest => '.' :: pointed rest
  | c :: rest => c :: pointed rest
  | [] => []

/-- The name of the setting that a variable holds. -/
def settingName? (variable_ : String) : Option String :=
  let lowered := variable_.toList.map Text.lowerAscii
  if settingStart.isPrefixOf lowered then
    some (String.ofList (pointed (lowered.drop settingStart.length)))
  else none

/-- The settings among the variables. -/
def layer (env : Environment) : Config.Layer :=
  env.entries.filterMap fun (name, value) =>
    (settingName? name).map fun setting => (setting, .text value)

/-! ## Lines of a file

A line holds a comment or an assignment. Quotes keep blanks together, and within them an assignment
may run over several lines. -/

/-- Where a reader of lines stands. -/
inductive LineState where
  | plain
  /-- After a blank: here a comment may start. -/
  | gap
  | escape
  | single
  | singleEscape
  | double
  | doubleEscape
deriving DecidableEq

/-- The state after a character. -/
def LineState.next (s : LineState) (c : Char) : LineState :=
  match s with
  | .plain =>
    if Text.isBlank c ∧ c ≠ '\n' ∧ c ≠ '\r' then .gap
    else if c = '\\' then .escape
    else if c = '"' then .double
    else if c = '\'' then .single
    else .plain
  | .gap =>
    if c = '\\' then .escape
    else if c = '"' then .double
    else if c = '\'' then .single
    else .plain
  | .escape => .plain
  | .single => if c = '\\' then .singleEscape else if c = '\'' then .plain else .single
  | .singleEscape => .single
  | .double => if c = '\\' then .doubleEscape else if c = '"' then .plain else .double
  | .doubleEscape => .double

/-- The state at the end of a line, and the characters of the line before a comment. -/
def scanLine : LineState → List Char → List Char × Option LineState
  | s, [] => ([], some s)
  | s, c :: rest =>
    if s = .gap ∧ c = '#' then ([], none)
    else
      let (kept, last) := scanLine (s.next c) rest
      (c :: kept, last)

/-- The lines of a text, each with its line end. -/
def linesOf : List Char → List (List Char)
  | [] => []
  | c :: rest =>
    if c = '\n' then [c] :: linesOf rest
    else match linesOf rest with
      | [] => [[c]]
      | line :: more => (c :: line) :: more

/-- A line without its line end. -/
def withoutEnd (line : List Char) : List Char :=
  match line.reverse with
  | '\n' :: '\r' :: rest => rest.reverse
  | '\n' :: rest => rest.reverse
  | _ => line

/-- Does a line hold nothing but a comment? -/
def isComment (line : List Char) : Bool := (line.dropWhile Text.isBlank).head? = some '#'

/-- Joins the lines that belong together; `acc` is the beginning of such a line. Nothing stands for
a beginning without an end. -/
def joinLines : LineState → List Char → List (List Char) → List (Option (List Char))
  | s, _, [] => if s = .plain then [] else [none]
  | s, acc, line :: more =>
    if isComment (acc ++ line) then some [] :: joinLines .plain [] more
    else match scanLine s line with
      | (kept, none) => some (acc ++ kept) :: joinLines .plain [] more
      | (_, some .plain) => some (withoutEnd (acc ++ line)) :: joinLines .plain [] more
      | (_, some s) => joinLines s (acc ++ line) more

/-! ## Assignments -/

/-- What a reader of a value takes a character for. -/
inductive ValueState where
  | plain
  | escape (inDouble : Bool)
  | single
  | double
  /-- After a dollar sign: the name of a variable, in reverse. -/
  | name (inDouble : Bool) (letters : List Char)
  /-- The same between braces. -/
  | braced (inDouble : Bool) (letters : List Char)
  /-- After the value. -/
  | done
deriving DecidableEq

/-- May a character stand in the name of a variable without braces? Beyond ASCII any may. -/
def isNameChar (c : Char) : Bool := c.isAlphanum || 0x80 ≤ c.toNat

/-- The value of the variable whose letters are given in reverse; an unknown one is empty. -/
def valueOfName (env : Environment) (letters : List Char) : List Char :=
  ((env.get? (String.ofList letters.reverse)).getD "").toList

/-- The state between the characters of a value. -/
def between (inDouble : Bool) : ValueState := if inDouble then .double else .plain

/-- The character that an escape stands for. -/
def escapedChar? (c : Char) : Option Char :=
  if c = 'n' then some '\n'
  else if c = '\\' ∨ c = '\'' ∨ c = '"' ∨ c = '$' ∨ c = ' ' then some c
  else none

/-- Reads a value. Whether it is complete depends on where its text ends. -/
def readValue (env : Environment) : ValueState → List Char → Option (List Char)
  | .plain, [] => some []
  | .done, [] => some []
  | .escape inDouble, [] => if inDouble then none else some []
  | .name false letters, [] => some (valueOfName env letters)
  | _, [] => none
  | .done, c :: rest =>
    if c = ' ' ∨ c = '\t' then readValue env .done rest
    else if c = '#' then some []
    else none
  | .escape inDouble, c :: rest => do
    some ((← escapedChar? c) :: (← readValue env (between inDouble) rest))
  | .single, c :: rest =>
    if c = '\'' then readValue env .plain rest
    else do some (c :: (← readValue env .single rest))
  | .name inDouble letters, c :: rest =>
    if isNameChar c then readValue env (.name inDouble (c :: letters)) rest
    else if c = '\x7b' ∧ letters.isEmpty then readValue env (.braced inDouble []) rest
    else do
      let value := valueOfName env letters
      if c = '$' then some (value ++ (← readValue env (.name inDouble []) rest))
      else some (value ++ c :: (← readValue env (between inDouble) rest))
  | .braced inDouble letters, c :: rest =>
    if c = '\x7d' then do
      some (valueOfName env letters ++ (← readValue env (between inDouble) rest))
    else readValue env (.braced inDouble (c :: letters)) rest
  | .double, c :: rest =>
    if c = '$' then readValue env (.name true []) rest
    else if c = '"' then readValue env .plain rest
    else if c = '\\' then readValue env (.escape true) rest
    else do some (c :: (← readValue env .double rest))
  | .plain, c :: rest =>
    if c = '$' then readValue env (.name false []) rest
    else if c = '\'' then readValue env .single rest
    else if c = '"' then readValue env .double rest
    else if c = '\\' then readValue env (.escape false) rest
    else if c = ' ' ∨ c = '\t' then readValue env .done rest
    else do some (c :: (← readValue env .plain rest))

/-- Reads the name of a variable. -/
def readName (cs : List Char) : Option (String × List Char) :=
  let isMember (c : Char) : Bool := c.isAlphanum || c = '_' || c = '.'
  match cs with
  | [] => none
  | c :: _ =>
    if c.isAlpha || c = '_' then
      some (String.ofList (cs.takeWhile isMember), cs.dropWhile isMember)
    else none

/-- The characters after leading blanks. -/
def skipBlanks (cs : List Char) : List Char := cs.dropWhile Text.isBlank

/-- Passes over the sign between a name and its value. -/
def equalSign? : List Char → Option (List Char)
  | '=' :: rest => some rest
  | _ => none

/-- Reads the name before a value and the sign after it. The word `export` may stand in front. -/
def readTarget (cs : List Char) : Option (String × List Char) := do
  let (name, rest) ← readName cs
  match name, equalSign? (skipBlanks rest) with
  | name, some rest => some (name, rest)
  | "export", none => do
    let (name, rest) ← readName (skipBlanks rest)
    some (name, ← equalSign? (skipBlanks rest))
  | _, none => none

/-- Is there nothing on the rest of a line? -/
def isOver (cs : List Char) : Bool := cs.head?.all (· = '#')

/-- The assignment of a line: refused, none, or a name and its value. -/
def readAssignment (env : Environment) (line : List Char) :
    Option (Option (String × String)) :=
  let cs := Text.trimChars line
  if isOver cs then some none
  else do
    let (name, rest) ← readTarget cs
    let rest := skipBlanks rest
    if isOver rest then some (some (name, ""))
    else do
      let value ← readValue env .plain rest
      some (some (name, String.ofList value))

/-- Makes the assignments of lines up to the first line that is refused. -/
def assignLines (env : Environment) : List (Option (List Char)) → Environment
  | [] => env
  | none :: _ => env
  | some line :: more =>
    match readAssignment env line with
    | none => env
    | some none => assignLines env more
    | some (some (name, value)) =>
      assignLines (if env.has name then env else env.put name value) more

/-- The variables together with those that a text assigns. -/
def extend (env : Environment) (text : String) : Environment :=
  assignLines env (joinLines .plain [] (linesOf (Toml.withoutMark text.toList)))

end Environment

end MarketFeed
