import MarketFeed.Toml.Document
import MarketFeed.Toml.Scalar
import MarketFeed.Toml.Scan

/-!
# Reading TOML

* `readValue`: a value at the front of a text.
* `read`: the top table of a whole document. A mark of the byte order at its front does not count.
-/

namespace MarketFeed.Toml

/-- How deep lists and tables may nest in a value, plus one. -/
def nestingLimit : Nat := 80

/-- May a character stand in a plain value? -/
def isScalarChar (c : Char) : Bool :=
  !(c = ' ' || c = '\t' || c = '\n' || c = '\r' || c = ',' || c = ']' || c = '\x7d' || c = '#')

/-- The plain value at the front of a text. A date may have a blank before its time of day. -/
def readScalar (input : Input) : Option (Setting × Input) :=
  let token := input.takeWhile isScalarChar
  let rest := input.dropWhile isScalarChar
  match rest with
  | ' ' :: a :: b :: ':' :: more =>
    if (date? token).isSome ∧ token.length = 10 ∧ a.isDigit ∧ b.isDigit then do
      let whole := token ++ ' ' :: a :: b :: ':' :: more.takeWhile isScalarChar
      some (← scalar? whole, more.dropWhile isScalarChar)
    else do some (← scalar? token, rest)
  | _ => do some (← scalar? token, rest)

/-- Reads the items of a list up to its end; `acc` holds them in reverse. -/
def readItems (read : Input → Option (Setting × Input)) :
    Nat → List Setting → Input → Option (Setting × Input)
  | 0, _, _ => none
  | fuel + 1, acc, input => do
    match ← skipLines (input.length + 1) input with
    | ']' :: rest => some (.list acc.reverse, rest)
    | start =>
      let (item, rest) ← read start
      match ← skipLines (rest.length + 1) rest with
      | ',' :: rest => readItems read fuel (item :: acc) rest
      | ']' :: rest => some (.list (item :: acc).reverse, rest)
      | _ => none

/-- Reads a key, the sign after it and a value. -/
def readAssignment (read : Input → Option (Setting × Input)) (input : Input) :
    Option (List String × Setting × Input) := do
  let (key, rest) ← readKey input
  match rest with
  | '=' :: rest => do
    let (value, rest) ← read (skipGap rest)
    some (key, value, rest)
  | _ => none

/-- Reads the entries of a table between braces up to its end. -/
def readEntries (read : Input → Option (Setting × Input)) :
    Nat → Nodes → Input → Option (Setting × Input)
  | 0, _, _ => none
  | fuel + 1, nodes, input => do
    let (key, value, rest) ← readAssignment read input
    let nodes ← addValue key.dropLast (← key.getLast?) value .declared nodes
    match skipGap rest with
    | ',' :: rest => readEntries read fuel nodes rest
    | '\x7d' :: rest => some (.table (settingsOfNodes nodes), rest)
    | _ => none

/-- Reads a value; `depth` counts down from the limit. -/
def readValue : Nat → Input → Option (Setting × Input)
  | 0, _ => none
  | depth + 1, input =>
    match readString input with
    | some read => read.map fun (cs, rest) => (.text (String.ofList cs), rest)
    | none =>
      match input with
      | '[' :: rest => if depth = 0 then none else readItems (readValue depth) input.length [] rest
      | '\x7b' :: rest =>
        if depth = 0 then none
        else match skipGap rest with
          | '\x7d' :: rest => some (.table [], rest)
          | rest => readEntries (readValue depth) input.length [] rest
      | _ => readScalar input

/-- Reads one thing that stands on lines of its own: nothing, a header or a key with its value. -/
def readLine (d : Document) (input : Input) : Option (Document × Input) :=
  match skipGap input with
  | '[' :: '[' :: rest => do
    let (key, rest) ← readKey rest
    match rest with
    | ']' :: ']' :: rest => do some (← d.elementHeader? key, ← finishLine rest)
    | _ => none
  | '[' :: rest => do
    let (key, rest) ← readKey rest
    match rest with
    | ']' :: rest => do some (← d.header? key, ← finishLine rest)
    | _ => none
  | start =>
    match finishLine start with
    | some rest => some (d, rest)
    | none => do
      let (key, value, rest) ← readAssignment (readValue nestingLimit) start
      some (← d.assign? key value, ← finishLine rest)

/-- Reads the lines of a document. -/
def readLines : Nat → Document → Input → Option Document
  | _, d, [] => some d
  | 0, _, _ => none
  | fuel + 1, d, input => do
    let (d, rest) ← readLine d input
    readLines fuel d rest

/-- A text without a mark of the byte order at its front. -/
def withoutMark : Input → Input
  | '\ufeff' :: rest => rest
  | input => input

/-- The top table of a document. -/
def read (text : String) : Option (List (String × Setting)) :=
  let input := withoutMark text.toList
  (readLines input.length .empty input).map Document.settings

end MarketFeed.Toml
