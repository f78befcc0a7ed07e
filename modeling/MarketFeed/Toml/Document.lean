import MarketFeed.Settings.Basic
import MarketFeed.Table

/-!
# The tables of a TOML document

Headers and keys with several parts define tables piece by piece. What may be defined where depends
on how a table came to be, so this is kept until the document is complete.

* `Document.header?`, `Document.elementHeader?`: a table header, and one for an element of a list.
* `Document.assign?`: a key with its value below the latest header.
* `Document.settings`: the finished tables.

A key is never given twice, a table has at most one header, and a table that keys with several
parts have made has none.
-/

namespace MarketFeed.Toml

/-- How a table came to be. -/
inductive Origin where
  /-- By a header of its own. -/
  | declared
  /-- By the header of a table below it. -/
  | implied
  /-- By a key with several parts. -/
  | dotted
deriving DecidableEq

/-- What a name stands for in an unfinished document. -/
inductive Node where
  | value (s : Setting)
  | table (origin : Origin) (entries : List (String × Node))
  /-- A list of tables, the latest one first. -/
  | tables (elements : List (List (String × Node)))
deriving Inhabited

/-- The names of an unfinished table. -/
abbrev Nodes := List (String × Node)

/-- Follows a path and changes the table at its end. Tables on the way that are not there yet are
made; the latest element of a list stands for the list. Keys with several parts do not lead into
tables that have a header. -/
def descend (made : Origin) (change : Origin → Nodes → Option Nodes) :
    List String → Origin → Nodes → Option Nodes
  | [], origin, nodes => change origin nodes
  | key :: path, _, nodes =>
    match (nodes.lookup key).getD (.table made []) with
    | .value _ => none
    | .tables [] => none
    | .tables (latest :: earlier) => do
      let changed ← descend made change path .declared latest
      some (Table.putEntry key (.tables (changed :: earlier)) nodes)
    | .table origin inner =>
      if made = .dotted ∧ origin = .declared then none
      else do
        let changed ← descend made change path origin inner
        some (Table.putEntry key (.table origin changed) nodes)

/-- Adds a value under a key with its leading parts; those before the last one lead to a table
that such keys have made. -/
def addValue (path : List String) (last : String) (value : Setting) (origin : Origin)
    (nodes : Nodes) : Option Nodes :=
  descend .dotted (fun origin nodes =>
    if decide (origin = .dotted) = path.isEmpty then none
    else if (nodes.lookup last).isSome then none
    else some (Table.putEntry last (.value value) nodes)) path origin nodes

/-- An unfinished document, and the header below which keys are read. -/
structure Document where
  nodes : Nodes
  current : List String

namespace Document

/-- The document without anything. -/
def empty : Document := ⟨[], []⟩

/-- A header of a table. -/
def header? (d : Document) (key : List String) : Option Document := do
  let last ← key.getLast?
  let nodes ← descend .implied (fun _ nodes =>
    match nodes.lookup last with
    | none => some (Table.putEntry last (.table .declared []) nodes)
    | some (.table .implied inner) => some (Table.putEntry last (.table .declared inner) nodes)
    | some _ => none) key.dropLast .declared d.nodes
  some ⟨nodes, key⟩

/-- A header of a further element of a list of tables. -/
def elementHeader? (d : Document) (key : List String) : Option Document := do
  let last ← key.getLast?
  let nodes ← descend .implied (fun _ nodes =>
    match nodes.lookup last with
    | none => some (Table.putEntry last (.tables [[]]) nodes)
    | some (.tables elements) => some (Table.putEntry last (.tables ([] :: elements)) nodes)
    | some _ => none) key.dropLast .declared d.nodes
  some ⟨nodes, key⟩

/-- A key with a value. -/
def assign? (d : Document) (key : List String) (value : Setting) : Option Document := do
  let last ← key.getLast?
  let nodes ← descend .implied (addValue key.dropLast last value) d.current .declared d.nodes
  some { d with nodes := nodes }

end Document

mutual

/-- The setting of a finished node. -/
def Node.setting : Node → Setting
  | .value s => s
  | .table _ entries => .table (settingsOfNodes entries)
  | .tables elements => .list (settingsOfElements elements).reverse

/-- The settings of named nodes. -/
def settingsOfNodes : List (String × Node) → List (String × Setting)
  | [] => []
  | (name, node) :: rest => (name, node.setting) :: settingsOfNodes rest

/-- The settings of the elements of a list of tables. -/
def settingsOfElements : List (List (String × Node)) → List Setting
  | [] => []
  | element :: rest => .table (settingsOfNodes element) :: settingsOfElements rest

end

/-- The tables of a finished document. -/
def Document.settings (d : Document) : List (String × Setting) := settingsOfNodes d.nodes

end MarketFeed.Toml
