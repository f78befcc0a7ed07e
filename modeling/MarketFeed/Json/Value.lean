/-!
# JSON values

Numbers keep the difference between integers of 64 bits and all others, which are binary64.
The entries of an object are in the order of their keys, each key once.
-/

namespace MarketFeed.Json

/-- A JSON number. -/
inductive Number where
  /-- An integer from 0 below `2 ^ 64`. -/
  | natural (n : Nat)
  /-- An integer below 0, at least `-2 ^ 63`. -/
  | negative (i : Int)
  /-- Any other number, as a binary64 pattern. -/
  | float (bits : UInt64)
deriving DecidableEq, Inhabited

/-- A JSON value. -/
inductive Value where
  | null
  | bool (b : Bool)
  | number (n : Number)
  | string (s : String)
  | array (items : List Value)
  | object (entries : List (String × Value))
deriving Inhabited

/-- Puts an entry into its place among sorted entries; an entry of the same key is replaced. -/
def insertEntry {α : Type} (key : String) (value : α) :
    List (String × α) → List (String × α)
  | [] => [(key, value)]
  | (k, v) :: rest =>
    if key = k then (key, value) :: rest
    else if key < k then (key, value) :: (k, v) :: rest
    else (k, v) :: insertEntry key value rest

/-- The entries in the order of their keys; of equal keys the last one stays. -/
def sortEntries {α : Type} (entries : List (String × α)) : List (String × α) :=
  entries.foldl (fun sorted (k, v) => insertEntry k v sorted) []

/-- The object of some entries. -/
def Value.ofEntries (entries : List (String × Value)) : Value := .object (sortEntries entries)

/-- The value under a key of an object. -/
def Value.get? (v : Value) (key : String) : Option Value :=
  match v with
  | .object entries => entries.lookup key
  | _ => none

/-- The number of an integer. -/
def Number.ofInt (i : Int) : Number := if i < 0 then .negative i else .natural i.toNat

/-- The value of a natural number. -/
def Value.nat (n : Nat) : Value := .number (.natural n)

/-- The value of an integer. -/
def Value.int (i : Int) : Value := .number (.ofInt i)

end MarketFeed.Json
