import MarketFeed.Decimal.Shortest
import MarketFeed.Json.Value
import MarketFeed.Text.Blank
import MarketFeed.Text.Case

/-!
# Settings

What configuration sources hold, whatever their format: plain values, lists and tables. A reader of
settings is lenient: where a text is wanted any plain value will do, and a count may be written as
a number, as a text or as a switch.

* `Setting.text?`, `Setting.count?`: the text and the count that a setting stands for.
* `Setting.member?`: a field of a record, which is a table or a list of the fields in order.
-/

namespace MarketFeed

/-- A value of a configuration source. -/
inductive Setting where
  | null
  | bool (b : Bool)
  | int (i : Int)
  /-- A binary64 pattern. -/
  | float (bits : UInt64)
  | text (s : String)
  | list (items : List Setting)
  | table (entries : List (String × Setting))
deriving Inhabited

namespace Setting

/-- The entries of a table; anything else has none. -/
def entries : Setting → List (String × Setting)
  | .table es => es
  | _ => []

/-- The items of a list; anything else has none. -/
def items : Setting → List Setting
  | .list xs => xs
  | _ => []

/-! ## Plain values -/

/-- The text of a plain value. -/
def text? : Setting → Option String
  | .text s => some s
  | .bool b => some (if b then "true" else "false")
  | .int i => some i.repr
  | .float bits => some (String.ofList (Binary.display bits))
  | .null => none
  | .list _ => none
  | .table _ => none

/-- The number of decimal digits, below `2 ^ 64`. -/
def countOfDigits? (digits : List Char) : Option UInt64 :=
  if digits.isEmpty || !digits.all Char.isDigit then none
  else
    let n := digits.foldl (fun n c => 10 * n + (c.toNat - 48)) 0
    if n < UInt64.size then some (UInt64.ofNat n) else none

/-- The words that switch something on. -/
def onWords : List String := ["true", "on", "yes"]

/-- The words that switch something off. -/
def offWords : List String := ["false", "off", "no"]

/-- The count that a text stands for: a switch in any letter case, or digits, possibly after a
plus sign. -/
def countOfText? (s : String) : Option UInt64 :=
  if onWords.any (Text.spells s) then some 1
  else if offWords.any (Text.spells s) then some 0
  else match s.toList with
    | '+' :: digits => countOfDigits? digits
    | digits => countOfDigits? digits

/-- The count of a plain value; a fraction is rounded. -/
def count? : Setting → Option UInt64
  | .int i => if 0 ≤ i ∧ i < UInt64.size then some (UInt64.ofNat i.toNat) else none
  | .text s => countOfText? s
  | .bool b => some (if b then 1 else 0)
  | .float bits => some (Binary.rounded bits)
  | .null => none
  | .list _ => none
  | .table _ => none

/-! ## Records and lists -/

/-- The field of a record: a table has it under its name, a list at its place. -/
def member? (s : Setting) (index : Nat) (name : String) : Option Setting :=
  match s with
  | .table es => es.lookup name
  | .list xs => xs[index]?
  | _ => none

/-- The items of a list, each read alike. -/
def listOf? {α : Type} (read : Setting → Option α) : Setting → Option (List α)
  | .list xs => xs.mapM read
  | _ => none

/-- A text that may be left out by `null`. -/
def optionalText? : Setting → Option (Option String)
  | .null => some none
  | s => s.text?.map some

end Setting

/-! ## Settings from JSON -/

mutual

/-- A JSON value as a setting; an integer beyond 63 bits becomes a float. -/
def Setting.ofJson : Json.Value → Setting
  | .null => .null
  | .bool b => .bool b
  | .number (.natural n) =>
    if (n : Int) ≤ Int64.maxValue.toInt then .int n else .float (UInt64.ofNat n).toFloat.toBits
  | .number (.negative i) => .int i
  | .number (.float bits) => .float bits
  | .string s => .text s
  | .array items => .list (settingsOfItems items)
  | .object entries => .table (settingsOfEntries entries)

/-- The items of a JSON list as settings. -/
def settingsOfItems : List Json.Value → List Setting
  | [] => []
  | v :: rest => Setting.ofJson v :: settingsOfItems rest

/-- The entries of a JSON object as settings. -/
def settingsOfEntries : List (String × Json.Value) → List (String × Setting)
  | [] => []
  | (k, v) :: rest => (k, Setting.ofJson v) :: settingsOfEntries rest

end

end MarketFeed
