import MarketFeed.Json.Scan

/-!
# Reading JSON values

* `Value.read`: the value of a whole text.
* `readWhole`: a reader applied to a whole text, after which only blanks may follow.

Containers nest at most 127 deep in a value that is kept.
-/

namespace MarketFeed.Json

/-- A reader of some kind of value at the front of a text. -/
abbrev Reader (α : Type) := Octets → Except Failure (α × Octets)

/-- Applies a reader to a whole text. -/
def readWhole {α : Type} (read : Reader α) (input : Octets) : Except Failure α := do
  let (a, rest) ← read input
  match skipSpace rest with
  | [] => .ok a
  | rest => failNext .trailingCharacters rest

/-- Is there another element of a list? Gives the octets where it starts. -/
def nextElement (first : Bool) (input : Octets) : Except Failure (Option Octets) :=
  match skipSpace input with
  | [] => failNext .eofInList []
  | b :: rest =>
    if b = 0x5d then .ok none
    else if first then .ok (some (b :: rest))
    else if b = 0x2c then
      match skipSpace rest with
      | [] => failNext .eofInValue []
      | c :: rest =>
        if c = 0x5d then failNext .trailingComma (c :: rest) else .ok (some (c :: rest))
    else failNext .expectedListCommaOrEnd (b :: rest)

/-- Is there another entry of an object? Gives the octets after the opening quote of its key. -/
def nextKey (first : Bool) (input : Octets) : Except Failure (Option Octets) :=
  match skipSpace input with
  | [] => failNext .eofInObject []
  | b :: rest =>
    if b = 0x7d then .ok none
    else if first then
      if b = 0x22 then .ok (some rest) else failNext .keyMustBeString (b :: rest)
    else if b = 0x2c then
      match skipSpace rest with
      | [] => failNext .eofInValue []
      | c :: rest =>
        if c = 0x22 then .ok (some rest)
        else if c = 0x7d then failNext .trailingComma (c :: rest)
        else failNext .keyMustBeString (c :: rest)
    else failNext .expectedObjectCommaOrEnd (b :: rest)

/-- Passes over the colon between a key and its value. -/
def readColon (input : Octets) : Except Failure Octets :=
  match skipSpace input with
  | [] => failNext .eofInObject []
  | b :: rest => if b = 0x3a then .ok rest else failNext .expectedColon (b :: rest)

/-- Passes over the end of a list. -/
def endList (input : Octets) : Except Failure Octets :=
  match skipSpace input with
  | [] => failNext .eofInList []
  | b :: rest =>
    if b = 0x5d then .ok rest
    else if b = 0x2c then
      match skipSpace rest with
      | c :: rest =>
        failNext (if c = 0x5d then .trailingComma else .trailingCharacters) (c :: rest)
      | [] => failNext .trailingCharacters []
    else failNext .trailingCharacters (b :: rest)

/-- Passes over the end of an object. -/
def endObject (input : Octets) : Except Failure Octets :=
  match skipSpace input with
  | [] => failNext .eofInObject []
  | b :: rest =>
    if b = 0x7d then .ok rest
    else failNext (if b = 0x2c then .trailingComma else .trailingCharacters) (b :: rest)

/-- A refused list is reported after its end, as far as the end is there. -/
def failInList {α : Type} (cause : Cause) (input : Octets) : Except Failure α :=
  match skipSpace input with
  | [] => failAt cause []
  | b :: rest =>
    if b = 0x5d then failAt cause rest
    else if b = 0x2c then failAt cause (skipSpace rest)
    else failAt cause (b :: rest)

/-- A refused object is reported after its end, as far as the end is there. -/
def failInObject {α : Type} (cause : Cause) (input : Octets) : Except Failure α :=
  match skipSpace input with
  | [] => failAt cause []
  | b :: rest => if b = 0x7d then failAt cause rest else failAt cause (b :: rest)

/-- How deep containers may nest, plus one. -/
def depthLimit : Nat := 128

mutual

/-- Reads a value; `depth` counts down from the limit. -/
def readValueWithin : Nat → Nat → Octets → Except Failure (Value × Octets)
  | 0, _, _ => failNext .eofInValue []
  | fuel + 1, depth, input =>
    match skipSpace input with
    | [] => failNext .eofInValue []
    | b :: rest =>
      if b = 0x6e then do .ok (.null, ← readIdent (ascii "ull") rest)
      else if b = 0x74 then do .ok (.bool true, ← readIdent (ascii "rue") rest)
      else if b = 0x66 then do .ok (.bool false, ← readIdent (ascii "alse") rest)
      else if b = 0x2d then do
        let (n, rest) ← readNumber false rest
        .ok (.number n, rest)
      else if isDigit b then do
        let (n, rest) ← readNumber true (b :: rest)
        .ok (.number n, rest)
      else if b = 0x22 then do
        let (s, rest) ← readString rest
        .ok (.string s, rest)
      else if b = 0x5b then
        if depth ≤ 1 then failNext .recursionLimit (b :: rest)
        else readElements fuel (depth - 1) true [] rest
      else if b = 0x7b then
        if depth ≤ 1 then failNext .recursionLimit (b :: rest)
        else readEntries fuel (depth - 1) true [] rest
      else failNext .expectedValue (b :: rest)

/-- Reads the elements of a list and its end; `acc` holds them in reverse. -/
def readElements : Nat → Nat → Bool → List Value → Octets → Except Failure (Value × Octets)
  | 0, _, _, _, _ => failNext .eofInValue []
  | fuel + 1, depth, first, acc, input => do
    match ← nextElement first input with
    | none => .ok (.array acc.reverse, ← endList input)
    | some input =>
      let (v, rest) ← readValueWithin fuel depth input
      readElements fuel depth false (v :: acc) rest

/-- Reads the entries of an object and its end; `acc` holds them in reverse. -/
def readEntries :
    Nat → Nat → Bool → List (String × Value) → Octets → Except Failure (Value × Octets)
  | 0, _, _, _, _ => failNext .eofInValue []
  | fuel + 1, depth, first, acc, input => do
    match ← nextKey first input with
    | none => .ok (.ofEntries acc.reverse, ← endObject input)
    | some input =>
      let (key, rest) ← readString input
      let (v, rest) ← readValueWithin fuel depth (← readColon rest)
      readEntries fuel depth false ((key, v) :: acc) rest

end

/-- Reads a value at the front of a text. -/
def readValue : Reader Value := fun input =>
  readValueWithin (2 * input.length + 2) depthLimit input

/-- The value of a whole text. -/
def Value.read (input : Octets) : Except Failure Value := readWhole readValue input

/-! ## Scalars of a known type -/

/-- Refuses the value at the front of a text as being of another type than `expected`. -/
def refuseType {α : Type} (expected : String) (input : Octets) : Except Failure α :=
  match input with
  | [] => failNext .expectedValue []
  | b :: rest =>
    if b = 0x6e then do
      failAt (.invalidType .null expected) (← readIdent (ascii "ull") rest)
    else if b = 0x74 then do
      failAt (.invalidType (.bool true) expected) (← readIdent (ascii "rue") rest)
    else if b = 0x66 then do
      failAt (.invalidType (.bool false) expected) (← readIdent (ascii "alse") rest)
    else if b = 0x2d then do
      let (n, rest) ← readNumber false rest
      failAt (.invalidType (.number n) expected) rest
    else if isDigit b then do
      let (n, rest) ← readNumber true (b :: rest)
      failAt (.invalidType (.number n) expected) rest
    else if b = 0x22 then do
      let (s, rest) ← readString rest
      failAt (.invalidType (.string s) expected) rest
    else if b = 0x5b then failAt (.invalidType .sequence expected) (b :: rest)
    else if b = 0x7b then failAt (.invalidType .map expected) (b :: rest)
    else failNext .expectedValue (b :: rest)

/-- Reads a string where `expected` names what the string stands for. -/
def readTextAs (expected : String) : Reader String := fun input =>
  match skipSpace input with
  | [] => failNext .eofInValue []
  | b :: rest => if b = 0x22 then readString rest else refuseType expected (b :: rest)

/-- Reads a string. -/
def readText : Reader String := readTextAs "a string"

/-- The 64-bit integer that a number is. -/
def Number.int64? : Number → Except Cause Int64
  | .natural n =>
    if (n : Int) ≤ Int64.maxValue.toInt then .ok (Int64.ofNat n)
    else .error (.invalidValue (.number (.natural n)) "i64")
  | .negative i => .ok (Int64.ofInt i)
  | .float bits => .error (.invalidType (.number (.float bits)) "i64")

/-- Reads an integer of 64 bits with a sign. -/
def readInt64 : Reader Int64 := fun input =>
  match skipSpace input with
  | [] => failNext .eofInValue []
  | b :: rest =>
    let finish : Number × Octets → Except Failure (Int64 × Octets) := fun (n, rest) =>
      match n.int64? with
      | .ok i => .ok (i, rest)
      | .error cause => failAt cause rest
    if b = 0x2d then do finish (← readNumber false rest)
    else if isDigit b then do finish (← readNumber true (b :: rest))
    else refuseType "i64" (b :: rest)

/-- Reads `null` where nothing else fits. -/
def readUnit : Reader Unit := fun input =>
  match skipSpace input with
  | [] => failNext .eofInValue []
  | b :: rest =>
    if b = 0x6e then do .ok ((), ← readIdent (ascii "ull") rest) else refuseType "unit" (b :: rest)

/-- Reads a string that may be `null`. -/
def readOptionalText : Reader (Option String) := fun input =>
  match skipSpace input with
  | 0x6e :: rest => do .ok (none, ← readIdent (ascii "ull") rest)
  | _ => do
    let (s, rest) ← readText input
    .ok (some s, rest)

end MarketFeed.Json
