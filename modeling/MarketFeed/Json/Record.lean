import MarketFeed.Decimal.Numeral
import MarketFeed.Json.Read
import MarketFeed.Json.Write
import MarketFeed.Market.Provider

/-!
# JSON records

A record is an object with known fields, or a list of their values in the order of the fields.
Fields of other names are passed over. What is read is a list of named values, from which the
accessors of `Fields` take typed ones.

* `readRecord`: a record at the front of a text.
* `recordOfValue`: a record that is already decoded; its fields are looked at in key order.
-/

namespace MarketFeed.Json

/-- The type of a field. -/
inductive Kind where
  | text
  | int64
  | decimal
  | provider
  | optionalText
deriving DecidableEq

/-- The value of a field. -/
inductive Datum where
  | text (s : String)
  | int64 (i : Int64)
  | decimal (d : Decimal)
  | provider (p : Provider)
  | optionalText (s : Option String)
deriving DecidableEq

/-- A field of a record. -/
structure Field where
  name : String
  kind : Kind
  required : Bool := true
deriving DecidableEq

/-- The name of a record and its fields in order. -/
structure Shape where
  title : String
  fields : List Field

/-- How a message names the record. -/
def Shape.expecting (s : Shape) : String := "struct " ++ s.title

/-- How a message names the record given as a list. -/
def Shape.expectingLength (s : Shape) : String :=
  s.expecting ++ " with " ++ s.fields.length.repr ++ " elements"

/-- The field of a name. -/
def Shape.field? (s : Shape) (name : String) : Option Field :=
  s.fields.find? fun f => f.name = name

/-! ## Field values in a text -/

/-- How a message names a decimal. -/
def decimalExpecting : String := "a Decimal type representing a fixed-point number"

/-- The decimal of a string: a plain numeral, rounded, or else a scientific one. -/
def decimalOfText (s : String) : Except Cause Decimal :=
  match Decimal.readRounded s.toList with
  | .ok d => .ok d
  | .error _ =>
    match Decimal.readScientific s.toList with
    | .ok d => .ok d
    | .error _ => .error (.invalidValue (.string s) decimalExpecting)

/-- The decimal of a number. -/
def decimalOfNumber (n : Number) : Except Cause Decimal :=
  let read := match n with
    | .natural n => Decimal.readRounded n.repr.toList
    | .negative i => Decimal.readRounded i.repr.toList
    | .float bits => Decimal.readRounded (Binary.positional bits)
  match read with
  | .ok d => .ok d
  | .error _ => .error (.invalidValue (.number n) decimalExpecting)

/-- Reports the cause of a refused value after the octets that hold it. -/
def placed {α : Type} (rest : Octets) (r : Except Cause α) : Except Failure (α × Octets) :=
  match r with
  | .ok a => .ok (a, rest)
  | .error cause => failAt cause rest

/-- Reads a decimal: a string or a number. -/
def readDecimal : Reader Decimal := fun input =>
  match skipSpace input with
  | [] => failNext .eofInValue []
  | b :: rest =>
    if b = 0x2d then do
      let (n, rest) ← readNumber false rest
      placed rest (decimalOfNumber n)
    else if isDigit b then do
      let (n, rest) ← readNumber true (b :: rest)
      placed rest (decimalOfNumber n)
    else if b = 0x22 then do
      let (s, rest) ← readString rest
      placed rest (decimalOfText s)
    else if b = 0x5b then failInList (.invalidType .sequence decimalExpecting) rest
    else if b = 0x7b then failInObject (.invalidType .map decimalExpecting) rest
    else refuseType decimalExpecting (b :: rest)

/-- The provider of a canonical name. -/
def providerOfText (s : String) : Except Cause Provider :=
  match Provider.ofExactName? s with
  | some p => .ok p
  | none => .error (.unknownVariant s (Provider.all.map Provider.name))

/-- Reads a provider: its name, or an object that has the name as its key and holds `null`. -/
def readProvider : Reader Provider := fun input =>
  match skipSpace input with
  | [] => failNext .eofInValue []
  | b :: rest =>
    if b = 0x22 then do
      let (s, rest) ← readString rest
      placed rest (providerOfText s)
    else if b = 0x7b then do
      let (s, rest) ← readTextAs "variant identifier" rest
      let (p, rest) ← placed rest (providerOfText s)
      let (_, rest) ← readUnit (← readColon rest)
      match skipSpace rest with
      | [] => failAt .eofInObject []
      | c :: after => if c = 0x7d then .ok (p, after) else failAt .expectedValue (c :: after)
    else failNext .expectedValue (b :: rest)

/-- Reads the value of a field. -/
def readDatum (kind : Kind) (input : Octets) : Except Failure (Datum × Octets) :=
  match kind with
  | .text => (readText input).map fun (s, rest) => (.text s, rest)
  | .int64 => (readInt64 input).map fun (i, rest) => (.int64 i, rest)
  | .decimal => (readDecimal input).map fun (d, rest) => (.decimal d, rest)
  | .provider => (readProvider input).map fun (p, rest) => (.provider p, rest)
  | .optionalText => (readOptionalText input).map fun (s, rest) => (.optionalText s, rest)

/-! ## Records in a text -/

/-- Named values, the first one of a name counts. -/
abbrev Fields := List (String × Datum)

/-- The first field that is required and has no value. -/
def Shape.missing? (s : Shape) (fields : Fields) : Option Field :=
  s.fields.find? fun f => f.required && (fields.lookup f.name).isNone

/-- Reads the entries of an object into fields; `acc` holds what has been read. -/
def readFieldEntries (shape : Shape) :
    Nat → Bool → Fields → Octets → Except Failure (Fields × Octets)
  | 0, _, _, _ => failNext .eofInValue []
  | fuel + 1, first, acc, input => do
    match ← nextKey first input with
    | none =>
      match shape.missing? acc with
      | some f => failInObject (.missingField f.name) input
      | none => .ok (acc, ← endObject input)
    | some input =>
      let (key, rest) ← readString input
      match shape.field? key with
      | none => readFieldEntries shape fuel false acc (← skipValue (← readColon rest))
      | some f =>
        if (acc.lookup key).isSome then failInObject (.duplicateField key) rest
        else
          let (d, rest) ← readDatum f.kind (← readColon rest)
          readFieldEntries shape fuel false (acc ++ [(key, d)]) rest

/-- Reads the elements of a list into fields; `index` counts the fields before these. -/
def readFieldElements (shape : Shape) :
    List Field → Nat → Fields → Octets → Except Failure (Fields × Octets)
  | [], _, acc, input => do .ok (acc, ← endList input)
  | f :: more, index, acc, input => do
    match ← nextElement (index = 0) input with
    | some input =>
      let (d, rest) ← readDatum f.kind input
      readFieldElements shape more (index + 1) (acc ++ [(f.name, d)]) rest
    | none =>
      if f.required then failInList (.invalidLength index shape.expectingLength) input
      else readFieldElements shape more (index + 1) acc input

/-- Reads a record. -/
def readRecord (shape : Shape) : Reader Fields := fun input =>
  match skipSpace input with
  | [] => failNext .eofInValue []
  | b :: rest =>
    if b = 0x5b then readFieldElements shape shape.fields 0 [] rest
    else if b = 0x7b then readFieldEntries shape (rest.length + 1) true [] rest
    else refuseType shape.expecting (b :: rest)

/-- Reads the elements of a list of records; `acc` holds them in reverse. -/
def readRecordElements (shape : Shape) :
    Nat → Bool → List Fields → Octets → Except Failure (List Fields × Octets)
  | 0, _, _, _ => failNext .eofInValue []
  | fuel + 1, first, acc, input => do
    match ← nextElement first input with
    | none => .ok (acc.reverse, ← endList input)
    | some input =>
      let (fields, rest) ← readRecord shape input
      readRecordElements shape fuel false (fields :: acc) rest

/-- Reads a list of records. -/
def readRecords (shape : Shape) : Reader (List Fields) := fun input =>
  match skipSpace input with
  | [] => failNext .eofInValue []
  | b :: rest =>
    if b = 0x5b then readRecordElements shape (rest.length + 1) true [] rest
    else refuseType "a sequence" (b :: rest)

/-! ## Records that are already decoded -/

/-- The string that a value is. -/
def Value.text : Value → Except Cause String
  | .string s => .ok s
  | v => .error (.invalidType v.found "a string")

/-- The 64-bit integer that a value is. -/
def Value.int64 : Value → Except Cause Int64
  | .number n => n.int64?
  | v => .error (.invalidType v.found "i64")

/-- The decimal that a value is. -/
def Value.decimal : Value → Except Cause Decimal
  | .string s => decimalOfText s
  | .number n => decimalOfNumber n
  | v => .error (.invalidType v.found decimalExpecting)

/-- The provider that a value names. -/
def Value.provider : Value → Except Cause Provider
  | .string s => providerOfText s
  | v => .error (.invalidType v.found "string or map")

/-- The value of a field. -/
def Value.datum (kind : Kind) (v : Value) : Except Cause Datum :=
  match kind with
  | .text => v.text.map .text
  | .int64 => v.int64.map .int64
  | .decimal => v.decimal.map .decimal
  | .provider => v.provider.map .provider
  | .optionalText =>
    match v with
    | .null => .ok (.optionalText none)
    | v => v.text.map fun s => .optionalText (some s)

/-- The fields among the entries of an object. -/
def fieldsOfEntries (shape : Shape) : List (String × Value) → Except Cause Fields
  | [] => .ok []
  | (key, v) :: rest =>
    match shape.field? key with
    | none => fieldsOfEntries shape rest
    | some f => do
      let d ← v.datum f.kind
      .ok ((key, d) :: (← fieldsOfEntries shape rest))

/-- The fields of a list of values, in order; `index` counts the fields before these. -/
def fieldsOfItems (shape : Shape) : List Field → Nat → List Value → Except Cause Fields
  | [], _, _ => .ok []
  | f :: more, index, v :: rest => do
    let d ← v.datum f.kind
    .ok ((f.name, d) :: (← fieldsOfItems shape more (index + 1) rest))
  | f :: more, index, [] =>
    if f.required then .error (.invalidLength index shape.expectingLength)
    else fieldsOfItems shape more (index + 1) []

/-- The fields of a decoded record. -/
def recordOfValue (shape : Shape) : Value → Except Cause Fields
  | .object entries => do
    let fields ← fieldsOfEntries shape entries
    match shape.missing? fields with
    | some f => .error (.missingField f.name)
    | none => .ok fields
  | .array items => do
    let fields ← fieldsOfItems shape shape.fields 0 items
    if items.length > shape.fields.length then
      .error (.invalidLength items.length "fewer elements in array")
    else .ok fields
  | v => .error (.invalidType v.found shape.expecting)

/-! ## Typed access -/

namespace Fields

/-- The text of a field. -/
def text? (fields : Fields) (name : String) : Option String :=
  match fields.lookup name with
  | some (.text s) => some s
  | _ => none

/-- The integer of a field. -/
def int64? (fields : Fields) (name : String) : Option Int64 :=
  match fields.lookup name with
  | some (.int64 i) => some i
  | _ => none

/-- The decimal of a field. -/
def decimal? (fields : Fields) (name : String) : Option Decimal :=
  match fields.lookup name with
  | some (.decimal d) => some d
  | _ => none

/-- The provider of a field. -/
def provider? (fields : Fields) (name : String) : Option Provider :=
  match fields.lookup name with
  | some (.provider p) => some p
  | _ => none

/-- The text of a field that may be missing or `null`. -/
def optionalText (fields : Fields) (name : String) : Option String :=
  match fields.lookup name with
  | some (.optionalText s) => s
  | _ => none

end Fields

/-- Reads a record of a known type in a whole text. `build` finds every field it asks for, since
`readRecord` refuses records without them. -/
def readRecordWith {α : Type} (shape : Shape) (build : Fields → Option α) (input : Octets) :
    Except Failure α := do
  let fields ← readWhole (readRecord shape) input
  match build fields with
  | some a => .ok a
  | none => failAt .expectedValue []

/-- Reads a list of records of a known type in a whole text. -/
def readRecordsWith {α : Type} (shape : Shape) (build : Fields → Option α) (input : Octets) :
    Except Failure (List α) := do
  let records ← readWhole (readRecords shape) input
  match records.mapM build with
  | some items => .ok items
  | none => failAt .expectedValue []

/-- The record of a known type that a value is. -/
def recordOfValueWith {α : Type} (shape : Shape) (build : Fields → Option α) (v : Value) :
    Except Cause α := do
  match build (← recordOfValue shape v) with
  | some a => .ok a
  | none => .error .expectedValue

/-- The octets of a written value. Texts in this form evaluate faster, since none is encoded and
decoded on the way. -/
theorem ascii_render (v : Value) :
    ascii v.render = v.written.map fun c => UInt8.ofNat c.toNat := by
  rw [ascii, Value.render, String.toList_ofList]

end MarketFeed.Json
