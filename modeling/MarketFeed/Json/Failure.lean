import MarketFeed.Decimal.Shortest
import MarketFeed.Text.Quoted
import MarketFeed.Json.Value

/-!
# Why a JSON text is refused

A failure is a cause and the number of octets that were not consumed when it was noticed, from
which the line and the column follow. Refusing a value that is already decoded has a cause alone.
-/

namespace MarketFeed.Json

/-- The kind of value that stands where another was expected. -/
inductive Found where
  | null
  | bool (b : Bool)
  | number (n : Number)
  | string (s : String)
  | sequence
  | map
deriving DecidableEq

/-- The wording of a number. -/
def Number.describe : Number → String
  | .natural n => "integer \x60" ++ n.repr ++ "\x60"
  | .negative i => "integer \x60" ++ i.repr ++ "\x60"
  | .float bits => "floating point \x60" ++ String.ofList (Binary.compact bits) ++ "\x60"

/-- The wording of a found value. -/
def Found.describe : Found → String
  | .null => "null"
  | .bool true => "boolean \x60true\x60"
  | .bool false => "boolean \x60false\x60"
  | .number n => n.describe
  | .string s => "string " ++ Text.quoted s
  | .sequence => "sequence"
  | .map => "map"

/-- What a decoded value is found to be. -/
def Value.found : Value → Found
  | .null => .null
  | .bool b => .bool b
  | .number n => .number n
  | .string s => .string s
  | .array _ => .sequence
  | .object _ => .map

/-- Why a JSON text or value is refused. -/
inductive Cause where
  | eofInList
  | eofInObject
  | eofInString
  | eofInValue
  | expectedColon
  | expectedListCommaOrEnd
  | expectedObjectCommaOrEnd
  | expectedIdent
  | expectedValue
  | invalidEscape
  | invalidNumber
  | numberOutOfRange
  | invalidCodePoint
  | controlCharacter
  | keyMustBeString
  | loneSurrogate
  | trailingComma
  | trailingCharacters
  | endOfHexEscape
  | recursionLimit
  | invalidType (found : Found) (expected : String)
  | invalidValue (found : Found) (expected : String)
  | invalidLength (length : Nat) (expected : String)
  | missingField (name : String)
  | duplicateField (name : String)
  | unknownVariant (name : String) (known : List String)
deriving DecidableEq

/-- Text in the marks that set off a name. -/
def ticked (s : String) : String := "\x60" ++ s ++ "\x60"

/-- The wording of a list of alternatives. -/
def alternatives : List String → String
  | [] => "there are no variants"
  | [a] => "expected " ++ ticked a
  | [a, b] => "expected " ++ ticked a ++ " or " ++ ticked b
  | names => "expected one of " ++ ", ".intercalate (names.map ticked)

/-- The wording of a cause. -/
def Cause.message : Cause → String
  | .eofInList => "EOF while parsing a list"
  | .eofInObject => "EOF while parsing an object"
  | .eofInString => "EOF while parsing a string"
  | .eofInValue => "EOF while parsing a value"
  | .expectedColon => "expected " ++ ticked ":"
  | .expectedListCommaOrEnd => "expected " ++ ticked "," ++ " or " ++ ticked "]"
  | .expectedObjectCommaOrEnd => "expected " ++ ticked "," ++ " or " ++ ticked "\x7d"
  | .expectedIdent => "expected ident"
  | .expectedValue => "expected value"
  | .invalidEscape => "invalid escape"
  | .invalidNumber => "invalid number"
  | .numberOutOfRange => "number out of range"
  | .invalidCodePoint => "invalid unicode code point"
  | .controlCharacter =>
    "control character (\\u0000-\\u001F) found while parsing a string"
  | .keyMustBeString => "key must be a string"
  | .loneSurrogate => "lone leading surrogate in hex escape"
  | .trailingComma => "trailing comma"
  | .trailingCharacters => "trailing characters"
  | .endOfHexEscape => "unexpected end of hex escape"
  | .recursionLimit => "recursion limit exceeded"
  | .invalidType found expected =>
    "invalid type: " ++ found.describe ++ ", expected " ++ expected
  | .invalidValue found expected =>
    "invalid value: " ++ found.describe ++ ", expected " ++ expected
  | .invalidLength length expected =>
    "invalid length " ++ length.repr ++ ", expected " ++ expected
  | .missingField name => "missing field " ++ ticked name
  | .duplicateField name => "duplicate field " ++ ticked name
  | .unknownVariant name known =>
    "unknown variant " ++ ticked name ++ ", " ++ alternatives known

/-- A refused text: the cause, and how many octets were left when it was noticed. -/
structure Failure where
  cause : Cause
  left : Nat
deriving DecidableEq

/-- The line and the column after the first `count` octets of a text: lines start at 1, columns
count the octets since the last line end. -/
def position (input : List UInt8) (count : Nat) : Nat × Nat :=
  let before := input.take count
  (1 + before.count 0x0a, (before.reverse.takeWhile (· ≠ 0x0a)).length)

/-- The wording of a failure in a text. -/
def Failure.message (input : List UInt8) (f : Failure) : String :=
  let (line, column) := position input (input.length - f.left)
  f.cause.message ++ " at line " ++ line.repr ++ " column " ++ column.repr

end MarketFeed.Json
