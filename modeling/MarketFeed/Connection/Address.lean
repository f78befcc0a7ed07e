import MarketFeed.Text.Utf8

/-!
# Websocket addresses

An address is refused before anything is sent if it is not written as an address, names no host, or
has a scheme that no port is known for.

* `Address.ofText`: the parts of an address.
* `Address.refusal?`: why an address is refused.
-/

namespace MarketFeed

/-- Why an address is refused. -/
inductive AddressError where
  | invalidCharacter
  | invalidAuthority
  | invalidFormat
  | empty
  | tooLong
  | schemeTooLong
  | noHost
  | unsupportedScheme
deriving DecidableEq

/-- The wording of a refused address. -/
def AddressError.message : AddressError → String
  | .invalidCharacter => "HTTP format error: invalid uri character"
  | .invalidAuthority => "HTTP format error: invalid authority"
  | .invalidFormat => "HTTP format error: invalid format"
  | .empty => "HTTP format error: empty string"
  | .tooLong => "HTTP format error: uri too long"
  | .schemeTooLong => "HTTP format error: scheme too long"
  | .noHost => "URL error: No host name in the URL"
  | .unsupportedScheme => "URL error: URL scheme not supported"

/-- The parts of an address that say where to connect. -/
structure Address where
  scheme : Option String
  authority : Option String
deriving DecidableEq

namespace Address

/-- The longest address, in octets. -/
def longest : Nat := 65534

/-- The longest scheme. -/
def longestScheme : Nat := 64

/-! ## Characters -/

/-- May a character stand in a scheme? -/
def isSchemeChar (c : Char) : Bool := c.isAlphanum || c = '+' || c = '-' || c = '.' || c = '~'

/-- May a character stand in an authority, where it has no meaning of its own? -/
def isAuthorityChar (c : Char) : Bool := c.isAlphanum || "!$&'()*+,-.;=_~".toList.contains c

/-- Does a character end an authority? -/
def endsAuthority (c : Char) : Bool := c = '/' || c = '?' || c = '#'

/-- May a character stand in a path? -/
def isPathChar (c : Char) : Bool :=
  0x21 ≤ c.toNat && !("#<>?\x60".toList.contains c)

/-- May a character stand in a query? -/
def isQueryChar (c : Char) : Bool :=
  0x21 ≤ c.toNat && !("\"#<>".toList.contains c)

/-! ## Authorities -/

/-- What has been met in an authority. -/
structure Met where
  /-- The colons outside of brackets since the last `@`. -/
  colons : Nat := 0
  opened : Bool := false
  closed : Bool := false
  /-- A percent sign outside of brackets since the last `@`. -/
  percent : Bool := false
deriving DecidableEq

/-- Takes one more character. -/
def Met.add (m : Met) (c : Char) : Except AddressError Met :=
  if c = ':' then
    if 8 ≤ m.colons then .error .invalidAuthority else .ok { m with colons := m.colons + 1 }
  else if c = '[' then
    if m.percent || m.opened then .error .invalidAuthority else .ok { m with opened := true }
  else if c = ']' then
    if !m.opened || m.closed then .error .invalidAuthority
    else .ok { m with closed := true, colons := 0, percent := false }
  else if c = '@' then .ok { m with colons := 0, percent := false }
  else if c = '%' then .ok { m with percent := true }
  else if isAuthorityChar c then .ok m
  else .error .invalidCharacter

/-- The characters of an authority at the front of a text, and the rest. -/
def splitAuthority (cs : List Char) : Except AddressError (List Char × List Char) := do
  let authority := cs.takeWhile fun c => !endsAuthority c
  let met ← authority.foldlM Met.add {}
  if met.opened ≠ met.closed ∨ 1 < met.colons ∨ authority.getLast? = some '@' ∨ met.percent then
    .error .invalidAuthority
  else .ok (authority, cs.dropWhile fun c => !endsAuthority c)

/-! ## Paths -/

/-- Checks a path with its query; what follows a number sign does not count. -/
def checkPath (cs : List Char) : Except AddressError Unit :=
  match cs.dropWhile isPathChar with
  | [] => .ok ()
  | c :: rest =>
    if c = '#' then .ok ()
    else if c = '?' then
      match rest.dropWhile isQueryChar with
      | [] => .ok ()
      | d :: _ => if d = '#' then .ok () else .error .invalidCharacter
    else .error .invalidCharacter

/-! ## Addresses -/

/-- The scheme at the front of a text of more than three octets, and what follows the two slashes
after it. -/
def splitScheme (cs : List Char) : Except AddressError (Option (List Char × List Char)) :=
  match cs.dropWhile isSchemeChar with
  | ':' :: '/' :: '/' :: rest =>
    let scheme := cs.takeWhile isSchemeChar
    if scheme.isEmpty ∧ rest.isEmpty then .ok none
    else if longestScheme < scheme.length then .error .schemeTooLong
    else .ok (some (scheme, rest))
  | _ => .ok none

/-- The parts of an address of several characters that does not start with a slash. -/
def ofFull (cs : List Char) : Except AddressError Address := do
  match ← splitScheme cs with
  | none =>
    let (authority, rest) ← splitAuthority cs
    if rest.isEmpty then .ok ⟨none, some (String.ofList authority)⟩ else .error .invalidFormat
  | some (scheme, rest) =>
    if rest.isEmpty then throw .empty
    let (authority, rest) ← splitAuthority rest
    if authority.isEmpty then throw .invalidFormat
    checkPath rest
    .ok ⟨some (String.ofList scheme), some (String.ofList authority)⟩

/-- The parts of an address. -/
def ofText (text : String) : Except AddressError Address :=
  if longest < (Text.encode text).length then .error .tooLong
  else match text.toList with
    | [] => .error .empty
    | ['*'] => .ok ⟨none, none⟩
    | [c] =>
      if c = '/' then .ok ⟨none, none⟩
      else do
        let (authority, rest) ← splitAuthority [c]
        if rest.isEmpty then .ok ⟨none, some (String.ofList authority)⟩
        else .error .invalidCharacter
    | '/' :: rest => do
      checkPath ('/' :: rest)
      .ok ⟨none, none⟩
    | cs => ofFull cs

/-- The port that an authority names. -/
def portOf? (authority : String) : Option Nat :=
  let cs := authority.toList.reverse
  let digits := (cs.takeWhile (· ≠ ':')).reverse
  if cs.contains ':' ∧ !digits.isEmpty ∧ digits.all Char.isDigit then
    let n := digits.foldl (fun n c => 10 * n + (c.toNat - 48)) 0
    if n < UInt16.size then some n else none
  else none

/-- The port of an address: the one it names, or else the one of its scheme. -/
def port? (a : Address) : Option Nat :=
  match a.authority.bind portOf? with
  | some n => some n
  | none =>
    if a.scheme = some "wss" then some 443 else if a.scheme = some "ws" then some 80 else none

/-- Why an address is refused; nothing, if a connection would be tried. -/
def refusal? (text : String) : Option AddressError :=
  match ofText text with
  | .error e => some e
  | .ok a =>
    if a.authority.isNone then some .noHost
    else if a.port?.isNone then some .unsupportedScheme
    else none

end Address

end MarketFeed
