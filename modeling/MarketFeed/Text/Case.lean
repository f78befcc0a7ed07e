import MarketFeed.Text.CaseTable

/-!
# Letter case

Upper-casing goes character by character and knows all of Unicode; one character may become up to
three. Comparing with a lower-case ASCII word needs less: only `A` to `Z` and the Kelvin sign have
a lower-case form that is an ASCII letter.
-/

namespace MarketFeed.Text

/-- The upper-case form of a character. -/
def upperChar (c : Char) : List Char :=
  if c.toNat < 128 then [if 'a' ≤ c ∧ c ≤ 'z' then Char.ofNat (c.toNat - 32) else c]
  else match upperWords.find? fun (code, _) => code = c.toNat with
    | some (_, form) => form.map Char.ofNat
    | none =>
      match upperRuns.find? fun (first, last, step, _) =>
          first ≤ c.toNat && c.toNat ≤ last && (c.toNat - first) % step = 0 with
      | some (_, _, _, shift) => [Char.ofNat ((c.toNat : Int) + shift).toNat]
      | none => [c]

/-- The upper-case form of a text. -/
def upper (s : String) : String := String.ofList (s.toList.flatMap upperChar)

/-- The lower-case form of a character, as far as it is an ASCII letter. -/
def lowerAscii (c : Char) : Char :=
  if 'A' ≤ c ∧ c ≤ 'Z' then Char.ofNat (c.toNat + 32)
  else if c.toNat = 0x212a then 'k'
  else c

/-- Is `word`, written in lower case, the lower-case form of `s`? -/
def spells (s word : String) : Bool := s.toList.map lowerAscii == word.toList

end MarketFeed.Text
