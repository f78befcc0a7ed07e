import MarketFeed.Proofs.Decimal.Scientific

/-!
# The decimals of texts

A decimal that is read from a text is compared with the number that the text stands for. Plain
numerals keep all their digits or are refused. Before an exponent digits can be lost.

* `exists_spells`: every text with a decimal is a numeral.
* `read_eq_error`: every other text is refused as it stands.
* `toRat_eq_iff`: a decimal is the number of its text if and only if nothing but zeros was cut off
  before an exponent.
* `read_keepsAll`: what is read without loss, and that numbers without a decimal are refused.
-/

namespace MarketFeed.Decimal

variable {s : String} {d : Decimal} {n : Numeral}

/-! ## Which texts are read -/

theorem read_eq_ok : read s = .ok d ↔ readNumeral (Text.trimChars s.toList) = .ok d := by
  unfold read
  split <;> simp_all

/-- A text is refused as it stands, whatever the cause. -/
theorem read_eq_error {e : FeedError} (h : read s = .error e) :
    ∃ reason, e = .decimal s reason := by
  unfold read at h
  split at h
  · cases h
  · exact ⟨_, (Except.error.inj h).symm⟩

/-- Reading a text does not fault. -/
theorem read_ne_fault (s : String) (f : Fault) : read s ≠ .error (.fault f) := by
  intro h
  obtain ⟨reason, hreason⟩ := read_eq_error h
  cases hreason

theorem exists_of_readNumeral {cs : List Char} (h : readNumeral cs = .ok d) :
    ∃ n : Numeral, n.chars = cs := by
  unfold readNumeral at h
  split at h
  · cases h
  · rename_i hcontains
    have hsep : '_' ∉ cs := by simpa using hcontains
    split at h
    · exact exists_of_readScientific hsep h
    · obtain ⟨p, rfl⟩ := exists_of_readPlain h hsep
      exact ⟨⟨p, none⟩, List.append_nil _⟩

/-- **Nothing but numerals has a decimal.** -/
theorem exists_spells (h : read s = .ok d) : ∃ n : Numeral, n.Spells s :=
  exists_of_readNumeral (read_eq_ok.mp h)

/-! ## Which decimals they are -/

/-- **A decimal is the number of its text** if and only if nothing but zeros was cut off before an
exponent. -/
theorem toRat_eq_iff (h : read s = .ok d) (hn : n.Spells s) :
    d.toRat = n.toRat ↔ n.KeepsAll := by
  have hread := read_eq_ok.mp h
  rw [← hn, readNumeral_chars] at hread
  unfold Numeral.toRat Numeral.KeepsAll
  cases hx : n.exponent with
  | none =>
    rw [hx] at hread
    simp [toRat_eq_of_readExact hread]
  | some x =>
    rw [hx] at hread
    obtain ⟨base, hbase, hshift⟩ := bind_eq_ok.mp hread
    rw [toRat_of_shift hshift, Option.elim_some, mul_left_inj' x.factor_ne_zero,
      toRat_eq_iff_of_readRounded hbase]
    simp

/-- **Reading keeps all digits or loses some before an exponent.** A text with a decimal is a
numeral, and its decimal is its number exactly if no digit but zeros is cut off before an exponent.
Without such a loss, a numeral whose number is no decimal is refused. -/
theorem read_keepsAll (s : String) :
    (∀ d, read s = .ok d → (∃ n : Numeral, n.Spells s) ∧
      ∀ n : Numeral, n.Spells s → (d.toRat = n.toRat ↔ n.KeepsAll)) ∧
    ∀ n : Numeral, n.Spells s → n.KeepsAll → (∀ d : Decimal, d.toRat ≠ n.toRat) →
      ∃ reason, read s = .error (.decimal s reason) := by
  refine ⟨fun d h => ⟨exists_spells h, fun n hn => toRat_eq_iff h hn⟩, ?_⟩
  intro n hn hkeeps hnone
  cases h : read s with
  | ok d => exact absurd ((toRat_eq_iff h hn).mpr hkeeps) (hnone d)
  | error e =>
    obtain ⟨reason, rfl⟩ := read_eq_error h
    exact ⟨reason, rfl⟩

/-- Twenty-nine fraction digits, and an exponent of zero. -/
def twentyNinePlaces : Numeral where
  plain :=
    { sign := .none
      whole := .of [0]
      fraction := some <| .of
        [1, 2, 3, 4, 5, 6, 7, 8, 9, 0, 1, 2, 3, 4, 5, 6, 7, 8, 9, 0, 1, 2, 3, 4, 5, 6, 7, 8, 9]
      some_digit := by decide }
  exponent := some
    { mark := 'e', minus := false, plus := false, digits := .of [0], isMark := rfl
      some_digit := by decide }

/-- The first 28 of them, with the last one rounded up. -/
def roundedPlaces : Decimal :=
  ⟨1234567890123456789012345679, 28, by decide, by decide⟩

/-- A number of 29 digits that leaves 96 bits by one. -/
def firstTooLarge : Numeral where
  plain :=
    { sign := .none
      whole := .of
        [7, 9, 2, 2, 8, 1, 6, 2, 5, 1, 4, 2, 6, 4, 3, 3, 7, 5, 9, 3, 5, 4, 3, 9, 5, 0, 3, 3, 6]
      fraction := none
      some_digit := by decide }
  exponent := none

theorem not_keepsAll_twentyNinePlaces : ¬ twentyNinePlaces.KeepsAll := by
  rintro (hnone | hzero)
  · cases hnone
  · revert hzero
    decide

theorem toRat_ne_firstTooLarge (d : Decimal) : d.toRat ≠ firstTooLarge.toRat := by
  have hvalue : firstTooLarge.toRat = bound := by
    have hmantissa : firstTooLarge.plain.mantissa = bound := by decide
    have hplaces : firstTooLarge.plain.places = [] := rfl
    have hexponent : firstTooLarge.exponent = none := rfl
    simp [Numeral.toRat, PlainNumeral.toRat, hmantissa, hplaces, hexponent]
  intro h
  have hle := d.abs_toRat_le
  rw [h, hvalue, Nat.abs_cast] at hle
  linarith

theorem read_keepsAll_at_bounds :
    (read "0.12345678901234567890123456789e0" = .ok roundedPlaces ∧
      roundedPlaces.toRat ≠ twentyNinePlaces.toRat) ∧
    ∃ reason, read "79228162514264337593543950336" =
      .error (.decimal "79228162514264337593543950336" reason) := by
  have hrounded : read "0.12345678901234567890123456789e0" = .ok roundedPlaces := rfl
  refine ⟨⟨hrounded, fun h => not_keepsAll_twentyNinePlaces ?_⟩, ?_⟩
  · exact (((read_keepsAll _).1 _ hrounded).2 twentyNinePlaces rfl).mp h
  · have hspells : firstTooLarge.Spells "79228162514264337593543950336" := rfl
    exact (read_keepsAll _).2 _ hspells (.inl rfl) toRat_ne_firstTooLarge

/-- Digits behind the 28th are rounded away before an exponent. -/
theorem not_read_exact : ¬ ∀ (s : String) (d : Decimal) (n : Numeral),
    read s = .ok d → n.Spells s → d.toRat = n.toRat := by
  intro h
  have hrounded : read "0.12345678901234567890123456789e0" = .ok roundedPlaces := rfl
  have hspells : twentyNinePlaces.Spells "0.12345678901234567890123456789e0" := rfl
  exact not_keepsAll_twentyNinePlaces
    ((toRat_eq_iff hrounded hspells).mp (h _ _ _ hrounded hspells))

end MarketFeed.Decimal
