import MarketFeed.Proofs.Decimal.Reading

/-!
# Writing decimals and reading them back

The text of a decimal is a plain numeral: its digits are those of the mantissa, with zeros in front
until one of them stands before the point. A plain numeral that a decimal has room for is read with
all its digits, trailing zeros included, whatever blanks are around it.

* `exists_numeral`: the text of a decimal as a numeral.
* `read_padded`: what a numeral between blanks is read as.
* `read_fitting_numerals`: numerals that fit are read in full, and the text of a decimal gives that
  decimal back.
-/

namespace MarketFeed

/-! ## Blanks around a text -/

theorem dropWhile_padded {p : Char → Bool} {padding cs : List Char}
    (hpadding : ∀ c ∈ padding, p c = true) (hcs : ∀ c ∈ cs.head?, p c = false) :
    (padding ++ cs).dropWhile p = cs := by
  rw [List.dropWhile_append_of_pos hpadding]
  cases cs with
  | nil => rfl
  | cons c cs => exact List.dropWhile_cons_of_neg (by simp [hcs c rfl])

/-- Trimming removes what is in a class from both ends of a text that has nothing of it. -/
theorem trimmedOf_padded {p : Char → Bool} {before cs after : List Char} (hne : cs ≠ [])
    (hbefore : ∀ c ∈ before, p c = true) (hcs : ∀ c ∈ cs, p c = false)
    (hafter : ∀ c ∈ after, p c = true) : Text.trimmedOf p (before ++ cs ++ after) = cs := by
  have hfront : (before ++ (cs ++ after)).dropWhile p = cs ++ after := by
    refine dropWhile_padded hbefore fun c hc => hcs c ?_
    rw [List.head?_append, Option.or_of_isSome (by simpa using hne)] at hc
    exact List.mem_of_mem_head? hc
  have hback : (after.reverse ++ cs.reverse).dropWhile p = cs.reverse := by
    refine dropWhile_padded (fun c hc => hafter c (List.mem_reverse.mp hc)) fun c hc => ?_
    exact hcs c (List.mem_reverse.mp (List.mem_of_mem_head? hc))
  rw [Text.trimmedOf, List.append_assoc, hfront, List.reverse_append, hback, List.reverse_reverse]

namespace Digits

/-- Zeros in front do not count. -/
theorem value_zeros (k : Nat) (ds : Digits) : value (List.replicate k 0 ++ ds) = ds.value := by
  have hzeros : value (List.replicate k 0) = 0 :=
    value_eq_zero.mpr fun _ hd => List.eq_of_mem_replicate hd
  rw [value_append, hzeros, Nat.zero_mul, Nat.zero_add]

/-- The digits that a number is written with. -/
theorem exists_chars (n : Nat) : ∃ ds : Digits, ds.chars = Nat.toDigits 10 n ∧ ds.value = n := by
  induction n using Nat.strong_induction_on with
  | _ n ih =>
    by_cases hn : n < 10
    · exact ⟨[⟨n, hn⟩], (Nat.toDigits_of_lt_base hn).symm, value_singleton _⟩
    · obtain ⟨ds, hchars, hvalue⟩ := ih (n / 10) (by omega)
      refine ⟨ds ++ [⟨n % 10, Nat.mod_lt _ (by decide)⟩], ?_, ?_⟩
      · rw [Nat.toDigits_of_base_le (by decide) (by omega), ← hchars, chars_append]
        rfl
      · rw [value_append, value_singleton, hvalue]
        exact Nat.div_add_mod' n 10

end Digits

/-! ## The text of a decimal -/

namespace PlainNumeral

/-- The numeral of some digits, `scale` of them behind the point. -/
def pointed (negative : Bool) (ds : Digits) (scale : Nat) (h : scale < ds.length) :
    PlainNumeral where
  sign := if negative then .minus else .none
  whole := ds.take (ds.length - scale)
  fraction := if scale = 0 then none else some (ds.drop (ds.length - scale))
  some_digit := by
    refine List.append_ne_nil_of_left_ne_nil (List.ne_nil_of_length_pos ?_) _
    rw [List.length_take]
    omega

variable {negative : Bool} {ds : Digits} {scale : Nat} {h : scale < ds.length}

theorem places_pointed : (pointed negative ds scale h).places = ds.drop (ds.length - scale) := by
  by_cases hscale : scale = 0 <;> simp [pointed, places, hscale]

theorem length_places_pointed : (pointed negative ds scale h).places.length = scale := by
  rw [places_pointed, List.length_drop]
  omega

theorem mantissa_pointed :
    (pointed negative ds scale h).mantissa = Decimal.signed negative ds.value := by
  have hall : (pointed negative ds scale h).whole ++ (pointed negative ds scale h).places = ds :=
    places_pointed ▸ List.take_append_drop _ ds
  rw [mantissa, hall]
  cases negative <;> rfl

theorem chars_pointed : (pointed negative ds scale h).chars =
    (if negative then ['-'] else []) ++ ds.chars.take (ds.chars.length - scale) ++
      if scale = 0 then [] else '.' :: ds.chars.drop (ds.chars.length - scale) := by
  have hsign : (pointed negative ds scale h).sign.chars = if negative then ['-'] else [] := by
    cases negative <;> rfl
  have htake (k : Nat) : ds.chars.take k = Digits.chars (ds.take k) := List.map_take.symm
  have hdrop (k : Nat) : ds.chars.drop k = Digits.chars (ds.drop k) := List.map_drop.symm
  have hlength : ds.chars.length = ds.length := List.length_map ..
  rw [chars, hsign, body, List.append_assoc, htake, hdrop, hlength]
  by_cases hscale : scale = 0 <;> simp [pointed, hscale]

end PlainNumeral

namespace Decimal

/-- The digits of a number, with zeros in front until there are enough of them. -/
theorem exists_padded (width n : Nat) : ∃ ds : Digits,
    ds.chars = padded width (Nat.toDigits 10 n) ∧ ds.value = n ∧ width ≤ ds.length := by
  obtain ⟨ds, hchars, hvalue⟩ := Digits.exists_chars n
  refine ⟨List.replicate (width - ds.length) 0 ++ ds, ?_, ?_, ?_⟩
  · rw [← hchars, padded, Digits.chars_append]
    simp [Digits.chars]
  · rw [Digits.value_zeros, hvalue]
  · rw [List.length_append, List.length_replicate]
    omega

/-- **The text of a decimal is a numeral** with its digits, as many of them behind the point as the
scale says. -/
theorem exists_numeral (d : Decimal) :
    ∃ p : PlainNumeral,
      p.chars = d.chars ∧ p.mantissa = d.mantissa ∧ p.places.length = d.scale := by
  obtain ⟨ds, hchars, hvalue, hlength⟩ := exists_padded (d.scale + 1) d.mantissa.natAbs
  refine ⟨.pointed (decide (d.mantissa < 0)) ds d.scale hlength, ?_, ?_, ?_⟩
  · rw [PlainNumeral.chars_pointed, hchars]
    simp only [Decimal.chars, decide_eq_true_eq]
  · rw [PlainNumeral.mantissa_pointed, hvalue, signed]
    by_cases hneg : d.mantissa < 0
    · rw [if_pos (decide_eq_true hneg)]
      omega
    · rw [if_neg (by simpa using hneg)]
      omega
  · exact PlainNumeral.length_places_pointed

/-! ## Reading -/

theorem digitChar_isBlank (d : Fin 10) : Text.isBlank (Nat.digitChar d) = false := by
  revert d
  decide

theorem not_isBlank_of_mem {p : PlainNumeral} {c : Char} (h : c ∈ p.chars) :
    Text.isBlank c = false := by
  by_contra hblank
  rw [Bool.not_eq_false] at hblank
  have hdigit : digit? c = none := by
    cases hc : digit? c with
    | none => rfl
    | some n =>
      obtain ⟨d, rfl, -⟩ := exists_of_digit? hc
      rw [digitChar_isBlank] at hblank
      cases hblank
  refine not_mem_plain hdigit ?_ ?_ ?_ p h <;>
  · rintro rfl
    cases hblank

/-- If all digits fit, none is left over. -/
theorem fits_all {p : PlainNumeral} (h : p.Fits p.places.length) : p.Fits 0 ∧ p.excess = [] := by
  have hkept : p.kept = p.places.length :=
    Nat.le_antisymm PlainNumeral.kept_le_length (Nat.le_findGreatest (Nat.le_refl _) h)
  refine ⟨⟨Nat.zero_le _, ?_⟩, ?_⟩
  · refine Nat.lt_of_le_of_lt ?_ h.2
    rw [PlainNumeral.valueAt, PlainNumeral.valueAt, List.take_zero, List.append_nil,
      Digits.value_append]
    exact Nat.le_add_right_of_le (Nat.le_mul_of_pos_right _ (by positivity))
  · rw [PlainNumeral.excess, hkept, List.drop_length]

/-- The text of a decimal is read as the decimal itself, whatever becomes of digits that do not
fit: there are none. -/
theorem readPlain_render (excess : Excess) (d : Decimal) :
    readPlain excess d.render.toList = .ok d := by
  obtain ⟨p, hchars, hmantissa, hscale⟩ := exists_numeral d
  have hvalue : p.valueAt p.places.length < bound := by
    have hlt := hmantissa ▸ d.mantissa_lt
    rw [PlainNumeral.mantissa, natAbs_signed] at hlt
    rwa [PlainNumeral.valueAt, List.take_length]
  obtain ⟨hfits, hexcess⟩ := fits_all (p := p) ⟨hscale ▸ d.scale_le, hvalue⟩
  rw [render, String.toList_ofList, ← hchars]
  exact (readPlain_chars_of_fits hfits hexcess).mpr ⟨hmantissa.symm, hscale.symm⟩

/-- A numeral that a decimal has room for is read with all its digits, whatever blanks are around
it. -/
theorem read_padded {p : PlainNumeral} {before after : List Char}
    (hbefore : ∀ c ∈ before, Text.isBlank c = true) (hafter : ∀ c ∈ after, Text.isBlank c = true)
    (hfits : p.Fits p.places.length) {d : Decimal} :
    read (String.ofList (before ++ p.chars ++ after)) = .ok d ↔
      d.mantissa = p.mantissa ∧ d.scale = p.places.length := by
  have hne : p.chars ≠ [] := by simpa using isEmpty_chars p
  have htrim : Text.trimChars (before ++ p.chars ++ after) = (Numeral.mk p none).chars :=
    (trimmedOf_padded hne hbefore (fun _ => not_isBlank_of_mem) hafter).trans
      (List.append_nil _).symm
  rw [read_eq_ok, String.toList_ofList, htrim, readNumeral_chars, readExact_chars_eq_ok]
  exact and_iff_right (fits_all hfits)

/-- **Numerals that fit and texts of decimals.** A numeral with at most 28 fraction digits and a
value below `2 ^ 96` is read with all its digits, whatever blanks are around it. The text of a
decimal is read as the decimal itself. -/
theorem read_fitting_numerals :
    (∀ (p : PlainNumeral) (before after : List Char),
      (∀ c ∈ before ++ after, Text.isBlank c = true) →
      p.places.length ≤ maxScale → (p.whole ++ p.places).value < bound →
      ∃ d, read (String.ofList (before ++ p.chars ++ after)) = .ok d ∧
        d.mantissa = p.mantissa ∧ d.scale = p.places.length) ∧
    ∀ d : Decimal, read d.render = .ok d := by
  refine ⟨fun p before after hblank hplaces hvalue => ?_, fun d => ?_⟩
  · have hfits : p.Fits p.places.length :=
      ⟨hplaces, by rwa [PlainNumeral.valueAt, List.take_length]⟩
    have hmantissa : p.mantissa.natAbs < bound := by rwa [PlainNumeral.mantissa, natAbs_signed]
    obtain ⟨hbefore, hafter⟩ := List.forall_mem_append.mp hblank
    exact ⟨⟨p.mantissa, p.places.length, hmantissa, hplaces⟩,
      (read_padded hbefore hafter hfits).mpr ⟨rfl, rfl⟩, rfl, rfl⟩
  · obtain ⟨p, hchars, hmantissa, hscale⟩ := exists_numeral d
    have hfits : p.Fits p.places.length := by
      refine ⟨hscale ▸ d.scale_le, ?_⟩
      have hlt := hmantissa ▸ d.mantissa_lt
      rw [PlainNumeral.mantissa, natAbs_signed] at hlt
      rwa [PlainNumeral.valueAt, List.take_length]
    have hread : read (String.ofList ([] ++ p.chars ++ [])) = .ok d :=
      (read_padded (by simp) (by simp) hfits).mpr ⟨hmantissa.symm, hscale.symm⟩
    rwa [List.nil_append, List.append_nil, hchars] at hread

/-- The least decimal of 28 places, with zeros in front. -/
def leastOfAllPlaces : PlainNumeral where
  sign := .minus
  whole := .of [0, 0, 7]
  fraction := some <| .of
    [9, 2, 2, 8, 1, 6, 2, 5, 1, 4, 2, 6, 4, 3, 3, 7, 5, 9, 3, 5, 4, 3, 9, 5, 0, 3, 3, 5]
  some_digit := by decide

theorem read_fitting_numerals_leastOfAllPlaces :
    (∀ c ∈ ['\u00a0', '\t'] ++ ['\n'], Text.isBlank c = true) ∧
    leastOfAllPlaces.places.length = maxScale ∧
    (leastOfAllPlaces.whole ++ leastOfAllPlaces.places).value = bound - 1 ∧
    ∃ d, read "\u00a0\t-007.9228162514264337593543950335\n" = .ok d ∧
      d.mantissa = 1 - bound ∧ d.scale = 28 := by
  have hblank : ∀ c ∈ ['\u00a0', '\t'] ++ ['\n'], Text.isBlank c = true :=
    List.all_eq_true.mp (by decide)
  have hplaces : leastOfAllPlaces.places.length = maxScale := rfl
  have hvalue : (leastOfAllPlaces.whole ++ leastOfAllPlaces.places).value = bound - 1 := by decide
  have hmantissa : leastOfAllPlaces.mantissa = 1 - bound := by decide
  refine ⟨hblank, hplaces, hvalue, ?_⟩
  rw [← hmantissa]
  exact read_fitting_numerals.1 leastOfAllPlaces ['\u00a0', '\t'] ['\n'] hblank (by decide)
    (by decide)

end Decimal

end MarketFeed
