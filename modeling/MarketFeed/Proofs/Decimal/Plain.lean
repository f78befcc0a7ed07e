import MarketFeed.Fault
import MarketFeed.Proofs.Decimal.Numeral

/-!
# Reading plain numerals

What comes out of the characters of a plain numeral, digit by digit, and that nothing else is read.
The digits go in as long as a decimal has room for them. The first fraction digit beyond that is
refused or rounds the others.

* `readDigits_body`: what reading makes of a numeral.
* `exists_of_readPlain`: whatever is read is a numeral.
* `readExact_chars_eq_ok`: read exactly, a numeral gives its own digits or nothing.
* `toRat_eq_iff_of_readRounded`: read with rounding, it gives its own value if and only if the
  digits without room are zeros.
-/

namespace MarketFeed.Decimal

/-! ## Digits -/

theorem digit?_digitChar (d : Fin 10) : digit? (Nat.digitChar d) = some (d : Nat) := by
  revert d
  decide

theorem exists_of_digit? {c : Char} {n : Nat} (h : digit? c = some n) :
    ∃ d : Fin 10, c = Nat.digitChar d ∧ n = d := by
  unfold digit? at h
  split at h
  · rename_i hc
    obtain rfl := Option.some.inj h
    simp only [Char.le_def, UInt32.le_iff_toNat_le] at hc
    have h0 : ('0' : Char).toNat = 48 := rfl
    have h0' : ('0' : Char).val.toNat = 48 := rfl
    have h9' : ('9' : Char).val.toNat = 57 := rfl
    have hval : c.toNat = c.val.toNat := rfl
    have hlt : c.toNat - 48 < 10 := by omega
    refine ⟨⟨c.toNat - 48, hlt⟩, Char.toNat_inj.mp ?_, by rw [h0]⟩
    rw [Nat.toNat_digitChar_of_lt_ten hlt]
    omega
  · cases h

theorem digitChar_ne {c : Char} (hc : digit? c = none) (d : Fin 10) : Nat.digitChar d ≠ c := by
  rintro rfl
  rw [digit?_digitChar] at hc
  cases hc

/-- One more digit that there is room for. -/
theorem readDigits_digit {excess : Excess} {value scale : Nat} {point any : Bool} {d : Fin 10}
    (hscale : scale < maxScale) (hvalue : value * 10 + d < bound) (rest : List Char) :
    readDigits excess value scale point any (Nat.digitChar d :: rest) =
      readDigits excess (value * 10 + d) (if point then scale + 1 else 0) point true rest := by
  rw [readDigits, if_neg (by omega), digit?_digitChar]
  simp only [if_pos hvalue]

/-- Digits before the point go in until 96 bits are full. -/
theorem readDigits_whole {excess : Excess} {value : Nat} (any : Bool) (ds : Digits)
    (rest : List Char) (hvalue : value < bound) :
    readDigits excess value 0 false any (ds.chars ++ rest) =
      if value * 10 ^ ds.length + ds.value < bound then
        readDigits excess (value * 10 ^ ds.length + ds.value) 0 false (any || !ds.isEmpty) rest
      else .error .tooManyDigits := by
  induction ds generalizing value any with
  | nil => simp [hvalue]
  | cons d ds ih =>
    have hsplit : value * 10 ^ (d :: ds).length + Digits.value (d :: ds) =
        (value * 10 + d) * 10 ^ ds.length + Digits.value ds := by
      rw [Digits.value_cons, List.length_cons]
      ring
    rw [Digits.chars_cons, List.cons_append, hsplit]
    by_cases hd : value * 10 + d < bound
    · rw [readDigits_digit (by decide) hd, if_neg Bool.false_ne_true, ih _ hd]
      simp
    · have hpow : 1 ≤ 10 ^ ds.length := Nat.one_le_pow _ _ (by decide)
      have hgrow : value * 10 + d ≤ (value * 10 + d) * 10 ^ ds.length :=
        Nat.le_mul_of_pos_right _ (by omega)
      have hmax : ¬ maxScale ≤ 0 := by decide
      rw [if_neg (by omega), readDigits, digit?_digitChar]
      simp [hd, hmax]

/-- Fraction digits go in as long as a decimal has room for them. -/
theorem readDigits_places {excess : Excess} {value scale : Nat} (any : Bool) (ds : Digits)
    (rest : List Char) (hscale : scale + ds.length ≤ maxScale)
    (hvalue : value * 10 ^ ds.length + ds.value < bound) :
    readDigits excess value scale true any (ds.chars ++ rest) =
      readDigits excess (value * 10 ^ ds.length + ds.value) (scale + ds.length) true
        (any || !ds.isEmpty) rest := by
  induction ds generalizing value scale any with
  | nil => simp
  | cons d ds ih =>
    have hsplit : value * 10 ^ (d :: ds).length + Digits.value (d :: ds) =
        (value * 10 + d) * 10 ^ ds.length + Digits.value ds := by
      rw [Digits.value_cons, List.length_cons]
      ring
    have hpow : 1 ≤ 10 ^ ds.length := Nat.one_le_pow _ _ (by decide)
    have hgrow : value * 10 + d ≤ (value * 10 + d) * 10 ^ ds.length :=
      Nat.le_mul_of_pos_right _ (by omega)
    rw [List.length_cons] at hscale
    rw [hsplit] at hvalue ⊢
    have hstep : scale + 1 + ds.length = scale + (d :: ds).length := by
      rw [List.length_cons]
      omega
    rw [Digits.chars_cons, List.cons_append, readDigits_digit (by omega) (by omega), if_pos rfl,
      ih _ (by omega) hvalue, hstep]
    simp

/-- The point ends the whole digits. -/
theorem readDigits_point (excess : Excess) (value : Nat) (any : Bool) (rest : List Char) :
    readDigits excess value 0 false any ('.' :: rest) =
      readDigits excess value 0 true any rest := by
  have hdot : digit? '.' = none := rfl
  rw [readDigits, if_neg (by decide), hdot]
  simp

/-- The first fraction digit that there is no room for. -/
theorem readDigits_excess {excess : Excess} {value scale : Nat} {any : Bool} {d : Fin 10}
    (h : ¬ (scale + 1 ≤ maxScale ∧ value * 10 + d < bound)) (rest : List Char) :
    readDigits excess value scale true any (Nat.digitChar d :: rest) =
      cutOff excess value scale (Nat.digitChar d) rest := by
  rw [readDigits, digit?_digitChar]
  by_cases hscale : scale ≥ maxScale
  · rw [if_pos hscale]
  · have hvalue : ¬ value * 10 + d < bound := fun hlt => h ⟨by omega, hlt⟩
    rw [if_neg hscale]
    simp [hvalue]

theorem checkTail_chars (ds : Digits) : checkTail ds.chars = .ok () := by
  induction ds with
  | nil => rfl
  | cons d ds ih => simp [checkTail, digit?_digitChar, ih]

/-- **The digits of a numeral.** All that a decimal has room for go in; the next one is the first
to be cut off. -/
theorem readDigits_body (excess : Excess) (p : PlainNumeral) :
    readDigits excess 0 0 false false p.body =
      if p.Fits 0 then
        match p.excess with
        | [] => .ok (p.valueAt p.kept, p.kept)
        | d :: ds => cutOff excess (p.valueAt p.kept) p.kept (Nat.digitChar d) (Digits.chars ds)
      else .error .tooManyDigits := by
  have hwhole : 0 * 10 ^ p.whole.length + p.whole.value = p.valueAt 0 := by
    simp [PlainNumeral.valueAt]
  have hfits : p.Fits 0 ↔ p.valueAt 0 < bound := and_iff_right (Nat.zero_le _)
  rw [PlainNumeral.body, readDigits_whole false p.whole _ (by decide), hwhole]
  -- A number that is too large is one before any fraction digit is read; else the split is at the
  -- point, since the room for digits is counted from there.
  by_cases h : p.Fits 0
  · rw [if_pos h, if_pos (hfits.mp h)]
    cases hfraction : p.fraction with
    | none =>
      have hplaces : p.places = [] := by rw [PlainNumeral.places, hfraction]; rfl
      have hkept : p.kept = 0 := by simp [PlainNumeral.kept, hplaces]
      have hexcess : p.excess = [] := by simp [PlainNumeral.excess, hplaces]
      have hsome : p.whole ≠ [] := by simpa [hfraction] using p.some_digit
      rw [hexcess, hkept]
      simp [readDigits, hsome]
    | some places =>
      have hplaces : p.places = places := by rw [PlainNumeral.places, hfraction]; rfl
      have hsome : p.whole ++ p.places ≠ [] := p.some_digit
      have hkept := PlainNumeral.fits_kept h
      have htake : (p.places.take p.kept).length = p.kept :=
        List.length_take_of_le PlainNumeral.kept_le_length
      have hvalue : p.valueAt 0 * 10 ^ (p.places.take p.kept).length +
          Digits.value (p.places.take p.kept) = p.valueAt p.kept := by
        simp only [PlainNumeral.valueAt, List.take_zero, List.append_nil, Digits.value_append]
      have hsplit : Digits.chars places =
          Digits.chars (p.places.take p.kept) ++ Digits.chars p.excess := by
        rw [← Digits.chars_append, PlainNumeral.excess, List.take_append_drop, hplaces]
      simp only [Option.elim_some, Bool.false_or]
      rw [readDigits_point, hsplit, readDigits_places _ _ _ (by rw [htake]; have := hkept.1; omega)
        (by rw [hvalue]; exact hkept.2), hvalue, htake, Nat.zero_add]
      -- What is left is empty, or begins with the digit at which the reader has to cut off: with
      -- one place more the number would not fit.
      cases hexcess : p.excess with
      | nil =>
        have hall : p.places.take p.kept = p.places := by
          rw [← List.append_nil (p.places.take p.kept), ← hexcess, PlainNumeral.excess,
            List.take_append_drop]
        have hany : (!p.whole.isEmpty || !(p.places).isEmpty) = true := by
          rw [Ne, List.append_eq_nil_iff] at hsome
          simpa [imp_iff_not_or] using hsome
        rw [hall, hany]
        simp [readDigits]
      | cons d ds =>
        have hnot := PlainNumeral.not_fits_succ hexcess
        rw [PlainNumeral.Fits, PlainNumeral.valueAt_succ hexcess] at hnot
        rw [Digits.chars_cons, readDigits_excess hnot]
  · rw [if_neg h, if_neg (mt hfits.mpr h)]

/-! ## Nothing else is read -/

/-- A text without separators whose digits have been checked consists of digits. -/
theorem exists_chars_of_checkTail {cs : List Char} (h : checkTail cs = .ok ())
    (hsep : '_' ∉ cs) : ∃ ds : Digits, cs = ds.chars := by
  induction cs with
  | nil => exact ⟨[], rfl⟩
  | cons c rest ih =>
    obtain ⟨hc, hrest⟩ := not_or.mp (mt List.mem_cons.mpr hsep)
    unfold checkTail at h
    split at h
    · rename_i hdigit
      simp only [Ne.symm hc, decide_false, Bool.or_false, Option.isSome_iff_exists] at hdigit
      obtain ⟨n, hn⟩ := hdigit
      obtain ⟨d, rfl, -⟩ := exists_of_digit? hn
      obtain ⟨ds, rfl⟩ := ih h hrest
      exact ⟨d :: ds, rfl⟩
    · cases h

theorem exists_chars_of_cutOff {excess : Excess} {value scale : Nat} {c : Char}
    {rest : List Char} {r : Nat × Nat} (h : cutOff excess value scale c rest = .ok r)
    (hsep : '_' ∉ c :: rest) : ∃ ds : Digits, c :: rest = ds.chars ∧ ds ≠ [] := by
  obtain ⟨hc, hrest⟩ := not_or.mp (mt List.mem_cons.mpr hsep)
  unfold cutOff at h
  split at h
  · cases h
  · split at h
    · rename_i next hnext
      obtain ⟨d, rfl, -⟩ := exists_of_digit? hnext
      obtain ⟨_, htail, -⟩ := bind_eq_ok.mp h
      obtain ⟨ds, rfl⟩ := exists_chars_of_checkTail htail hrest
      exact ⟨d :: ds, rfl, List.cons_ne_nil _ _⟩
    · rw [if_neg (Ne.symm hc)] at h
      cases h

/-- Behind the point there are only digits. -/
theorem exists_places_of_readDigits {excess : Excess} {value scale : Nat} {any : Bool}
    {cs : List Char} {r : Nat × Nat} (h : readDigits excess value scale true any cs = .ok r)
    (hsep : '_' ∉ cs) : ∃ ds : Digits, cs = ds.chars ∧ (any = true ∨ ds ≠ []) := by
  induction cs generalizing value scale any with
  | nil =>
    unfold readDigits at h
    split at h
    · rename_i hany
      exact ⟨[], rfl, .inl hany⟩
    · cases h
  | cons c rest ih =>
    have hcut : cutOff excess value scale c rest = .ok r →
        ∃ ds : Digits, c :: rest = ds.chars ∧ (any = true ∨ ds ≠ []) := fun hcut =>
      let ⟨ds, hds, hne⟩ := exists_chars_of_cutOff hcut hsep
      ⟨ds, hds, .inr hne⟩
    obtain ⟨hc, hrest⟩ := not_or.mp (mt List.mem_cons.mpr hsep)
    unfold readDigits at h
    split at h
    · exact hcut h
    · split at h
      · rename_i n hn
        split at h
        · obtain ⟨d, rfl, -⟩ := exists_of_digit? hn
          obtain ⟨ds, rfl, -⟩ := ih h hrest
          exact ⟨d :: ds, rfl, .inr (List.cons_ne_nil _ _)⟩
        · exact hcut h
      · simp [Ne.symm hc] at h

/-- Digits, and perhaps a point and more digits. -/
theorem exists_body_of_readDigits {excess : Excess} {value : Nat} {any : Bool} {cs : List Char}
    {r : Nat × Nat} (h : readDigits excess value 0 false any cs = .ok r) (hsep : '_' ∉ cs) :
    ∃ (ds : Digits) (places : Option Digits),
      cs = ds.chars ++ (places.elim [] fun more => '.' :: more.chars) ∧
        (any = true ∨ ds ++ places.getD [] ≠ []) := by
  induction cs generalizing value any with
  | nil =>
    unfold readDigits at h
    split at h
    · rename_i hany
      exact ⟨[], none, rfl, .inl hany⟩
    · cases h
  | cons c rest ih =>
    obtain ⟨hc, hrest⟩ := not_or.mp (mt List.mem_cons.mpr hsep)
    have hmax : ¬ 0 ≥ maxScale := by decide
    rw [readDigits, if_neg hmax] at h
    split at h
    · rename_i n hn
      split at h
      · obtain ⟨d, rfl, -⟩ := exists_of_digit? hn
        obtain ⟨ds, places, rfl, -⟩ := ih h hrest
        exact ⟨d :: ds, places, rfl, .inr (by simp)⟩
      · cases h
    · split at h
      · rename_i hpoint
        obtain ⟨rfl, -⟩ := hpoint
        obtain ⟨places, rfl, hany⟩ := exists_places_of_readDigits h hrest
        exact ⟨[], some places, rfl, hany⟩
      · rw [if_neg (fun hsep => hc hsep.1.symm)] at h
        cases h

/-! ## Signs -/

theorem splitSign_chars (p : PlainNumeral) :
    splitSign p.chars = (decide (p.sign = .minus), p.body) := by
  unfold PlainNumeral.chars
  cases hsign : p.sign with
  | plus => rfl
  | minus => rfl
  | none =>
    show splitSign p.body = (false, p.body)
    -- A body begins with a digit or with the point.
    have hhead : ∀ c rest, p.body = c :: rest → c ≠ '-' ∧ c ≠ '+' := by
      intro c rest hbody
      unfold PlainNumeral.body at hbody
      cases hwhole : p.whole with
      | cons d ds =>
        rw [hwhole, Digits.chars_cons, List.cons_append] at hbody
        obtain ⟨rfl, -⟩ := List.cons.inj hbody
        exact ⟨digitChar_ne rfl d, digitChar_ne rfl d⟩
      | nil =>
        cases hfraction : p.fraction with
        | none => simp [hwhole, hfraction] at hbody
        | some places =>
          rw [hwhole, hfraction] at hbody
          obtain ⟨rfl, -⟩ := List.cons.inj hbody
          decide
    unfold splitSign
    split
    · rename_i rest hbody
      exact absurd rfl (hhead _ _ hbody).1
    · rename_i rest hbody
      exact absurd rfl (hhead _ _ hbody).2
    · rfl

theorem exists_of_splitSign {cs rest : List Char} {negative : Bool}
    (h : splitSign cs = (negative, rest)) : ∃ sign : Sign, cs = sign.chars ++ rest := by
  unfold splitSign at h
  split at h <;> obtain ⟨-, rfl⟩ := Prod.mk.inj h
  · exact ⟨.minus, rfl⟩
  · exact ⟨.plus, rfl⟩
  · exact ⟨.none, rfl⟩

/-! ## Plain numerals -/

theorem ofDigits?_eq_some {negative : Bool} {n scale : Nat} {d : Decimal} :
    ofDigits? negative n scale = some d ↔ d.mantissa = signed negative n ∧ d.scale = scale := by
  unfold ofDigits?
  split
  · rw [Option.some.injEq]
    constructor
    · rintro rfl
      exact ⟨rfl, rfl⟩
    · rintro ⟨hmantissa, rfl⟩
      cases d
      simp only [mk.injEq, and_true]
      exact hmantissa.symm
  · rename_i hrange
    simp only [reduceCtorEq, false_iff]
    rintro ⟨hmantissa, rfl⟩
    have hlt := d.mantissa_lt
    rw [hmantissa, natAbs_signed] at hlt
    exact hrange ⟨hlt, d.scale_le⟩

theorem isEmpty_chars (p : PlainNumeral) : p.chars.isEmpty = false := by
  rw [List.isEmpty_eq_false_iff]
  intro hnil
  obtain ⟨hwhole, hfraction⟩ := List.append_eq_nil_iff.mp (List.append_eq_nil_iff.mp hnil).2
  refine p.some_digit (List.append_eq_nil_iff.mpr ⟨List.map_eq_nil_iff.mp hwhole, ?_⟩)
  cases h : p.fraction with
  | none => rfl
  | some places => simp [h] at hfraction

theorem readPlain_chars_eq_ok {excess : Excess} {p : PlainNumeral} {d : Decimal} :
    readPlain excess p.chars = .ok d ↔ ∃ value scale,
      readDigits excess 0 0 false false p.body = .ok (value, scale) ∧
        d.mantissa = signed (p.sign = .minus) value ∧ d.scale = scale := by
  unfold readPlain
  rw [isEmpty_chars, if_neg Bool.false_ne_true, splitSign_chars, bind_eq_ok, Prod.exists]
  refine exists₂_congr fun value scale => and_congr_right fun _ => ?_
  rw [← ofDigits?_eq_some]
  cases hdecimal : ofDigits? (decide (p.sign = .minus)) value scale <;> simp [hdecimal]

/-- **Nothing but numerals is read** from texts without separators. -/
theorem exists_of_readPlain {excess : Excess} {cs : List Char} {d : Decimal}
    (h : readPlain excess cs = .ok d) (hsep : '_' ∉ cs) : ∃ p : PlainNumeral, p.chars = cs := by
  unfold readPlain at h
  split at h
  · cases h
  · cases hsplit : splitSign cs with
    | mk negative rest =>
      rw [hsplit] at h
      obtain ⟨_, hdigits, -⟩ := bind_eq_ok.mp h
      obtain ⟨sign, rfl⟩ := exists_of_splitSign hsplit
      have hrest : '_' ∉ rest := fun hmem => hsep (List.mem_append_right _ hmem)
      obtain ⟨whole, fraction, rfl, hany⟩ := exists_body_of_readDigits hdigits hrest
      exact ⟨⟨sign, whole, fraction, by simpa using hany⟩, rfl⟩

/-- A numeral of which nothing is cut off gives its own digits and scale. -/
theorem readPlain_chars_of_fits {excess : Excess} {p : PlainNumeral} (hfits : p.Fits 0)
    (hexcess : p.excess = []) {d : Decimal} :
    readPlain excess p.chars = .ok d ↔
      d.mantissa = p.mantissa ∧ d.scale = p.places.length := by
  have hvalue := p.value_eq
  have hlength := p.length_places
  simp only [hexcess, List.length_nil, Nat.pow_zero, Nat.mul_one, Digits.value_nil,
    Nat.add_zero] at hvalue hlength
  rw [readPlain_chars_eq_ok]
  simp [readDigits_body, hexcess, hfits, PlainNumeral.mantissa, hvalue, hlength, eq_comm, and_comm]

/-- **Reading exactly.** A numeral gives its own digits and scale, or nothing. -/
theorem readExact_chars_eq_ok {p : PlainNumeral} {d : Decimal} :
    readExact p.chars = .ok d ↔
      (p.Fits 0 ∧ p.excess = []) ∧ d.mantissa = p.mantissa ∧ d.scale = p.places.length := by
  unfold readExact
  by_cases hfits : p.Fits 0
  · cases hexcess : p.excess with
    | nil => simp [readPlain_chars_of_fits hfits hexcess, hfits]
    | cons x xs => simp [readPlain_chars_eq_ok, readDigits_body, hexcess, hfits, cutOff]
  · simp [readPlain_chars_eq_ok, readDigits_body, hfits]

theorem toRat_eq_of_readExact {p : PlainNumeral} {d : Decimal} (h : readExact p.chars = .ok d) :
    d.toRat = p.toRat := by
  obtain ⟨-, hmantissa, hscale⟩ := readExact_chars_eq_ok.mp h
  rw [toRat, PlainNumeral.toRat, hmantissa, hscale]

/-! ## Rounding -/

/-- Rounding adds units of the last place, none exactly if the next digit is below five. -/
theorem exists_of_roundUpTo {value scale next v s : Nat} (hvalue : value < bound)
    (h : roundUpTo value scale next = .ok (v, s)) :
    ∃ units, v * 10 ^ scale = (value + units) * 10 ^ s ∧ (units = 0 ↔ next < 5) := by
  unfold roundUpTo at h
  split at h
  · rename_i hnext
    obtain ⟨rfl, rfl⟩ := Prod.mk.inj (Except.ok.inj h)
    exact ⟨0, rfl, by simpa using hnext⟩
  · rename_i hnext
    split at h
    · obtain ⟨rfl, rfl⟩ := Prod.mk.inj (Except.ok.inj h)
      exact ⟨1, rfl, by simpa using hnext⟩
    · split at h
      · cases h
      · rename_i hroom hscale
        obtain ⟨rfl, rfl⟩ := Prod.mk.inj (Except.ok.inj h)
        -- The next integer is `2 ^ 96`, which ends in the digit six.
        have hbound : bound = 79228162514264337593543950336 := rfl
        have hunits : value + 5 = (value + 5) / 10 * 10 := by omega
        have hpow : 10 ^ scale = 10 * 10 ^ (scale - 1) := by
          rw [← Nat.pow_succ']
          congr 1
          omega
        refine ⟨5, ?_, by omega⟩
        rw [hpow, ← Nat.mul_assoc, ← hunits]

theorem signed_div_eq_iff {negative : Bool} {a b s t : Nat} :
    (signed negative a : ℚ) / 10 ^ s = signed negative b / 10 ^ t ↔ a * 10 ^ t = b * 10 ^ s := by
  rw [div_eq_div_iff (by positivity) (by positivity)]
  cases negative <;> simp only [signed, if_true, Bool.false_eq_true, if_false] <;> push_cast
  · exact_mod_cast Iff.rfl
  · rw [neg_mul, neg_mul, neg_inj]
    exact_mod_cast Iff.rfl

/-- **Reading with rounding** keeps the value of a numeral exactly if all that it cuts off is
zeros. -/
theorem toRat_eq_iff_of_readRounded {p : PlainNumeral} {d : Decimal}
    (h : readRounded p.chars = .ok d) : d.toRat = p.toRat ↔ ∀ x ∈ p.excess, x = 0 := by
  obtain ⟨value, scale, hread, hmantissa, hscale⟩ := readPlain_chars_eq_ok.mp h
  rw [toRat, PlainNumeral.toRat, hmantissa, hscale, PlainNumeral.mantissa, signed_div_eq_iff,
    p.value_eq, p.length_places, ← Digits.value_eq_zero]
  rw [readDigits_body] at hread
  split at hread
  · rename_i hfits
    cases hexcess : p.excess with
    | nil =>
      simp only [hexcess, Except.ok.injEq, Prod.mk.injEq] at hread
      obtain ⟨rfl, rfl⟩ := hread
      simp
    | cons x xs =>
      simp only [hexcess, cutOff, digit?_digitChar, checkTail_chars] at hread
      obtain ⟨_, -, hround⟩ := bind_eq_ok.mp hread
      obtain ⟨units, hunits, hzero⟩ :=
        exists_of_roundUpTo (PlainNumeral.fits_kept hfits).2 hround
      have hpow : 0 < 10 ^ scale := by positivity
      have hlt := Digits.value_lt (x :: xs)
      have hcons := Digits.value_cons x xs
      have hleft : value * 10 ^ (p.kept + (x :: xs).length) =
          (p.valueAt p.kept * 10 ^ (x :: xs).length + units * 10 ^ (x :: xs).length) *
            10 ^ scale := by
        rw [Nat.pow_add, ← Nat.mul_assoc, hunits]
        ring
      rw [hleft, Nat.mul_left_inj (by omega), Nat.add_left_cancel_iff]
      constructor
      · intro heq
        have hnone : units = 0 := by
          by_contra hne
          have := Nat.le_mul_of_pos_left (10 ^ (x :: xs).length) (Nat.pos_of_ne_zero hne)
          omega
        rw [← heq, hnone, Nat.zero_mul]
      · intro hvalue
        have hx : (x : Nat) = 0 := by
          rw [Digits.value_eq_zero] at hvalue
          rw [hvalue x List.mem_cons_self]
          rfl
        rw [hvalue, hzero.mpr (by omega), Nat.zero_mul]
  · cases hread

end MarketFeed.Decimal
