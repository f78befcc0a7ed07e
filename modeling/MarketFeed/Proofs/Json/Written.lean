import MarketFeed.Json.Write
import MarketFeed.Proofs.Json.Members
import MarketFeed.Proofs.Text.Utf8

/-!
# Written strings and numbers

The octets of a written string mean the characters that were written: a quote, a backslash and a
control character become escapes, all else is UTF-8 without an octet that could be taken for a
quote or an escape. The octets of a written integer are digits without a zero in front, which are
read in full.

* `octetsOf`: the octets of some characters.
* `writtenChar_cases`, `denotes_written`: a written character, and all those of a string.
* `Number.IsWritten`, `readNumber_written`: numbers that are written as what they are.
-/

namespace MarketFeed.Json

/-- The octets of some characters. -/
def octetsOf (cs : List Char) : Octets := cs.flatMap Text.encodeChar

@[simp] theorem octetsOf_nil : octetsOf [] = [] := rfl

@[simp] theorem octetsOf_cons (c : Char) (cs : List Char) :
    octetsOf (c :: cs) = Text.encodeChar c ++ octetsOf cs := rfl

@[simp] theorem octetsOf_append (cs ds : List Char) :
    octetsOf (cs ++ ds) = octetsOf cs ++ octetsOf ds := List.flatMap_append

/-! ## Strings -/

theorem isPlain_of_ascii {n : Nat} (hlo : 0x20 ≤ n) (hhi : n < 0x80) (hquote : n ≠ 0x22)
    (hslash : n ≠ 0x5c) : IsPlain (UInt8.ofNat n) := by
  have hne : ∀ k, k < 256 → n ≠ k → UInt8.ofNat n ≠ UInt8.ofNat k := by
    intro k hk hne heq
    have hnat := congrArg UInt8.toNat heq
    rw [Text.toNat_ofNat (by omega), Text.toNat_ofNat hk] at hnat
    exact hne hnat
  exact ⟨(Text.ofNat_le_iff 0x20 n (by decide) (by omega)).mpr hlo,
    hne 0x22 (by decide) hquote, hne 0x5c (by decide) hslash⟩

theorem isPlain_of_le {b : UInt8} (h : 0x80 ≤ b) : IsPlain b := by
  refine ⟨UInt8.le_trans (by decide : (0x20 : UInt8) ≤ 0x80) h, ?_, ?_⟩
  · rintro rfl
    exact absurd h (by decide)
  · rintro rfl
    exact absurd h (by decide)

/-- A character that is written as it is has octets that stand for themselves. -/
theorem isPlain_of_mem_encodeChar {c : Char} (hlo : 0x20 ≤ c.toNat) (hquote : c ≠ '"')
    (hslash : c ≠ '\\') : ∀ b ∈ Text.encodeChar c, IsPlain b := by
  have hne : ∀ d : Char, c ≠ d → c.toNat ≠ d.toNat :=
    fun d hne heq => hne (Char.toNat_inj.mp heq)
  by_cases hascii : c.toNat < 0x80
  · rw [Text.encodeChar_of_ascii hascii]
    exact List.forall_mem_singleton.mpr
      (isPlain_of_ascii hlo hascii (hne '"' hquote) (hne '\\' hslash))
  · exact fun b hb => isPlain_of_le (Text.le_of_mem_encodeChar (by omega) b hb)

/-- A control character is written as an escape with its code point. -/
theorem escaped_control : ∀ n < 0x20, Escaped
    (octetsOf ['\\', 'u', '0', '0', Nat.digitChar (n / 16), Nat.digitChar (n % 16)])
    (Char.ofNat n) := by
  intro n hn
  have hoctets : ∀ n < 0x20,
      octetsOf ['\\', 'u', '0', '0', Nat.digitChar (n / 16), Nat.digitChar (n % 16)] =
        [0x5c, 0x75, 0x30, 0x30, UInt8.ofNat (Nat.digitChar (n / 16)).toNat,
          UInt8.ofNat (Nat.digitChar (n % 16)).toNat] := by decide
  have hvalue : ∀ n < 0x20, hexValue? [0x30, 0x30, UInt8.ofNat (Nat.digitChar (n / 16)).toNat,
      UInt8.ofNat (Nat.digitChar (n % 16)).toNat] = some n := by decide
  have hhalves : isHighHalf n = false ∧ isLowHalf n = false := by
    simp only [isHighHalf, isLowHalf, Bool.and_eq_false_iff, decide_eq_false_iff_not]
    omega
  rw [hoctets n hn]
  exact .unit (hvalue n hn) hhalves.1 hhalves.2

/-- A character is written as it is, or as an escape that means it. -/
theorem writtenChar_cases (c : Char) :
    (writtenChar c = [c] ∧ ∀ b ∈ Text.encodeChar c, IsPlain b) ∨
      Escaped (octetsOf (writtenChar c)) c := by
  unfold writtenChar
  split_ifs with hquote hslash hback hfeed hline hreturn htab hcontrol
  · subst hquote
    exact .inr (.short (by decide : shortEscape? 0x22 = some '"'))
  · subst hslash
    exact .inr (.short (by decide : shortEscape? 0x5c = some '\\'))
  · subst hback
    exact .inr (.short (by decide : shortEscape? 0x62 = some '\x08'))
  · subst hfeed
    exact .inr (.short (by decide : shortEscape? 0x66 = some '\x0c'))
  · subst hline
    exact .inr (.short (by decide : shortEscape? 0x6e = some '\n'))
  · subst hreturn
    exact .inr (.short (by decide : shortEscape? 0x72 = some '\r'))
  · subst htab
    exact .inr (.short (by decide : shortEscape? 0x74 = some '\t'))
  · have h := escaped_control c.toNat hcontrol
    rw [Char.ofNat_toNat] at h
    exact .inr h
  · exact .inl ⟨rfl, isPlain_of_mem_encodeChar (by omega) hquote hslash⟩

/-- What stands between the quotes of a written string means its characters. The characters before
the first escape are gathered, since it is a whole stretch of them that is decoded. -/
theorem denotes_written (cs : List Char) :
    Denotes (octetsOf (cs.flatMap writtenChar)) cs := by
  have hgathered : ∀ ps : List Char, (∀ b ∈ octetsOf ps, IsPlain b) →
      Denotes (octetsOf ps ++ octetsOf (cs.flatMap writtenChar)) (ps ++ cs) := by
    induction cs with
    | nil =>
      intro ps hps
      simpa using Denotes.plain hps (Text.decode?_encodeChars ps)
    | cons c cs ih =>
      intro ps hps
      rw [List.flatMap_cons, octetsOf_append, ← List.append_assoc]
      rcases writtenChar_cases c with ⟨hwritten, hplain⟩ | hescaped
      · have hmore := ih (ps ++ [c]) (by
          rw [octetsOf_append]
          exact List.forall_mem_append.mpr ⟨hps, by simpa using hplain⟩)
        rw [hwritten]
        simpa using hmore
      · exact .escape hps (Text.decode?_encodeChars ps) hescaped
          (by simpa using ih [] (List.forall_mem_nil _))
  simpa using hgathered [] (List.forall_mem_nil _)

/-- The octets between the quotes of a written string. -/
def bodyOf (s : String) : Octets := octetsOf (s.toList.flatMap writtenChar)

theorem denotes_bodyOf (s : String) : Denotes (bodyOf s) s.toList := denotes_written s.toList

theorem octetsOf_writtenString (s : String) :
    octetsOf (writtenString s) = 0x22 :: (bodyOf s ++ [0x22]) := by
  rw [writtenString, octetsOf_cons, octetsOf_append]
  rfl

/-! ## Numbers -/

/-- The digits of a natural number. -/
def digitsOf (n : Nat) : Octets := octetsOf (Nat.toDigits 10 n)

theorem octetsOf_digitChar : ∀ d < 10, octetsOf [Nat.digitChar d] = [UInt8.ofNat (0x30 + d)] := by
  decide

theorem digitsOf_of_lt {n : Nat} (h : n < 10) : digitsOf n = [UInt8.ofNat (0x30 + n)] := by
  rw [digitsOf, Nat.toDigits_of_lt_base h, octetsOf_digitChar n h]

theorem digitsOf_of_le {n : Nat} (h : 10 ≤ n) :
    digitsOf n = digitsOf (n / 10) ++ [UInt8.ofNat (0x30 + n % 10)] := by
  rw [digitsOf, Nat.toDigits_of_base_le (by decide) h, octetsOf_append,
    octetsOf_digitChar (n % 10) (Nat.mod_lt n (by decide)), digitsOf]

theorem isDigit_ofNat : ∀ d < 10, isDigit (UInt8.ofNat (0x30 + d)) = true := by decide

theorem isDigits_digitsOf (n : Nat) : IsDigits (digitsOf n) := by
  induction n using Nat.strong_induction_on with
  | _ n ih =>
    by_cases hn : n < 10
    · rw [digitsOf_of_lt hn]
      exact ⟨by simp, List.forall_mem_singleton.mpr (isDigit_ofNat n hn)⟩
    · rw [digitsOf_of_le (by omega)]
      have hlast := isDigit_ofNat (n % 10) (Nat.mod_lt n (by decide))
      exact ⟨by simp, List.forall_mem_append.mpr
        ⟨(ih (n / 10) (by omega)).2, List.forall_mem_singleton.mpr hlast⟩⟩

/-- Only zero is written with a zero in front. -/
theorem eq_zero_of_head?_digitsOf {n : Nat} (h : (digitsOf n).head? = some 0x30) : n = 0 := by
  induction n using Nat.strong_induction_on with
  | _ n ih =>
    by_cases hn : n < 10
    · rw [digitsOf_of_lt hn] at h
      have hnat := congrArg UInt8.toNat (Option.some.inj h)
      rw [Text.toNat_ofNat (by omega)] at hnat
      have hzero : (0x30 : UInt8).toNat = 0x30 := rfl
      omega
    · rw [digitsOf_of_le (by omega), List.head?_append_of_ne_nil _ (isDigits_digitsOf _).1] at h
      have hzero := ih (n / 10) (by omega) h
      omega

theorem isWhole_digitsOf (n : Nat) : IsWhole (digitsOf n) := by
  refine ⟨isDigits_digitsOf n, fun hhead => ?_⟩
  rw [eq_zero_of_head?_digitsOf hhead]
  rfl

theorem absorb_append {limit m n : Nat} {ds : Octets} (h : absorb limit m ds = (n, []))
    (more : Octets) : absorb limit m (ds ++ more) = absorb limit n more := by
  induction ds generalizing m with
  | nil =>
    cases h
    rfl
  | cons d ds ih =>
    simp only [absorb] at h
    split_ifs at h with hfits
    · rw [List.cons_append, absorb, if_pos hfits, ih h]
    · cases h

theorem absorb_digit {limit m d : Nat} (hd : d < 10) (h : 10 * m + d < limit) :
    absorb limit m [UInt8.ofNat (0x30 + d)] = (10 * m + d, []) := by
  simp only [absorb]
  rw [Text.toNat_ofNat (by omega), Nat.add_sub_cancel_left, if_pos h]

/-- All digits of a number below the limit fit. -/
theorem absorb_digitsOf {limit n : Nat} (h : n < limit) :
    absorb limit 0 (digitsOf n) = (n, []) := by
  induction n using Nat.strong_induction_on with
  | _ n ih =>
    by_cases hn : n < 10
    · rw [digitsOf_of_lt hn, absorb_digit hn (by omega), Nat.mul_zero, Nat.zero_add]
    · have hsum : 10 * (n / 10) + n % 10 = n := Nat.div_add_mod n 10
      rw [digitsOf_of_le (by omega), absorb_append (ih (n / 10) (by omega) (by omega)),
        absorb_digit (Nat.mod_lt n (by decide)) (by omega), hsum]

/-- Digits that fit, up to the end of a value, are an integer. -/
theorem readNumber_digitsOf (positive : Bool) {n : Nat} (h : n < UInt64.size) {rest : Octets}
    (hrest : Ends rest) :
    readNumber positive (digitsOf n ++ rest) = .ok (integerNumber positive n, rest) := by
  obtain ⟨hdigits, hzero⟩ := isWhole_digitsOf n
  have hsplit : splitDigits (digitsOf n ++ rest) = (digitsOf n, rest) := by
    rw [splitDigits, takeWhile_digits hdigits.2 hrest.noDigit,
      dropWhile_digits hdigits.2 hrest.noDigit]
  have habsorb := absorb_digitsOf h
  obtain ⟨d, more, hds, hd, -⟩ := hdigits.exists_cons
  have hfirst : ¬ (d = 0x30 ∧ (more ++ rest).head?.any isDigit = true) := by
    rintro ⟨rfl, hany⟩
    rw [hds] at hzero
    obtain rfl : more = [] := (List.cons.inj (hzero rfl)).2
    rw [List.nil_append, hrest.noDigit] at hany
    cases hany
  rw [hds, List.cons_append] at hsplit ⊢
  rw [hds] at habsorb
  simp only [readNumber, hd, Bool.not_true, Bool.false_eq_true, ↓reduceIte, hfirst, hsplit, habsorb]
  cases rest with
  | nil => rfl
  | cons b rest => simp [hrest.not_number.2.1, hrest.not_number.2.2]

/-- A number that is written as the integer that it is. -/
inductive Number.IsWritten : Number → Prop where
  | natural {n : Nat} (h : n < UInt64.size) : IsWritten (.natural n)
  | negative {n : Nat} (hpos : 0 < n) (hle : n ≤ 2 ^ 63) : IsWritten (.negative (-(n : Int)))

theorem octetsOf_natural (n : Nat) : octetsOf (Number.natural n).written = digitsOf n := by
  rw [Number.written, Nat.repr, String.toList_ofList, digitsOf]

theorem octetsOf_negative {n : Nat} (h : 0 < n) :
    octetsOf (Number.negative (-(n : Int))).written = 0x2d :: digitsOf n := by
  cases n with
  | zero => cases h
  | succ n =>
    rw [Number.written, show (-((n + 1 : Nat) : Int)).repr = "-" ++ (n + 1).repr from rfl,
      String.toList_append, octetsOf_append, digitsOf]
    simp only [Nat.repr, String.toList_ofList]
    rfl

/-- **A written number** is read back. -/
theorem readNumber_written {n : Number} (h : n.IsWritten) {rest : Octets} (hrest : Ends rest) :
    ∃ positive ds, octetsOf n.written = (if positive then ds else 0x2d :: ds) ∧ IsWhole ds ∧
      readNumber positive (ds ++ rest) = .ok (n, rest) := by
  cases h with
  | @natural n h =>
    exact ⟨true, digitsOf n, octetsOf_natural n, isWhole_digitsOf n,
      readNumber_digitsOf true h hrest⟩
  | @negative n hpos hle =>
    have hfits : n < UInt64.size := by
      have hsize : UInt64.size = 2 ^ 64 := rfl
      omega
    refine ⟨false, digitsOf n, octetsOf_negative hpos, isWhole_digitsOf n, ?_⟩
    rw [readNumber_digitsOf false hfits hrest, integerNumber, if_neg Bool.false_ne_true,
      if_pos ⟨hpos, hle⟩]

end MarketFeed.Json
