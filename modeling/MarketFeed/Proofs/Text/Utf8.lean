import Mathlib.Tactic.SplitIfs
import MarketFeed.Text.Utf8

/-!
# Characters as octets and back

Every text is decoded from its octets. A character takes one octet if it is an ASCII character;
octets of any other character are outside of ASCII, so that none of them can be taken for a mark
between texts.

* `decodeChar?_encodeChar`: one character.
* `decode?_encodeChars`: a whole text.
-/

namespace MarketFeed.Text

/-! ## Octets of characters -/

theorem isValidChar_toNat (c : Char) : c.toNat.isValidChar := c.valid

theorem toNat_lt (c : Char) : c.toNat < 0x110000 := by
  have h := isValidChar_toNat c
  unfold Nat.isValidChar at h
  omega

theorem toNat_ofNat {n : Nat} (h : n < 256) : (UInt8.ofNat n).toNat = n :=
  UInt8.toNat_ofNat_of_lt' h

theorem ofNat_lt_iff (n k : Nat) (hn : n < 256) (hk : k < 256) :
    UInt8.ofNat n < UInt8.ofNat k ↔ n < k := by
  rw [UInt8.lt_iff_toNat_lt, toNat_ofNat hn, toNat_ofNat hk]

theorem ofNat_le_iff (n k : Nat) (hn : n < 256) (hk : k < 256) :
    UInt8.ofNat n ≤ UInt8.ofNat k ↔ n ≤ k := by
  rw [UInt8.le_iff_toNat_le, toNat_ofNat hn, toNat_ofNat hk]

theorem encodeChar_of_ascii {c : Char} (h : c.toNat < 0x80) :
    encodeChar c = [UInt8.ofNat c.toNat] := if_pos h

theorem encodeChar_ne_nil (c : Char) : encodeChar c ≠ [] := by
  unfold encodeChar
  dsimp only
  split_ifs <;> simp

/-- Beyond ASCII all octets of a character are. -/
theorem le_of_mem_encodeChar {c : Char} (h : 0x80 ≤ c.toNat) : ∀ b ∈ encodeChar c, 0x80 ≤ b := by
  have hlt := toNat_lt c
  have hle : ∀ n, 0x80 ≤ n → n < 256 → 0x80 ≤ UInt8.ofNat n :=
    fun n hlo hhi => (ofNat_le_iff 0x80 n (by decide) hhi).mpr hlo
  unfold encodeChar
  dsimp only
  split_ifs
  · omega
  · simp only [List.forall_mem_cons]
    exact ⟨hle _ (by omega) (by omega), hle _ (by omega) (by omega), List.forall_mem_nil _⟩
  · simp only [List.forall_mem_cons]
    exact ⟨hle _ (by omega) (by omega), hle _ (by omega) (by omega), hle _ (by omega) (by omega),
      List.forall_mem_nil _⟩
  · simp only [List.forall_mem_cons]
    exact ⟨hle _ (by omega) (by omega), hle _ (by omega) (by omega), hle _ (by omega) (by omega),
      hle _ (by omega) (by omega), List.forall_mem_nil _⟩

/-! ## Decoding -/

/-- Is an octet in a range? -/
theorem ofNat_mem_range_iff (lo n hi : Nat) (hlo : lo < 256) (hn : n < 256) (hhi : hi < 256) :
    UInt8.ofNat lo ≤ UInt8.ofNat n ∧ UInt8.ofNat n ≤ UInt8.ofNat hi ↔ lo ≤ n ∧ n ≤ hi := by
  rw [ofNat_le_iff lo n hlo hn, ofNat_le_iff n hi hn hhi]

theorem continuation?_ofNat (n : Nat) (h : n < 64) :
    continuation? (UInt8.ofNat (0x80 + n)) = some n := by
  have hrange : 0x80 ≤ UInt8.ofNat (0x80 + n) ∧ UInt8.ofNat (0x80 + n) ≤ 0xbf :=
    (ofNat_mem_range_iff 0x80 _ 0xbf (by decide) (by omega) (by decide)).mpr (by omega)
  unfold continuation?
  rw [if_pos hrange, toNat_ofNat (by omega), Nat.add_sub_cancel_left]

theorem scalar?_toNat {least : Nat} {c : Char} (h : least ≤ c.toNat) :
    scalar? least c.toNat = some c :=
  dif_pos ⟨h, isValidChar_toNat c⟩

section Octets

variable {n : Nat}

theorem decodeChar?_one (h : n < 0x80) (rest : List UInt8) :
    decodeChar? (UInt8.ofNat n :: rest) = some (Char.ofNat n, rest) := by
  have hfirst : UInt8.ofNat n < 0x80 := (ofNat_lt_iff n 0x80 (by omega) (by decide)).mpr h
  simp only [decodeChar?, if_pos hfirst, toNat_ofNat (show n < 256 by omega)]

theorem decodeChar?_two (hlo : 2 ≤ n) (hhi : n < 0x20) (b : UInt8) (rest : List UInt8) :
    decodeChar? (UInt8.ofNat (0xc0 + n) :: b :: rest) = (do
      let c ← scalar? 0x80 (n * 64 + (← continuation? b))
      some (c, rest)) := by
  have hascii : ¬ UInt8.ofNat (0xc0 + n) < 0x80 :=
    mt (ofNat_lt_iff _ 0x80 (by omega) (by decide)).mp (by omega)
  have hrange : 0xc2 ≤ UInt8.ofNat (0xc0 + n) ∧ UInt8.ofNat (0xc0 + n) ≤ 0xdf :=
    (ofNat_mem_range_iff 0xc2 _ 0xdf (by decide) (by omega) (by decide)).mpr (by omega)
  rw [decodeChar?, if_neg hascii, if_pos hrange, toNat_ofNat (by omega), Nat.add_sub_cancel_left]

theorem decodeChar?_three (h : n < 0x10) (b c : UInt8) (rest : List UInt8) :
    decodeChar? (UInt8.ofNat (0xe0 + n) :: b :: c :: rest) = (do
      let n := (n * 64 + (← continuation? b)) * 64 + (← continuation? c)
      some (← scalar? 0x800 n, rest)) := by
  have hascii : ¬ UInt8.ofNat (0xe0 + n) < 0x80 :=
    mt (ofNat_lt_iff _ 0x80 (by omega) (by decide)).mp (by omega)
  have htwo : ¬ (0xc2 ≤ UInt8.ofNat (0xe0 + n) ∧ UInt8.ofNat (0xe0 + n) ≤ 0xdf) :=
    mt (ofNat_mem_range_iff 0xc2 _ 0xdf (by decide) (by omega) (by decide)).mp (by omega)
  have hrange : 0xe0 ≤ UInt8.ofNat (0xe0 + n) ∧ UInt8.ofNat (0xe0 + n) ≤ 0xef :=
    (ofNat_mem_range_iff 0xe0 _ 0xef (by decide) (by omega) (by decide)).mpr (by omega)
  rw [decodeChar?, if_neg hascii, if_neg htwo, if_pos hrange, toNat_ofNat (by omega),
    Nat.add_sub_cancel_left]

theorem decodeChar?_four (h : n < 5) (b c d : UInt8) (rest : List UInt8) :
    decodeChar? (UInt8.ofNat (0xf0 + n) :: b :: c :: d :: rest) = (do
      let n := ((n * 64 + (← continuation? b)) * 64 + (← continuation? c)) * 64
        + (← continuation? d)
      some (← scalar? 0x10000 n, rest)) := by
  have hascii : ¬ UInt8.ofNat (0xf0 + n) < 0x80 :=
    mt (ofNat_lt_iff _ 0x80 (by omega) (by decide)).mp (by omega)
  have htwo : ¬ (0xc2 ≤ UInt8.ofNat (0xf0 + n) ∧ UInt8.ofNat (0xf0 + n) ≤ 0xdf) :=
    mt (ofNat_mem_range_iff 0xc2 _ 0xdf (by decide) (by omega) (by decide)).mp (by omega)
  have hthree : ¬ (0xe0 ≤ UInt8.ofNat (0xf0 + n) ∧ UInt8.ofNat (0xf0 + n) ≤ 0xef) :=
    mt (ofNat_mem_range_iff 0xe0 _ 0xef (by decide) (by omega) (by decide)).mp (by omega)
  have hrange : 0xf0 ≤ UInt8.ofNat (0xf0 + n) ∧ UInt8.ofNat (0xf0 + n) ≤ 0xf4 :=
    (ofNat_mem_range_iff 0xf0 _ 0xf4 (by decide) (by omega) (by decide)).mpr (by omega)
  rw [decodeChar?, if_neg hascii, if_neg htwo, if_neg hthree, if_pos hrange,
    toNat_ofNat (by omega), Nat.add_sub_cancel_left]

end Octets

/-- **A character is decoded from its octets**, by the cases of how many there are. -/
theorem decodeChar?_encodeChar (c : Char) (rest : List UInt8) :
    decodeChar? (encodeChar c ++ rest) = some (c, rest) := by
  have hlt := toNat_lt c
  unfold encodeChar
  dsimp only
  split_ifs with hone htwo hthree
  · rw [List.singleton_append, decodeChar?_one hone, Char.ofNat_toNat]
  · have hcode : c.toNat / 64 * 64 + c.toNat % 64 = c.toNat := by omega
    rw [List.cons_append, List.singleton_append, decodeChar?_two (by omega) (by omega),
      continuation?_ofNat (c.toNat % 64) (by omega)]
    simp [hcode, scalar?_toNat (by omega : 0x80 ≤ c.toNat)]
  · have hcode : (c.toNat / 4096 * 64 + c.toNat / 64 % 64) * 64 + c.toNat % 64 = c.toNat := by
      omega
    rw [List.cons_append, List.cons_append, List.singleton_append, decodeChar?_three (by omega),
      continuation?_ofNat (c.toNat / 64 % 64) (by omega),
      continuation?_ofNat (c.toNat % 64) (by omega)]
    simp [hcode, scalar?_toNat (by omega : 0x800 ≤ c.toNat)]
  · have hcode : ((c.toNat / 262144 * 64 + c.toNat / 4096 % 64) * 64 + c.toNat / 64 % 64) * 64 +
        c.toNat % 64 = c.toNat := by omega
    rw [List.cons_append, List.cons_append, List.cons_append, List.singleton_append,
      decodeChar?_four (by omega), continuation?_ofNat (c.toNat / 4096 % 64) (by omega),
      continuation?_ofNat (c.toNat / 64 % 64) (by omega),
      continuation?_ofNat (c.toNat % 64) (by omega)]
    simp [hcode, scalar?_toNat (by omega : 0x10000 ≤ c.toNat)]

theorem decodeWithin_encodeChars {cs : List Char} {fuel : Nat} (h : cs.length ≤ fuel) :
    decodeWithin fuel (cs.flatMap encodeChar) = (cs, []) := by
  induction cs generalizing fuel with
  | nil => cases fuel <;> rfl
  | cons c cs ih =>
    cases fuel with
    | zero => cases h
    | succ fuel =>
      rw [List.flatMap_cons, decodeWithin, decodeChar?_encodeChar]
      dsimp only
      rw [ih (Nat.le_of_succ_le_succ h)]

theorem length_le_length_encodeChars (cs : List Char) :
    cs.length ≤ (cs.flatMap encodeChar).length := by
  induction cs with
  | nil => exact Nat.le_refl 0
  | cons c cs ih =>
    have hpos := List.length_pos_iff.mpr (encodeChar_ne_nil c)
    rw [List.length_cons, List.flatMap_cons, List.length_append]
    omega

/-- **A text is decoded from its octets.** -/
theorem decode?_encodeChars (cs : List Char) : decode? (cs.flatMap encodeChar) = some cs := by
  rw [decode?, decodeFront, decodeWithin_encodeChars (length_le_length_encodeChars cs)]

end MarketFeed.Text
