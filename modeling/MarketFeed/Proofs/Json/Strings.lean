import Mathlib.Tactic.SplitIfs
import MarketFeed.Fault
import MarketFeed.Json.Read

/-!
# The strings of a JSON text

What may stand between the quotes of a string, and what it means. The reader of a string finds its
characters exactly if they are well-formed; passing over a string asks only for well-formed
escapes, and always finds the closing quote.

* `IsBody`: octets between two quotes, with escapes.
* `Denotes`: such octets with the characters that they mean.
* `skipString_body`: passing over a string.
* `readString_of_denotes`, `denotes_of_readString`: what is read is what the octets mean.
-/

namespace MarketFeed.Json

/-- An octet of a string that stands for itself. -/
def IsPlain (b : UInt8) : Prop := 0x20 ≤ b ∧ b ≠ 0x22 ∧ b ≠ 0x5c

instance (b : UInt8) : Decidable (IsPlain b) := inferInstanceAs (Decidable (_ ∧ _))

/-- Octets that may stand between the quotes of a string. -/
inductive IsBody : Octets → Prop where
  | nil : IsBody []
  | plain {b : UInt8} {body : Octets} (hb : IsPlain b) (h : IsBody body) : IsBody (b :: body)
  | short {b : UInt8} {c : Char} {body : Octets} (hb : shortEscape? b = some c) (h : IsBody body) :
      IsBody (0x5c :: b :: body)
  | unit {w x y z : UInt8} {n : Nat} {body : Octets} (hn : hexValue? [w, x, y, z] = some n)
      (h : IsBody body) : IsBody (0x5c :: 0x75 :: w :: x :: y :: z :: body)

/-- An escape with the character that it means. -/
inductive Escaped : Octets → Char → Prop where
  | short {b : UInt8} {c : Char} (hb : shortEscape? b = some c) : Escaped [0x5c, b] c
  | unit {w x y z : UInt8} {n : Nat} (hn : hexValue? [w, x, y, z] = some n)
      (hhigh : isHighHalf n = false) (hlow : isLowHalf n = false) :
      Escaped [0x5c, 0x75, w, x, y, z] (Char.ofNat n)
  | pair {w x y z w' x' y' z' : UInt8} {high low : Nat} (hh : hexValue? [w, x, y, z] = some high)
      (hl : hexValue? [w', x', y', z'] = some low) (hhigh : isHighHalf high = true)
      (hlow : isLowHalf low = true) :
      Escaped [0x5c, 0x75, w, x, y, z, 0x5c, 0x75, w', x', y', z']
        (Char.ofNat ((high - 0xd800) * 0x400 + (low - 0xdc00) + 0x10000))

/-- Octets between two quotes with the characters that they mean: stretches of UTF-8 between
escapes. -/
inductive Denotes : Octets → List Char → Prop where
  | plain {os : Octets} {cs : List Char} (hos : ∀ b ∈ os, IsPlain b)
      (hcs : Text.decode? os = some cs) : Denotes os cs
  | escape {os e body : Octets} {cs more : List Char} {c : Char} (hos : ∀ b ∈ os, IsPlain b)
      (hcs : Text.decode? os = some cs) (he : Escaped e c) (h : Denotes body more) :
      Denotes (os ++ e ++ body) (cs ++ c :: more)

/-! ## Passing over a string -/

theorem IsBody.append {body more : Octets} (h : IsBody body) (hmore : IsBody more) :
    IsBody (body ++ more) := by
  induction h with
  | nil => exact hmore
  | plain hb _ ih => exact .plain hb ih
  | short hb _ ih => exact .short hb ih
  | unit hn _ ih => exact .unit hn ih

theorem IsBody.of_plain {os : Octets} (h : ∀ b ∈ os, IsPlain b) : IsBody os := by
  induction os with
  | nil => exact .nil
  | cons b os ih =>
    obtain ⟨hb, hos⟩ := List.forall_mem_cons.mp h
    exact .plain hb (ih hos)

theorem Escaped.isBody {e : Octets} {c : Char} (h : Escaped e c) : IsBody e := by
  cases h with
  | short hb => exact .short hb .nil
  | unit hn _ _ => exact .unit hn .nil
  | pair hh hl _ _ => exact .unit hh (.unit hl .nil)

theorem Escaped.length_pos {e : Octets} {c : Char} (h : Escaped e c) : 1 < e.length := by
  cases h <;> simp

theorem Denotes.isBody {body : Octets} {cs : List Char} (h : Denotes body cs) : IsBody body := by
  induction h with
  | plain hos _ => exact .of_plain hos
  | escape hos _ he _ ih => exact ((IsBody.of_plain hos).append he.isBody).append ih

/-- **Passing over a string** finds its closing quote. -/
theorem skipString_body {body : Octets} (h : IsBody body) (rest : Octets) :
    skipString .plain (body ++ 0x22 :: rest) = .ok rest := by
  induction h with
  | nil => simp [skipString]
  | @plain b body hb _ ih =>
    obtain ⟨hlow, hquote, hslash⟩ := hb
    rw [List.cons_append, skipString, if_neg hquote, if_neg hslash, if_neg (by simpa using hlow),
      ih]
  | short hb _ ih => simp [skipString, hb, ih]
  | unit hn _ ih =>
    have hmark : shortEscape? 0x75 = none := by decide
    simp [skipString, hmark, hn, ih]

/-- A string has one closing quote. -/
theorem IsBody.unique {body body' rest rest' : Octets} (h : IsBody body) (h' : IsBody body')
    (heq : body ++ 0x22 :: rest = body' ++ 0x22 :: rest') : body = body' := by
  have hrest : Except.ok rest = (Except.ok rest' : Except Failure Octets) := by
    rw [← skipString_body h rest, heq, skipString_body h' rest']
  obtain rfl := Except.ok.inj hrest
  exact List.append_cancel_right heq

/-! ## Reading a string -/

theorem decodeStretch_reverse {os : Octets} {cs : List Char} (h : Text.decode? os = some cs)
    (rest : Octets) : decodeStretch os.reverse rest = .ok cs := by
  unfold Text.decode? at h
  unfold decodeStretch
  rw [List.reverse_reverse]
  split at h
  · rename_i hdecode
    rw [hdecode, Option.some.inj h]
  · cases h

theorem decode?_of_decodeStretch {os rest : Octets} {cs : List Char}
    (h : decodeStretch os.reverse rest = .ok cs) : Text.decode? os = some cs := by
  unfold decodeStretch at h
  unfold Text.decode?
  rw [List.reverse_reverse] at h
  split at h
  · rename_i hdecode
    rw [hdecode, Except.ok.inj h]
  · cases h

/-- Plain octets are kept until the next escape or the end. -/
theorem scanString_plain {os : Octets} (h : ∀ b ∈ os, IsPlain b) (acc : List Char)
    (stretch rest : Octets) : scanString .plain acc stretch (os ++ rest) =
      scanString .plain acc (os.reverse ++ stretch) rest := by
  induction os generalizing stretch with
  | nil => rfl
  | cons b os ih =>
    obtain ⟨⟨hlow, hquote, hslash⟩, hos⟩ := List.forall_mem_cons.mp h
    rw [List.cons_append, scanString, if_neg hquote, if_neg hslash, if_neg (by simpa using hlow),
      ih hos, List.reverse_cons, List.append_assoc, List.singleton_append]

theorem isLowHalf_of_isHighHalf {n : Nat} (h : isHighHalf n = true) : isLowHalf n = false := by
  unfold isHighHalf at h
  unfold isLowHalf
  simp only [Bool.and_eq_true, decide_eq_true_eq] at h
  simp only [Bool.and_eq_false_iff, decide_eq_false_iff_not]
  omega

theorem scanString_escape {os e : Octets} {cs : List Char} {c : Char} (acc : List Char)
    (rest : Octets) (hcs : Text.decode? os = some cs) (he : Escaped e c) :
    scanString .plain acc os.reverse (e ++ rest) =
      scanString .plain (c :: (cs.reverse ++ acc)) [] rest := by
  have hmark : shortEscape? 0x75 = none := by decide
  cases he with
  | short hb =>
    simp [scanString, decodeStretch_reverse hcs, hb, bind, Except.bind]
  | unit hn hhigh hlow =>
    simp [scanString, decodeStretch_reverse hcs, hmark, hn, hexMeaning, hhigh, hlow, bind,
      Except.bind]
  | pair hh hl hhigh hlow =>
    simp [scanString, decodeStretch_reverse hcs, hmark, hh, hl, hexMeaning, hhigh, hlow,
      isLowHalf_of_isHighHalf hhigh, bind, Except.bind]

theorem scanString_of_denotes {body : Octets} {cs : List Char} (h : Denotes body cs)
    (acc : List Char) (rest : Octets) :
    scanString .plain acc [] (body ++ 0x22 :: rest) = .ok (acc.reverse ++ cs, rest) := by
  induction h generalizing acc with
  | plain hos hcs =>
    rw [scanString_plain hos, List.append_nil, scanString, if_pos rfl, decodeStretch_reverse hcs]
    rfl
  | escape hos hcs he _ ih =>
    rw [List.append_assoc, List.append_assoc, scanString_plain hos, List.append_nil,
      scanString_escape acc _ hcs he, ih]
    simp

theorem readString_of_denotes {body : Octets} {s : String} (h : Denotes body s.toList)
    (rest : Octets) : readString (body ++ 0x22 :: rest) = .ok (s, rest) := by
  unfold readString
  rw [scanString_of_denotes h]
  simp [bind, Except.bind]

/-! ## What has been read -/

theorem hexMeaning_none_eq_char {n : Nat} {c : Char} (h : hexMeaning none n = .ok (.inl c)) :
    isHighHalf n = false ∧ isLowHalf n = false ∧ Char.ofNat n = c := by
  simp only [hexMeaning] at h
  split_ifs at h with hlow hhigh
  · cases h
  · exact ⟨by simpa using hhigh, by simpa using hlow, Sum.inl.inj (Except.ok.inj h)⟩

theorem hexMeaning_none_eq_half {n half : Nat} (h : hexMeaning none n = .ok (.inr half)) :
    isHighHalf n = true ∧ n = half := by
  simp only [hexMeaning] at h
  split_ifs at h with hlow hhigh
  · exact ⟨hhigh, Sum.inr.inj (Except.ok.inj h)⟩
  · cases h

theorem hexMeaning_some_eq_char {high n : Nat} {c : Char}
    (h : hexMeaning (some high) n = .ok (.inl c)) :
    isLowHalf n = true ∧ Char.ofNat ((high - 0xd800) * 0x400 + (n - 0xdc00) + 0x10000) = c := by
  simp only [hexMeaning] at h
  split_ifs at h with hlow
  exact ⟨hlow, Sum.inl.inj (Except.ok.inj h)⟩

theorem hexMeaning_some_ne_half {high n half : Nat} :
    hexMeaning (some high) n ≠ .ok (.inr half) := by
  simp only [hexMeaning]
  split_ifs <;> simp

variable {acc : List Char} {stretch input : Octets} {read : List Char × Octets}

theorem exists_of_scanString_hex {high : Option Nat}
    (h : scanString (.hex high []) acc stretch input = .ok read) :
    ∃ w x y z n more, input = w :: x :: y :: z :: more ∧ hexValue? [w, x, y, z] = some n ∧
      ((∃ c, hexMeaning high n = .ok (.inl c) ∧
          scanString .plain (c :: acc) [] more = .ok read) ∨
        ∃ half, hexMeaning high n = .ok (.inr half) ∧
          scanString (.pairSlash half) acc [] more = .ok read) := by
  rcases input with - | ⟨w, - | ⟨x, - | ⟨y, - | ⟨z, more⟩⟩⟩⟩
  · cases h
  · cases h
  · cases h
  · cases h
  · refine ⟨w, x, y, z, ?_⟩
    simp only [scanString, List.length_nil, List.length_cons, List.nil_append, List.cons_append,
      Nat.reduceAdd, Nat.reduceLT, ↓reduceIte] at h
    split at h
    · cases h
    · rename_i n hn
      refine ⟨n, more, rfl, hn, ?_⟩
      split at h
      · cases h
      · rename_i c hc
        exact .inl ⟨c, hc, h⟩
      · rename_i half hhalf
        exact .inr ⟨half, hhalf, h⟩

theorem exists_of_scanString_pairSlash {half : Nat}
    (h : scanString (.pairSlash half) acc stretch input = .ok read) :
    ∃ more, input = 0x5c :: 0x75 :: more ∧
      scanString (.hex (some half) []) acc [] more = .ok read := by
  rcases input with - | ⟨a, - | ⟨b, more⟩⟩
  · cases h
  · simp only [scanString] at h
    split at h <;> cases h
  · simp only [scanString] at h
    split at h
    · rename_i ha
      split at h
      · rename_i hb
        exact ⟨more, by rw [ha, hb], h⟩
      · cases h
    · cases h

/-- After a backslash there is the rest of an escape. -/
theorem exists_of_scanString_slash (h : scanString .slash acc stretch input = .ok read) :
    ∃ e c more, 0x5c :: input = e ++ more ∧ Escaped e c ∧
      scanString .plain (c :: acc) [] more = .ok read := by
  cases input with
  | nil => cases h
  | cons b input =>
    simp only [scanString] at h
    split at h
    · rename_i c hb
      exact ⟨[0x5c, b], c, input, rfl, .short hb, h⟩
    · split at h
      · rename_i hb
        subst hb
        obtain ⟨w, x, y, z, n, more, rfl, hn, ⟨c, hc, h⟩ | ⟨half, hhalf, h⟩⟩ :=
          exists_of_scanString_hex h
        · obtain ⟨hhigh, hlow, rfl⟩ := hexMeaning_none_eq_char hc
          exact ⟨[0x5c, 0x75, w, x, y, z], _, more, rfl, .unit hn hhigh hlow, h⟩
        · obtain ⟨hhigh, rfl⟩ := hexMeaning_none_eq_half hhalf
          obtain ⟨more, rfl, h⟩ := exists_of_scanString_pairSlash h
          obtain ⟨w', x', y', z', low, more, rfl, hl, ⟨c, hc, h⟩ | ⟨half, hhalf, -⟩⟩ :=
            exists_of_scanString_hex h
          · obtain ⟨hlow, rfl⟩ := hexMeaning_some_eq_char hc
            exact ⟨[0x5c, 0x75, w, x, y, z, 0x5c, 0x75, w', x', y', z'], _, more, rfl,
              .pair hn hl hhigh hlow, h⟩
          · exact absurd hhalf hexMeaning_some_ne_half
      · cases h

/-- What has been read is what the octets up to the closing quote mean. The octets since the last
escape are all plain. -/
theorem denotes_of_scanString {os : Octets} (hos : ∀ b ∈ os, IsPlain b)
    (h : scanString .plain acc os.reverse input = .ok read) :
    ∃ body cs, os ++ input = body ++ 0x22 :: read.2 ∧ Denotes body cs ∧
      read.1 = acc.reverse ++ cs := by
  induction hn : input.length using Nat.strongRecOn generalizing acc os input with
  | ind n ih =>
    cases input with
    | nil => cases h
    | cons b more =>
      simp only [scanString] at h
      split_ifs at h with hquote hslash hlow
      · obtain ⟨cs, hcs, h⟩ := bind_eq_ok.mp h
        cases h
        exact ⟨os, cs, by rw [hquote], .plain hos (decode?_of_decodeStretch hcs), rfl⟩
      · obtain ⟨cs, hcs, h⟩ := bind_eq_ok.mp h
        obtain ⟨e, c, left, hsplit, he, h⟩ := exists_of_scanString_slash h
        have hshorter : left.length < n := by
          have hlength := congrArg List.length hsplit
          have hpos := he.length_pos
          simp only [List.length_cons, List.length_append] at hlength hn
          omega
        obtain ⟨body, cs', hinput, hbody, hread⟩ :=
          ih left.length hshorter (List.forall_mem_nil _) h rfl
        refine ⟨os ++ e ++ body, cs ++ c :: cs', ?_,
          .escape hos (decode?_of_decodeStretch hcs) he hbody, ?_⟩
        · rw [hslash, hsplit, List.append_assoc, List.append_assoc, ← hinput, List.nil_append]
        · rw [hread]
          simp
      · cases h
      · have hplain : IsPlain b := ⟨by simpa using hlow, hquote, hslash⟩
        have hall : ∀ a ∈ os ++ [b], IsPlain a :=
          List.forall_mem_append.mpr ⟨hos, List.forall_mem_singleton.mpr hplain⟩
        rw [show b :: os.reverse = (os ++ [b]).reverse by simp] at h
        obtain ⟨body, cs, hinput, hbody, hread⟩ :=
          ih more.length (by simp [← hn]) hall h rfl
        exact ⟨body, cs, by rw [← hinput, List.append_assoc, List.singleton_append], hbody, hread⟩

theorem denotes_of_readString {s : String} {rest : Octets} (h : readString input = .ok (s, rest)) :
    ∃ body, input = body ++ 0x22 :: rest ∧ Denotes body s.toList := by
  obtain ⟨⟨cs, rest⟩, hscan, h⟩ := bind_eq_ok.mp h
  cases h
  obtain ⟨body, cs, hinput, hbody, hcs⟩ := denotes_of_scanString (List.forall_mem_nil _) hscan
  obtain rfl : _ = cs := hcs
  exact ⟨body, hinput, by rwa [String.toList_ofList]⟩

end MarketFeed.Json
