import MarketFeed.Text.Case

/-!
# Upper case is final

Upper-casing a text that is in upper case already changes nothing. The characters that change, and
the forms that they take, are few evenly spaced spans of codes; that no form changes again is a
comparison of spans by their ends, and by their parity where two of them interleave.

* `upperChar_upperChar`: the forms of a character are their own forms.
* `upper_upper`: upper-casing twice is upper-casing once.
-/

namespace MarketFeed.Text

/-! ## Spans of codes -/

/-- The codes `first`, `first + step`, … up to `last`. -/
structure Span where
  first : Nat
  last : Nat
  step : Nat

namespace Span

/-- Is a code in a span? -/
def Has (s : Span) (n : Nat) : Prop := s.first ≤ n ∧ n ≤ s.last ∧ (n - s.first) % s.step = 0

/-- The span of one code. -/
def single (n : Nat) : Span := ⟨n, n, 1⟩

theorem single_has {n m : Nat} : (single n).Has m ↔ m = n := by
  unfold single Has
  dsimp only
  omega

/-- Do two spans lie apart, or between each other's codes? -/
def misses (s t : Span) : Bool :=
  s.last.blt t.first || t.last.blt s.first ||
    (t.step == 2 && (s.step == 2 || s.first == s.last) && (s.first + t.first) % 2 == 1)

theorem not_has_of_misses {s t : Span} {n : Nat} (h : s.misses t = true) (hn : s.Has n) :
    ¬ t.Has n := by
  rintro ⟨h₁, h₂, h₃⟩
  obtain ⟨h₄, h₅, h₆⟩ := hn
  simp only [misses, Bool.or_eq_true, Nat.blt_eq, Bool.and_eq_true, beq_iff_eq] at h
  rcases h with (hbelow | habove) | ⟨⟨htwo, heven | hone⟩, hodd⟩
  · omega
  · omega
  · rw [htwo] at h₃
    rw [heven] at h₆
    omega
  · rw [htwo] at h₃
    omega

end Span

/-! ## The codes that change -/

/-- The characters of a run. -/
def Span.ofRun (r : Nat × Nat × Nat × Int) : Span := ⟨r.1, r.2.1, r.2.2.1⟩

/-- The forms of the characters of a run. -/
def Span.formsOfRun (r : Nat × Nat × Nat × Int) : Span :=
  ⟨(r.1 + r.2.2.2).toNat, (r.2.1 + r.2.2.2).toNat, r.2.2.1⟩

/-- The characters whose upper-case form differs from them. -/
def changing : List Span := upperRuns.map .ofRun ++ upperWords.map fun w => .single w.1

/-- The characters that such forms are made of. -/
def forms : List Span :=
  upperRuns.map .formsOfRun ++ upperWords.flatMap fun w => w.2.map .single

/-- Is every code of a span a character? -/
def allChars (s : Span) : Bool :=
  s.last < 0xd800 || (0xdfff < s.first && s.last < 0x110000)

theorem forms_allChars : forms.all allChars = true := by decide +kernel

theorem forms_miss_changing : (forms.all fun s => changing.all s.misses) = true := by
  decide +kernel

theorem toNat_ofNat_of_forms {s : Span} {n : Nat} (hs : s ∈ forms) (hn : s.Has n) :
    (Char.ofNat n).toNat = n := by
  have hchars := List.all_eq_true.mp forms_allChars s hs
  simp only [allChars, Bool.or_eq_true, Bool.and_eq_true, decide_eq_true_eq] at hchars
  obtain ⟨h₁, h₂, -⟩ := hn
  have hvalid : n.isValidChar := by
    unfold Nat.isValidChar
    omega
  unfold Char.ofNat
  rw [dif_pos hvalid]
  rfl

theorem has_changing_of_word {w : Nat × List Nat} (h : w ∈ upperWords) :
    ∃ s ∈ changing, s.Has w.1 :=
  ⟨.single w.1, List.mem_append_right _ (List.mem_map.mpr ⟨w, h, rfl⟩), Span.single_has.mpr rfl⟩

theorem has_changing_of_run {r : Nat × Nat × Nat × Int} (h : r ∈ upperRuns) {n : Nat}
    (hn : (Span.ofRun r).Has n) : ∃ s ∈ changing, s.Has n :=
  ⟨_, List.mem_append_left _ (List.mem_map.mpr ⟨r, h, rfl⟩), hn⟩

/-- The run of the lower-case ASCII letters. -/
theorem ascii_mem_upperRuns : (0x61, 0x7a, 1, -32) ∈ upperRuns := List.mem_cons_self

/-! ## Upper-case forms -/

/-- A character outside the changing spans is its own form. -/
theorem upperChar_of_not_changing {c : Char} (h : ¬ ∃ s ∈ changing, s.Has c.toNat) :
    upperChar c = [c] := by
  unfold upperChar
  by_cases hascii : c.toNat < 128
  · have hlower : ¬ ('a' ≤ c ∧ c ≤ 'z') := by
      rintro ⟨ha, hz⟩
      have hfirst : 0x61 ≤ c.toNat := UInt32.le_iff_toNat_le.mp ha
      have hlast : c.toNat ≤ 0x7a := UInt32.le_iff_toNat_le.mp hz
      exact h (has_changing_of_run ascii_mem_upperRuns ⟨hfirst, hlast, Nat.mod_one _⟩)
    rw [if_pos hascii, if_neg hlower]
  · rw [if_neg hascii]
    split
    · rename_i code form hfind
      have hcode := List.find?_some hfind
      have hchanging := has_changing_of_word (List.mem_of_find?_eq_some hfind)
      simp only [decide_eq_true_eq] at hcode
      rw [hcode] at hchanging
      exact (h hchanging).elim
    · split
      · rename_i first last step shift hfind
        have hin := List.find?_some hfind
        simp only [Bool.and_eq_true, decide_eq_true_eq] at hin
        exact (h (has_changing_of_run (List.mem_of_find?_eq_some hfind)
          ⟨hin.1.1, hin.1.2, hin.2⟩)).elim
      · rfl

theorem upperRuns_shift : (upperRuns.all fun r => decide (0 ≤ (r.1 : Int) + r.2.2.2)) = true := by
  decide +kernel

theorem has_forms_of_run {r : Nat × Nat × Nat × Int} (h : r ∈ upperRuns) {n : Nat}
    (hn : (Span.ofRun r).Has n) :
    ∃ s ∈ forms, s.Has (Char.ofNat ((n : Int) + r.2.2.2).toNat).toNat := by
  have hshift := of_decide_eq_true (List.all_eq_true.mp upperRuns_shift r h)
  have hmem : Span.formsOfRun r ∈ forms :=
    List.mem_append_left _ (List.mem_map.mpr ⟨r, h, rfl⟩)
  obtain ⟨hfirst, hlast, hstep⟩ := hn
  dsimp only [Span.ofRun] at hfirst hlast hstep
  have hhas : (Span.formsOfRun r).Has ((n : Int) + r.2.2.2).toNat := by
    have hdist : ((n : Int) + r.2.2.2).toNat - (r.1 + r.2.2.2).toNat = n - r.1 := by omega
    dsimp only [Span.Has, Span.formsOfRun]
    rw [hdist]
    exact ⟨by omega, by omega, hstep⟩
  exact ⟨_, hmem, by rwa [toNat_ofNat_of_forms hmem hhas]⟩

theorem has_forms_of_word {w : Nat × List Nat} (h : w ∈ upperWords) {d : Char}
    (hd : d ∈ w.2.map Char.ofNat) : ∃ s ∈ forms, s.Has d.toNat := by
  obtain ⟨n, hn, rfl⟩ := List.mem_map.mp hd
  have hmem : Span.single n ∈ forms :=
    List.mem_append_right _ (List.mem_flatMap.mpr ⟨w, h, List.mem_map.mpr ⟨n, hn, rfl⟩⟩)
  have hhas : (Span.single n).Has n := Span.single_has.mpr rfl
  exact ⟨_, hmem, by rwa [toNat_ofNat_of_forms hmem hhas]⟩

/-- A character that is not its own form has one out of the spans of forms. -/
theorem upperChar_forms (c : Char) :
    upperChar c = [c] ∨ ∀ d ∈ upperChar c, ∃ s ∈ forms, s.Has d.toNat := by
  unfold upperChar
  split
  · split
    · rename_i hlower
      have hfirst : 0x61 ≤ c.toNat := UInt32.le_iff_toNat_le.mp hlower.1
      have hlast : c.toNat ≤ 0x7a := UInt32.le_iff_toNat_le.mp hlower.2
      have hcode : c.toNat - 32 = ((c.toNat : Int) + -32).toNat := by omega
      refine .inr fun d hd => ?_
      obtain rfl := List.mem_singleton.mp hd
      rw [hcode]
      exact has_forms_of_run ascii_mem_upperRuns ⟨hfirst, hlast, Nat.mod_one _⟩
    · exact .inl rfl
  · split
    · rename_i hfind
      exact .inr fun d hd => has_forms_of_word (List.mem_of_find?_eq_some hfind) hd
    · split
      · rename_i first last step shift hfind
        have hin := List.find?_some hfind
        simp only [Bool.and_eq_true, decide_eq_true_eq] at hin
        refine .inr fun d hd => ?_
        obtain rfl := List.mem_singleton.mp hd
        exact has_forms_of_run (List.mem_of_find?_eq_some hfind) ⟨hin.1.1, hin.1.2, hin.2⟩
      · exact .inl rfl

/-! ## Texts -/

/-- The forms of a character are their own forms. -/
theorem upperChar_upperChar {c d : Char} (h : d ∈ upperChar c) : upperChar d = [d] := by
  rcases upperChar_forms c with hsame | hforms
  · rw [hsame, List.mem_singleton] at h
    rw [h, hsame]
  · obtain ⟨s, hs, hd⟩ := hforms d h
    have hmiss := List.all_eq_true.mp forms_miss_changing s hs
    refine upperChar_of_not_changing ?_
    rintro ⟨t, ht, htd⟩
    exact Span.not_has_of_misses (List.all_eq_true.mp hmiss t ht) hd htd

theorem flatMap_upperChar {cs : List Char} (h : ∀ c ∈ cs, upperChar c = [c]) :
    cs.flatMap upperChar = cs := by
  induction cs with
  | nil => rfl
  | cons c cs ih =>
    rw [List.flatMap_cons, h c List.mem_cons_self, ih fun d hd => h d (List.mem_cons_of_mem c hd)]
    rfl

theorem upper_append (s t : String) : upper (s ++ t) = upper s ++ upper t := by
  simp [upper]

/-- Upper-casing twice is upper-casing once. -/
theorem upper_upper (s : String) : upper (upper s) = upper s := by
  have hown : ∀ d ∈ s.toList.flatMap upperChar, upperChar d = [d] := by
    intro d hd
    obtain ⟨c, -, hc⟩ := List.mem_flatMap.mp hd
    exact upperChar_upperChar hc
  unfold upper
  rw [String.toList_ofList, flatMap_upperChar hown]

end MarketFeed.Text
