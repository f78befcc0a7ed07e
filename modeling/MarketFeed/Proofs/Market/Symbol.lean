import MarketFeed.Market.Pair
import MarketFeed.Proofs.Text.Case

/-!
# Symbols of pairs

The symbol of a pair in upper case is its base with its quote behind it. Nothing marks where the
base ends; so a symbol tells two pairs apart unless they are one text, cut in different places.

* `symbol_of_isUpper`: the symbol of a pair in upper case.
* `symbol_eq_iff`: the pairs that have the same symbol.
-/

namespace MarketFeed

namespace Pair

/-- Are both names of a pair in upper case? -/
def IsUpper (p : Pair) : Prop := Text.upper p.base = p.base ∧ Text.upper p.quote = p.quote

theorem of_isUpper (base quote : String) : (of base quote).IsUpper :=
  ⟨Text.upper_upper base, Text.upper_upper quote⟩

/-- A pair that is read from an exchange's spelling is in upper case. -/
theorem ofSeparated?_isUpper {separator : Char} {s : String} {p : Pair}
    (h : ofSeparated? separator s = some p) : p.IsUpper := by
  simp only [ofSeparated?, Option.bind_eq_bind, Option.bind_eq_some_iff] at h
  obtain ⟨⟨base, quote⟩, -, h⟩ := h
  split at h
  · cases h
  · obtain rfl := Option.some.inj h
    exact of_isUpper _ _

theorem symbol_of_isUpper {p : Pair} (h : p.IsUpper) : p.symbol = p.base ++ p.quote := by
  unfold symbol display
  rw [Text.upper_append, h.1, h.2]

theorem upper_symbol (p : Pair) : Text.upper p.symbol = p.symbol := Text.upper_upper p.display

/-- Is a pair the same text as another one, cut further to the right? -/
def CutsLater (p q : Pair) : Prop :=
  ∃ part, part ≠ "" ∧ p.base = q.base ++ part ∧ q.quote = part ++ p.quote

/-- Are two pairs the same, or one text that is cut in two places? -/
def Confusable (p q : Pair) : Prop := p = q ∨ p.CutsLater q ∨ q.CutsLater p

theorem CutsLater.append_eq {p q : Pair} (h : p.CutsLater q) :
    p.base ++ p.quote = q.base ++ q.quote := by
  obtain ⟨part, -, hbase, hquote⟩ := h
  rw [hbase, hquote, String.append_assoc]

/-- Of two texts that are the same, one starts with the base of the other. -/
theorem cutsLater_or_eq {p q : Pair} {part : List Char}
    (hbase : p.base.toList = q.base.toList ++ part)
    (hquote : q.quote.toList = part ++ p.quote.toList) : p = q ∨ p.CutsLater q := by
  by_cases hpart : part = []
  · subst hpart
    rw [List.append_nil] at hbase
    rw [List.nil_append] at hquote
    left
    cases p
    cases q
    simp_all [String.toList_inj]
  · right
    refine ⟨String.ofList part, ?_, ?_, ?_⟩
    · intro hempty
      exact hpart (by simpa using congrArg String.toList hempty)
    · rw [← String.toList_inj, String.toList_append, String.toList_ofList, hbase]
    · rw [← String.toList_inj, String.toList_append, String.toList_ofList, hquote]

/-- **Symbols.** Two pairs in upper case have the same symbol if and only if they are the same
pair, or one text that is cut in two places. -/
theorem symbol_eq_iff {p q : Pair} (hp : p.IsUpper) (hq : q.IsUpper) :
    p.symbol = q.symbol ↔ p.Confusable q := by
  rw [symbol_of_isUpper hp, symbol_of_isUpper hq]
  constructor
  · intro h
    rw [← String.toList_inj, String.toList_append, String.toList_append] at h
    rcases List.append_eq_append_iff.mp h with ⟨part, hbase, hquote⟩ | ⟨part, hbase, hquote⟩
    · rcases cutsLater_or_eq hbase hquote with heq | hcut
      · exact .inl heq.symm
      · exact .inr (.inr hcut)
    · rcases cutsLater_or_eq hbase hquote with heq | hcut
      · exact .inl heq
      · exact .inr (.inl hcut)
  · rintro (rfl | hcut | hcut)
    · rfl
    · exact hcut.append_eq
    · exact hcut.append_eq.symm

end Pair

end MarketFeed
