import MarketFeed.Proofs.Market.Symbol
import Mathlib.Tactic.MkIffOfInductiveProp

/-!
# Spelling a pair and reading it back

An exchange spells a pair with its separator between the names. Reading wants exactly one separator
and a name on either side of it, and so fails on the spelling of a pair whose names have a
separator in them, or that lacks one of the names.

* `Spellable`: the pairs whose spelling reads as a pair.
* `ofSeparated?_separated`: what the spelling of a pair reads as.
* `symbol_of_names`: a pair that is read back has the symbol of the first one.
-/

namespace MarketFeed.Pair

/-- A pair has two names, without a separator in them. -/
@[mk_iff]
structure Spellable (separator : Char) (p : Pair) : Prop where
  base_ne : p.base ≠ ""
  quote_ne : p.quote ≠ ""
  base_free : separator ∉ p.base.toList
  quote_free : separator ∉ p.quote.toList

instance (separator : Char) (p : Pair) : Decidable (p.Spellable separator) :=
  decidable_of_iff _ (spellable_iff separator p).symm

theorem splitFirst_append {separator : Char} {before : List Char} (h : separator ∉ before)
    (after : List Char) :
    splitFirst separator (before ++ separator :: after) = some (before, after) := by
  have hbefore : ∀ c ∈ before, (decide (c ≠ separator)) = true := by
    intro c hc
    exact decide_eq_true fun heq => h (heq ▸ hc)
  unfold splitFirst
  rw [List.dropWhile_append_of_pos hbefore, List.takeWhile_append_of_pos hbefore]
  simp

/-- Reading goes by the first separator. -/
theorem ofSeparated?_append {separator : Char} {before : List Char} (h : separator ∉ before)
    (after : List Char) :
    ofSeparated? separator (String.ofList (before ++ separator :: after)) =
      if before = [] ∨ after = [] ∨ separator ∈ after then none
      else some (of (String.ofList before) (String.ofList after)) := by
  unfold ofSeparated?
  rw [String.toList_ofList, splitFirst_append h]
  simp [or_assoc]

/-- The spelling of a pair reads as the pair of its names, or not at all. -/
theorem ofSeparated?_separated (separator : Char) (p : Pair) :
    ofSeparated? separator (p.separated separator) =
      if p.Spellable separator then some (of p.base p.quote) else none := by
  unfold separated
  by_cases hbase : separator ∈ p.base.toList
  · rw [if_neg fun h => h.base_free hbase]
    -- The base has the first separator in it, so another one is left behind that.
    obtain ⟨before, after, heq, hbefore⟩ := List.eq_append_cons_of_mem hbase
    rw [heq, List.append_assoc, List.cons_append, ofSeparated?_append hbefore,
      if_pos (.inr (.inr (by simp)))]
  · rw [ofSeparated?_append hbase, String.ofList_toList, String.ofList_toList]
    by_cases hbad : p.base.toList = [] ∨ p.quote.toList = [] ∨ separator ∈ p.quote.toList
    · rw [if_pos hbad, if_neg]
      rintro ⟨hb, hq, -, hfree⟩
      rcases hbad with hnil | hnil | hmem
      · exact hb (String.toList_eq_nil_iff.mp hnil)
      · exact hq (String.toList_eq_nil_iff.mp hnil)
      · exact hfree hmem
    · rw [if_neg hbad, if_pos]
      simp only [not_or] at hbad
      exact ⟨mt String.toList_eq_nil_iff.mpr hbad.1, mt String.toList_eq_nil_iff.mpr hbad.2.1,
        hbase, hbad.2.2⟩

/-- The pair of the names of a pair has its symbol. -/
theorem symbol_of_names (p : Pair) : (of p.base p.quote).symbol = p.symbol := by
  rw [symbol_of_isUpper (of_isUpper _ _)]
  unfold symbol display of
  rw [Text.upper_append]

end MarketFeed.Pair
