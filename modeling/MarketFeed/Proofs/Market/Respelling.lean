import MarketFeed.Proofs.Market.Spelling
import MarketFeed.Service
import Mathlib.Data.List.TakeWhile

/-!
# Reading and spelling are inverse

An exchange spells pairs and reads spellings. Reading gives back exactly the pairs in upper case
that have two names without a separator; spelling what was read gives the upper-case form of the
text. Upper-casing leaves separators alone and makes no new ones.

* `count_upper`: a separator is in the upper-case form of a text as often as in the text.
* `ofSeparated?_eq_some_iff`: the texts that read as pairs, and which pairs they are.
* `pairOfWire_inverse`: both ways of going around, for both exchanges.
-/

namespace MarketFeed

namespace Text

/-! ## Upper-casing around a separator -/

/-- A character that is its own upper-case form and not part of any other one. -/
def Caseless (c : Char) : Prop :=
  upperChar c = [c] ∧ (forms.all fun s => s.misses (.single c.toNat)) = true

variable {c : Char}

theorem Caseless.eq_of_mem {d : Char} (hc : Caseless c) (h : c ∈ upperChar d) : d = c := by
  rcases upperChar_forms d with hsame | hforms
  · rw [hsame, List.mem_singleton] at h
    exact h.symm
  · obtain ⟨s, hs, hhas⟩ := hforms c h
    have hmisses := List.all_eq_true.mp hc.2 s hs
    exact (Span.not_has_of_misses hmisses hhas (Span.single_has.mpr rfl)).elim

theorem Caseless.mem_upper_iff (hc : Caseless c) {s : String} :
    c ∈ (upper s).toList ↔ c ∈ s.toList := by
  rw [upper, String.toList_ofList, List.mem_flatMap]
  constructor
  · rintro ⟨d, hd, hmem⟩
    exact hc.eq_of_mem hmem ▸ hd
  · intro hmem
    exact ⟨c, hmem, by rw [hc.1, List.mem_singleton]⟩

/-- Upper-casing goes on behind such a character. -/
theorem Caseless.upper_ofList (hc : Caseless c) (before after : List Char) :
    (upper (String.ofList (before ++ c :: after))).toList =
      (upper (String.ofList before)).toList ++ c :: (upper (String.ofList after)).toList := by
  simp [upper, hc.1]

theorem upperWords_ne_nil : (upperWords.all fun w => !w.2.isEmpty) = true := by decide +kernel

/-- No character vanishes. -/
theorem upperChar_ne_nil (d : Char) : upperChar d ≠ [] := by
  unfold upperChar
  split
  · exact List.cons_ne_nil _ _
  · split
    · rename_i form hfind
      have hword := List.all_eq_true.mp upperWords_ne_nil _ (List.mem_of_find?_eq_some hfind)
      simpa using hword
    · split <;> exact List.cons_ne_nil _ _

theorem upper_eq_empty {s : String} : upper s = "" ↔ s = "" := by
  rw [← String.toList_eq_nil_iff, ← String.toList_eq_nil_iff (b := s), upper, String.toList_ofList,
    List.flatMap_eq_nil_iff]
  simp [upperChar_ne_nil, ← List.eq_nil_iff_forall_not_mem]

end Text

namespace Pair

variable {c : Char} {s : String} {p : Pair}

/-- **The texts that read as pairs,** and the pairs that they are. -/
theorem ofSeparated?_eq_some_iff :
    ofSeparated? c s = some p ↔
      ∃ names : Pair,
        names.Spellable c ∧ s = names.separated c ∧ p = of names.base names.quote := by
  constructor
  · intro h
    by_cases hmem : c ∈ s.toList
    · obtain ⟨before, after, hs, hbefore⟩ := List.eq_append_cons_of_mem hmem
      obtain rfl : s = String.ofList (before ++ c :: after) := by rw [← hs, String.ofList_toList]
      rw [ofSeparated?_append hbefore] at h
      split at h
      · cases h
      · rename_i hgood
        simp only [not_or] at hgood
        refine ⟨⟨String.ofList before, String.ofList after⟩, ?_, ?_, (Option.some.inj h).symm⟩
        · simpa [spellable_iff, hbefore] using hgood
        · simp [separated]
    · have hdrop : s.toList.dropWhile (· ≠ c) = [] :=
        List.dropWhile_eq_nil_iff.mpr fun d hd => decide_eq_true fun heq => hmem (heq ▸ hd)
      rw [ofSeparated?, splitFirst, hdrop] at h
      cases h
  · rintro ⟨names, hnames, rfl, rfl⟩
    rw [ofSeparated?_separated, if_pos hnames]

/-- A pair reads back from its own spelling exactly if it is in upper case and its names have no
separator in them. -/
theorem ofSeparated?_separated_eq_self_iff :
    ofSeparated? c (p.separated c) = some p ↔ p.Spellable c ∧ p.IsUpper := by
  have hof : of p.base p.quote = p ↔ p.IsUpper := by
    cases p
    simp [of, IsUpper]
  rw [ofSeparated?_separated, ← hof]
  split <;> simp [*]

/-- A text has one separator, and text on either side of it. -/
def SplitsOnce (separator : Char) (s : String) : Prop :=
  s.toList.count separator = 1 ∧
    ∃ before after, before ≠ [] ∧ after ≠ [] ∧ s.toList = before ++ separator :: after

theorem exists_ofSeparated?_iff : (∃ p, ofSeparated? c s = some p) ↔ SplitsOnce c s := by
  simp only [ofSeparated?_eq_some_iff]
  constructor
  · rintro ⟨_, names, ⟨hbase, hquote, hbaseFree, hquoteFree⟩, rfl, -⟩
    refine ⟨?_, names.base.toList, names.quote.toList, ?_, ?_, String.toList_ofList⟩
    · simp [separated, List.count_eq_zero_of_not_mem hbaseFree,
        List.count_eq_zero_of_not_mem hquoteFree]
    · exact mt String.toList_eq_nil_iff.mp hbase
    · exact mt String.toList_eq_nil_iff.mp hquote
  · rintro ⟨hcount, before, after, hbefore, hafter, hs⟩
    have hfree : c ∉ before ∧ c ∉ after := by
      rw [hs, List.count_append, List.count_cons_self] at hcount
      rw [← List.count_eq_zero, ← List.count_eq_zero]
      omega
    refine ⟨_, ⟨String.ofList before, String.ofList after⟩, ?_, ?_, rfl⟩
    · simpa [spellable_iff, hbefore, hafter] using hfree
    · rw [← String.toList_inj, hs]
      simp [separated]

section Caseless

variable (hc : Text.Caseless c)
include hc

/-- The names of a pair can be told apart in upper case as well. -/
theorem Spellable.upper (h : p.Spellable c) : (of p.base p.quote).Spellable c where
  base_ne := mt Text.upper_eq_empty.mp h.base_ne
  quote_ne := mt Text.upper_eq_empty.mp h.quote_ne
  base_free := mt hc.mem_upper_iff.mp h.base_free
  quote_free := mt hc.mem_upper_iff.mp h.quote_free

/-- Spelling a pair in upper case is upper-casing its spelling. -/
theorem separated_of : (of p.base p.quote).separated c = Text.upper (p.separated c) := by
  rw [← String.toList_inj, separated, separated, String.toList_ofList, hc.upper_ofList,
    String.ofList_toList, String.ofList_toList]
  rfl

/-- **Reading and spelling again** gives the upper-case form of the text. -/
theorem separated_of_ofSeparated? (h : ofSeparated? c s = some p) :
    p.separated c = Text.upper s ∧ ofSeparated? c (p.separated c) = some p ∧
      p.symbol.toList = (Text.upper s).toList.filter (· ≠ c) := by
  obtain ⟨names, hnames, rfl, rfl⟩ := ofSeparated?_eq_some_iff.mp h
  have hspellable := hnames.upper hc
  have hupper := of_isUpper names.base names.quote
  refine ⟨separated_of hc, ofSeparated?_separated_eq_self_iff.mpr ⟨hspellable, hupper⟩, ?_⟩
  have hfree : ∀ name : String, c ∉ name.toList → name.toList.filter (· ≠ c) = name.toList :=
    fun name hname => List.filter_eq_self.mpr fun d hd => decide_eq_true fun heq => hname (heq ▸ hd)
  rw [← separated_of hc, symbol_of_isUpper hupper, separated, String.toList_ofList,
    List.filter_append, List.filter_cons_of_neg (by simp), hfree _ hspellable.base_free,
    hfree _ hspellable.quote_free, String.toList_append]

end Caseless

end Pair

/-! ## Both exchanges -/

theorem separator_caseless (provider : Provider) :
    Text.Caseless (Service.exchangeOf provider).separator := by
  cases provider with
  | coinbase => exact ⟨rfl, by decide +kernel⟩
  | osmosisV2 => exact ⟨rfl, by decide +kernel⟩

/-- **Both ways of going around.** A pair reads back from its spelling if and only if it is in upper
case and has two names without a separator; different pairs of this kind have different spellings.
A text reads as a pair if and only if it has one separator and text on either side of it. Spelling
that pair gives the text in upper case, which reads as the same pair again; without its separator
it is the symbol of the pair. -/
theorem pairOfWire_inverse (provider : Provider) :
    let exchange := Service.exchangeOf provider
    (∀ p : Pair, exchange.pairOfWire? (exchange.wireSymbol p) = some p ↔
      p.Spellable exchange.separator ∧ p.IsUpper) ∧
    (∀ p q : Pair, p.Spellable exchange.separator ∧ p.IsUpper →
      q.Spellable exchange.separator ∧ q.IsUpper →
        exchange.wireSymbol p = exchange.wireSymbol q → p = q) ∧
    (∀ s, (∃ p, exchange.pairOfWire? s = some p) ↔ Pair.SplitsOnce exchange.separator s) ∧
    ∀ s p, exchange.pairOfWire? s = some p →
      exchange.wireSymbol p = Text.upper s ∧
      exchange.pairOfWire? (exchange.wireSymbol p) = some p ∧
      p.symbol.toList = (Text.upper s).toList.filter (· ≠ exchange.separator) := by
  intro exchange
  refine ⟨fun p => Pair.ofSeparated?_separated_eq_self_iff, fun p q hp hq heq => ?_,
    fun s => Pair.exists_ofSeparated?_iff,
    fun s p h => Pair.separated_of_ofSeparated? (separator_caseless provider) h⟩
  have hpback := Pair.ofSeparated?_separated_eq_self_iff.mpr hp
  have hqback := Pair.ofSeparated?_separated_eq_self_iff.mpr hq
  rw [Exchange.wireSymbol, Exchange.wireSymbol] at heq
  rw [heq, hqback] at hpback
  exact (Option.some.inj hpback).symm

theorem pairOfWire_inverse_sharpS :
    (Pair.of "ß" "usdt").Spellable '-' ∧
    Exchange.coinbase.pairOfWire? "ß-usdt" = some ⟨"SS", "USDT"⟩ ∧
    Exchange.coinbase.wireSymbol ⟨"SS", "USDT"⟩ = Text.upper "ß-usdt" ∧
    Exchange.coinbase.pairOfWire? (Exchange.coinbase.wireSymbol ⟨"SS", "USDT"⟩) =
      some ⟨"SS", "USDT"⟩ ∧
    Pair.of "ß" "usdt" = ⟨"SS", "USDT"⟩ := by
  obtain ⟨hiff, hinj, -, hread⟩ := pairOfWire_inverse .coinbase
  have hsharp : Exchange.coinbase.pairOfWire? "ß-usdt" = some ⟨"SS", "USDT"⟩ := by decide +kernel
  obtain ⟨hwire, hback, -⟩ := hread _ _ hsharp
  have hpair := (hiff ⟨"SS", "USDT"⟩).mp hback
  have hspellable : (Pair.of "ß" "usdt").Spellable '-' := by decide +kernel
  have hsame : Exchange.coinbase.wireSymbol (Pair.of "ß" "usdt") =
      Exchange.coinbase.wireSymbol ⟨"SS", "USDT"⟩ := by decide +kernel
  exact ⟨hspellable, hsharp, hwire, hback,
    hinj _ _ ⟨hspellable, Pair.of_isUpper _ _⟩ hpair hsame⟩

end MarketFeed
