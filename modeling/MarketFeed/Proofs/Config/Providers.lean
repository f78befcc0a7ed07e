import Mathlib.Data.List.Induction
import Mathlib.Data.List.Nodup
import Mathlib.Tactic.SplitIfs
import MarketFeed.Config.Error

/-!
# The pairs of each provider

The sections of a configuration name providers in any letter case, some several times, some that
are unknown, and they may repeat pairs. Grouping goes through all names of all sections and builds
the lists of all providers at once; what is found under one provider afterwards depends on the
sections that name it, and on nothing else.

* `PairSection.Names`, `Config.pairsNaming`: sections that name a provider, and their pairs.
* `lookup_addPair`, `lookup_addPairs`: what one name changes, and what the names of a section do.
* `Config.lookup_providerPairs`: the group of a provider holds the pairs of the sections that name
  it, each one where it comes first.
* `Config.providerPairs_grouped`: this in the texts of the sections, with which providers have a
  group and what letter cases and repetitions come to.
-/

namespace MarketFeed

/-! ## Names of providers -/

/-- No text spells two words. -/
theorem Text.eq_of_spells {s word other : String} (h : Text.spells s word = true)
    (hother : Text.spells s other = true) : word = other :=
  String.toList_inj.mp ((beq_iff_eq.mp h).symm.trans (beq_iff_eq.mp hother))

theorem Provider.name_inj {p q : Provider} (h : p.name = q.name) : p = q := by
  revert h
  cases p <;> cases q <;> decide

/-- A name is that of a provider if it spells it, in any letter case. -/
theorem Provider.ofName?_eq_some_iff {name : String} {p : Provider} :
    ofName? name = some p ↔ Text.spells name p.name = true := by
  have hspells : ∀ {q : Provider}, ofName? name = some q → Text.spells name q.name = true :=
    fun h => by simpa using List.find?_some h
  refine ⟨hspells, fun h => ?_⟩
  have hmem : p ∈ all := by cases p <;> decide
  cases hfind : ofName? name with
  | none => exact absurd h (by simpa using List.find?_eq_none.mp hfind p hmem)
  | some q => rw [name_inj (Text.eq_of_spells (hspells hfind) h)]

/-- A name is known if it spells that of a provider. -/
theorem isProviderName_iff {name : String} :
    isProviderName name = true ↔ ∃ p : Provider, Text.spells name p.name = true := by
  simp only [isProviderName, Option.isSome_iff_exists, Provider.ofName?_eq_some_iff]

/-- A section names a provider, in any letter case. -/
def PairSection.Names (s : PairSection) (p : Provider) : Prop :=
  ∃ name ∈ s.providers, Text.spells name p.name = true

instance (s : PairSection) (p : Provider) : Decidable (s.Names p) :=
  inferInstanceAs (Decidable (∃ name ∈ s.providers, Text.spells name p.name = true))

theorem PairSection.mem_providers_iff {s : PairSection} {p : Provider} :
    p ∈ s.providers.filterMap Provider.ofName? ↔ s.Names p := by
  simp only [List.mem_filterMap, Provider.ofName?_eq_some_iff, Names]

/-! ## First occurrences -/

section Distinct

variable {α : Type} [DecidableEq α]

theorem eraseDups_concat (xs : List α) (a : α) :
    (xs ++ [a]).eraseDups = if a ∈ xs then xs.eraseDups else xs.eraseDups ++ [a] := by
  rw [List.eraseDups_append]
  split_ifs with h <;> simp [List.removeAll, List.eraseDups_cons, h]

theorem nodup_eraseDups (xs : List α) : xs.eraseDups.Nodup := by
  induction xs using List.reverseRecOn with
  | nil => exact List.nodup_nil
  | append_singleton xs a ih =>
    rw [eraseDups_concat]
    split_ifs with h
    · exact ih
    · refine List.nodup_append.mpr ⟨ih, List.pairwise_singleton _ a, fun b hb c hc => ?_⟩
      rintro rfl
      exact h (List.mem_singleton.mp hc ▸ List.mem_eraseDups.mp hb)

theorem count_eraseDups (xs : List α) (a : α) : xs.eraseDups.count a = if a ∈ xs then 1 else 0 := by
  split_ifs with h
  · exact List.count_eq_one_of_mem (nodup_eraseDups xs) (List.mem_eraseDups.mpr h)
  · exact List.count_eq_zero_of_not_mem (mt List.mem_eraseDups.mp h)

/-- What repeats an earlier element is not among the first occurrences. -/
theorem eraseDups_append_cons_of_mem {xs : List α} {a : α} (h : a ∈ xs) (ys : List α) :
    (xs ++ a :: ys).eraseDups = (xs ++ ys).eraseDups := by
  rw [List.eraseDups_append, List.eraseDups_append, List.cons_removeAll]
  simp [h]

/-- The first occurrences in a list, if it has any elements. -/
def distinct? (xs : List α) : Option (List α) := if xs = [] then none else some xs.eraseDups

theorem distinct?_eq_some_iff {xs ys : List α} :
    distinct? xs = some ys ↔ xs ≠ [] ∧ ys = xs.eraseDups := by
  unfold distinct?
  split_ifs with h
  · simp [h]
  · simp [h, eq_comm]

end Distinct

/-! ## One more pair -/

/-- The pairs of a provider when it is given one more. -/
def withPair (pair : Pair) : Option (List Pair) → List Pair
  | none => [pair]
  | some pairs => if pair ∈ pairs then pairs else pairs ++ [pair]

/-- A pair that is given twice counts once. -/
theorem withPair_withPair (pair : Pair) (group : Option (List Pair)) :
    withPair pair (some (withPair pair group)) = withPair pair group := by
  have hmem : pair ∈ withPair pair group := by
    cases group with
    | none => exact List.mem_singleton.mpr rfl
    | some pairs =>
      simp only [withPair]
      split_ifs with h
      · exact h
      · exact List.mem_append_right _ (List.mem_singleton.mpr rfl)
  exact if_pos hmem

theorem withPair_distinct? (pair : Pair) (pairs : List Pair) :
    withPair pair (distinct? pairs) = (pairs ++ [pair]).eraseDups := by
  rw [eraseDups_concat]
  unfold distinct?
  split_ifs with hnil hmem hmem
  · simp [hnil] at hmem
  · simp [hnil, withPair]
  · simp [withPair, hmem]
  · simp [withPair, hmem]

section Groups

variable {groups : List (Provider × List Pair)}

theorem lookup_addPair (pair : Pair) (p q : Provider) (groups : List (Provider × List Pair)) :
    (addPair pair p groups).lookup q =
      if q = p then some (withPair pair (groups.lookup q)) else groups.lookup q := by
  induction groups with
  | nil => exact lookup_cons_eq_ite p q [pair] []
  | cons group rest ih =>
    obtain ⟨r, pairs⟩ := group
    simp only [addPair]
    by_cases hr : p = r
    · subst hr
      by_cases h : q = p <;> simp [lookup_cons_eq_ite, withPair, h]
    · rw [if_neg hr, lookup_cons_eq_ite, lookup_cons_eq_ite, ih]
      by_cases h : q = r
      · simp [h, Ne.symm hr]
      · simp [h]

theorem mem_keys_addPair {pair : Pair} {p q : Provider}
    (h : q ∈ (addPair pair p groups).map Prod.fst) : q = p ∨ q ∈ groups.map Prod.fst := by
  induction groups with
  | nil => exact .inl (List.mem_singleton.mp h)
  | cons group rest ih =>
    simp only [addPair] at h
    split at h <;> rcases List.mem_cons.mp h with rfl | h
    · exact .inr List.mem_cons_self
    · exact .inr (List.mem_cons_of_mem _ h)
    · exact .inr List.mem_cons_self
    · exact (ih h).imp_right (List.mem_cons_of_mem _)

theorem nodup_keys_addPair (h : (groups.map Prod.fst).Nodup) (pair : Pair) (p : Provider) :
    ((addPair pair p groups).map Prod.fst).Nodup := by
  induction groups with
  | nil => exact List.pairwise_singleton _ p
  | cons group rest ih =>
    obtain ⟨hnew, hrest⟩ := List.nodup_cons.mp h
    simp only [addPair]
    split
    · exact h
    · rename_i hp
      refine List.nodup_cons.mpr ⟨fun hmem => ?_, ih hrest⟩
      exact (mem_keys_addPair hmem).elim (fun heq => hp heq.symm) hnew

/-- The names of a section give its pair to each provider that is among them, however often. -/
theorem lookup_addPairs (pair : Pair) (ps : List Provider) (q : Provider)
    (groups : List (Provider × List Pair)) :
    (ps.foldl (fun groups p => addPair pair p groups) groups).lookup q =
      if q ∈ ps then some (withPair pair (groups.lookup q)) else groups.lookup q := by
  induction ps generalizing groups with
  | nil => rfl
  | cons p ps ih =>
    rw [List.foldl_cons, ih, lookup_addPair]
    by_cases hq : q = p
    · simp [hq, withPair_withPair]
    · simp [hq]

/-- Where no key comes twice, an entry is what its key looks up. -/
theorem lookup_eq_some_iff_mem (h : (groups.map Prod.fst).Nodup) {p : Provider}
    {pairs : List Pair} : groups.lookup p = some pairs ↔ (p, pairs) ∈ groups := by
  induction groups with
  | nil => simp
  | cons group rest ih =>
    obtain ⟨q, others⟩ := group
    obtain ⟨hnew, hrest⟩ := List.nodup_cons.mp h
    rw [lookup_cons_eq_ite, List.mem_cons, Prod.mk.injEq]
    split_ifs with hp
    · subst hp
      have habsent : (p, pairs) ∉ rest := fun hmem => hnew (List.mem_map.mpr ⟨_, hmem, rfl⟩)
      simp [habsent, eq_comm]
    · simp [hp, ih hrest]

end Groups

/-! ## Grouping -/

/-- A section without the names of unknown providers. -/
def PairSection.withKnown (s : PairSection) : PairSection :=
  { s with providers := s.providers.filter isProviderName }

theorem PairSection.filterMap_withKnown (s : PairSection) :
    s.withKnown.providers.filterMap Provider.ofName? =
      s.providers.filterMap Provider.ofName? := by
  rw [withKnown, List.filterMap_filter]
  refine List.filterMap_congr fun name _ => ?_
  cases h : Provider.ofName? name <;> simp [isProviderName, h]

namespace Config

/-- The pairs of the sections that name a provider, in order. -/
def pairsNaming (c : Config) (p : Provider) : List Pair :=
  (c.pairs.filter (·.Names p)).map PairSection.pair

theorem mem_pairsNaming {c : Config} {p : Provider} {pair : Pair} :
    pair ∈ c.pairsNaming p ↔ ∃ s ∈ c.pairs, s.Names p ∧ s.pair = pair := by
  simp [pairsNaming, and_assoc]

theorem pairsNaming_ne_nil_iff {c : Config} {p : Provider} :
    c.pairsNaming p ≠ [] ↔ ∃ s ∈ c.pairs, s.Names p := by
  simp [pairsNaming]

/-- **The group of a provider** holds the pairs of the sections that name it. The sections are
gone through from the first to the last, so the induction is on them from their end. -/
theorem lookup_providerPairs (c : Config) (p : Provider) :
    c.providerPairs.lookup p = distinct? (c.pairsNaming p) := by
  obtain ⟨sections, -, -, -, -⟩ := c
  simp only [providerPairs, pairsNaming]
  induction sections using List.reverseRecOn with
  | nil => rfl
  | append_singleton sections s ih =>
    rw [List.foldl_append, List.foldl_cons, List.foldl_nil, lookup_addPairs, ih,
      List.filter_append, List.map_append]
    simp only [PairSection.mem_providers_iff]
    by_cases hs : s.Names p
    · rw [if_pos hs, withPair_distinct?]
      simp [distinct?, hs]
    · simp [hs]

theorem nodup_keys_providerPairs (c : Config) : (c.providerPairs.map Prod.fst).Nodup := by
  unfold providerPairs
  refine List.foldlRecOn (motive := fun groups : List (Provider × List Pair) =>
    (groups.map Prod.fst).Nodup) _ _ List.nodup_nil fun groups hgroups s _ => ?_
  exact List.foldlRecOn (motive := fun groups : List (Provider × List Pair) =>
    (groups.map Prod.fst).Nodup) _ _ hgroups fun groups hgroups p _ =>
      nodup_keys_addPair hgroups s.pair p

theorem mem_providerPairs_iff {c : Config} {p : Provider} {pairs : List Pair} :
    (p, pairs) ∈ c.providerPairs ↔
      (∃ s ∈ c.pairs, s.Names p) ∧ pairs = (c.pairsNaming p).eraseDups := by
  rw [← lookup_eq_some_iff_mem (nodup_keys_providerPairs c), lookup_providerPairs,
    distinct?_eq_some_iff, pairsNaming_ne_nil_iff]

theorem mem_keys_providerPairs_iff {c : Config} {p : Provider} :
    p ∈ c.providerPairs.map Prod.fst ↔ ∃ s ∈ c.pairs, s.Names p := by
  constructor
  · intro hkey
    obtain ⟨⟨q, pairs⟩, hmem, rfl⟩ := List.mem_map.mp hkey
    exact (mem_providerPairs_iff.mp hmem).1
  · exact fun hnamed => List.mem_map.mpr ⟨_, mem_providerPairs_iff.mpr ⟨hnamed, rfl⟩, rfl⟩

theorem providerPairs_withKnown (c : Config) :
    providerPairs { c with pairs := c.pairs.map PairSection.withKnown } = c.providerPairs := by
  simp only [providerPairs, List.foldl_map, PairSection.filterMap_withKnown]
  rfl

/-- A section that gives a provider a pair of an earlier section, in any letter case, adds nothing
to its group, nor does a section that does not name it. -/
theorem lookup_providerPairs_of_repeated {c : Config} {p : Provider} {front rest : List PairSection}
    {s : PairSection} (hpairs : c.pairs = front ++ s :: rest)
    (hrepeated : s.Names p → ∃ t ∈ front, t.Names p ∧ t.pair = s.pair) :
    (providerPairs { c with pairs := front ++ rest }).lookup p = c.providerPairs.lookup p := by
  rw [lookup_providerPairs, lookup_providerPairs]
  simp only [pairsNaming, hpairs, List.filter_append, List.map_append, List.filter_cons]
  by_cases hs : s.Names p
  · obtain ⟨t, ht, hnames, hpair⟩ := hrepeated hs
    have hearlier : s.pair ∈ (front.filter (·.Names p)).map PairSection.pair :=
      List.mem_map.mpr ⟨t, List.mem_filter.mpr ⟨ht, decide_eq_true hnames⟩, hpair⟩
    rw [if_pos (decide_eq_true hs), List.map_cons, distinct?, distinct?,
      eraseDups_append_cons_of_mem hearlier]
    simp [List.ne_nil_of_mem hearlier]
  · simp [hs]

/-- **Grouping by provider.** A provider has one group, if a section names it, and none otherwise;
the group holds the pairs that `Pair.of` makes of the sections that name it, in their order and each
one where it comes first. So a pair is in the group once if the base and the quote of any of these
sections, in upper case, are its own, and a section that repeats the pair of an earlier one in other
letter cases makes no difference to it. Names of unknown providers make none to any group. -/
theorem providerPairs_grouped (c : Config) (p : Provider) :
    (c.providerPairs.map Prod.fst).Nodup ∧
    (p ∈ c.providerPairs.map Prod.fst ↔ ∃ s ∈ c.pairs, s.Names p) ∧
    (∀ pairs, (p, pairs) ∈ c.providerPairs ↔ (∃ s ∈ c.pairs, s.Names p) ∧
      pairs = ((c.pairs.filter (·.Names p)).map fun s => Pair.of s.base s.quote).eraseDups) ∧
    (∀ pairs, (p, pairs) ∈ c.providerPairs → ∀ base quote, pairs.count ⟨base, quote⟩ =
      if ∃ s ∈ c.pairs, s.Names p ∧ Text.upper s.base = base ∧ Text.upper s.quote = quote
        then 1 else 0) ∧
    (∀ front s rest, c.pairs = front ++ s :: rest →
      (s.Names p → ∃ t ∈ front, t.Names p ∧ Text.upper t.base = Text.upper s.base ∧
        Text.upper t.quote = Text.upper s.quote) →
      ∀ pairs, (p, pairs) ∈ providerPairs { c with pairs := front ++ rest } ↔
        (p, pairs) ∈ c.providerPairs) ∧
    providerPairs { c with pairs := c.pairs.map PairSection.withKnown } = c.providerPairs := by
  refine ⟨nodup_keys_providerPairs c, mem_keys_providerPairs_iff,
    fun pairs => mem_providerPairs_iff, ?_, ?_, providerPairs_withKnown c⟩
  · intro pairs hgroup base quote
    obtain ⟨-, rfl⟩ := mem_providerPairs_iff.mp hgroup
    have hmem : ⟨base, quote⟩ ∈ c.pairsNaming p ↔
        ∃ s ∈ c.pairs, s.Names p ∧ Text.upper s.base = base ∧ Text.upper s.quote = quote := by
      rw [mem_pairsNaming]
      simp only [PairSection.pair, Pair.of, Pair.mk.injEq]
    exact (count_eraseDups _ _).trans (if_congr hmem rfl rfl)
  · intro front s rest hpairs hrepeated pairs
    rw [← lookup_eq_some_iff_mem (nodup_keys_providerPairs _),
      ← lookup_eq_some_iff_mem (nodup_keys_providerPairs c),
      lookup_providerPairs_of_repeated hpairs]
    intro hs
    obtain ⟨t, ht, hnames, hbase, hquote⟩ := hrepeated hs
    refine ⟨t, ht, hnames, ?_⟩
    rw [PairSection.pair, PairSection.pair, Pair.of, Pair.of, hbase, hquote]

/-- Sections that name providers in several letter cases, one of them twice and one that is unknown,
and give one pair twice, in two spellings. -/
def repeating : Config where
  pairs := [⟨"atom", "usdt", ["Coinbase", "kraken", "COINBASE"]⟩, ⟨"btc", "Usd", ["coinbase"]⟩,
    ⟨"Atom", "USDT", ["OsmosisV2", "coinbase"]⟩]
  endpoints := []
  connection := ⟨15, 0, ⟨"backoff", 1000, 60000⟩⟩
  candlePeriod := 900
  priceLogInterval := 30

/-- The repeated pair counts once, where it comes first; without its second spelling the group is
the same. -/
theorem providerPairs_grouped_repeating :
    (Provider.coinbase, [⟨"ATOM", "USDT"⟩, ⟨"BTC", "USD"⟩]) ∈ repeating.providerPairs ∧
    (Provider.osmosisV2, [⟨"ATOM", "USDT"⟩]) ∈ repeating.providerPairs ∧
    (Provider.coinbase, [⟨"ATOM", "USDT"⟩, ⟨"BTC", "USD"⟩]) ∈
      providerPairs { repeating with pairs := repeating.pairs.take 2 } := by
  obtain ⟨-, -, hgroup, -, hrepeated, -⟩ := providerPairs_grouped repeating .coinbase
  have hcoinbase : (Provider.coinbase, [⟨"ATOM", "USDT"⟩, ⟨"BTC", "USD"⟩]) ∈
      repeating.providerPairs := (hgroup _).mpr (by decide)
  refine ⟨hcoinbase, ((providerPairs_grouped repeating .osmosisV2).2.2.1 _).mpr (by decide), ?_⟩
  exact (hrepeated (repeating.pairs.take 2) _ [] rfl (fun _ => by decide) _).mpr hcoinbase

end Config

end MarketFeed
