import MarketFeed.Feed.Basic

/-!
# Queries

A query asks for each of its pairs. It faults if one of the pairs does, and otherwise has an answer
or finds nothing. It has an answer if and only if the feed has what it asks for, for one of the
pairs at least, and then the answer holds what there is under the symbols of the pairs and nothing
else.

* `answer_of_fault`, `answer_of_no_fault`: the ways in which a query can end.
* `get?_collect`: what an answer holds.
* `Answered`, `answer_answered`: the law of a query, whatever it asks for.
* `tickers_singleton_eq_ok`, `candles_singleton_eq_ok`: the answers for one pair.
-/

namespace MarketFeed.Feed

variable {α : Type} {f : Feed} {p : Pair}

/-- A collection faults if and only if one of its pairs does. -/
theorem exists_collect_eq_error {missing : String} {find : String → Except FeedError α}
    {pairs : List Pair} {found : Table α} :
    (∃ fault, (f.collect missing find pairs found).1 = .error fault) ↔
      ∃ p ∈ pairs, ∃ fault, find p.symbol = .error (.fault fault) := by
  induction pairs generalizing found with
  | nil => simp [collect]
  | cons p rest ih =>
    simp only [List.mem_cons, exists_eq_or_imp]
    unfold collect
    cases hfind : find p.symbol with
    | ok a => simp [ih]
    | error e => cases e <;> simp [ih]

/-- The fault of a collection is that of one of its pairs. -/
theorem exists_of_collect_eq_error {missing : String} {find : String → Except FeedError α}
    {pairs : List Pair} {found : Table α} {fault : Fault}
    (h : (f.collect missing find pairs found).1 = .error fault) :
    ∃ p ∈ pairs, find p.symbol = .error (.fault fault) := by
  induction pairs generalizing found with
  | nil => cases h
  | cons p rest ih =>
    simp only [List.mem_cons, exists_eq_or_imp]
    unfold collect at h
    split at h
    · exact .inr (ih h)
    · rename_i fault' hfind
      obtain rfl := Except.error.inj h
      exact .inl hfind
    · exact .inr (ih h)

/-- A query for a pair that faults ends with the fault of such a pair. -/
theorem answer_of_fault {missing : String} {none : FeedError}
    {find : String → Except FeedError α} {pairs : List Pair}
    (h : ∃ p ∈ pairs, ∃ fault, find p.symbol = .error (.fault fault)) :
    ∃ p ∈ pairs, ∃ fault, find p.symbol = .error (.fault fault) ∧
      (answer none (f.collect missing find pairs .empty)).result = .error (.fault fault) := by
  obtain ⟨fault, hfault⟩ := exists_collect_eq_error.mpr h
  obtain ⟨p, hp, hfind⟩ := exists_of_collect_eq_error hfault
  refine ⟨p, hp, fault, hfind, ?_⟩
  unfold answer
  split
  · rename_i fault' events hcollect
    rw [hcollect] at hfault
    rw [Except.error.inj hfault]
  · rename_i found events hcollect
    rw [hcollect] at hfault
    cases hfault

/-- Any other query has an answer or finds nothing. -/
theorem answer_of_no_fault {missing : String} {none : FeedError}
    {find : String → Except FeedError α} {pairs : List Pair}
    (h : ¬ ∃ p ∈ pairs, ∃ fault, find p.symbol = .error (.fault fault)) :
    (∃ table, (answer none (f.collect missing find pairs .empty)).result = .ok table) ∨
      (answer none (f.collect missing find pairs .empty)).result = .error none := by
  rw [← exists_collect_eq_error (f := f)] at h
  unfold answer
  split
  · rename_i fault events hcollect
    exact absurd ⟨fault, congrArg Prod.fst hcollect⟩ h
  · rename_i found events hcollect
    dsimp only
    split
    · exact .inr rfl
    · exact .inl ⟨found, rfl⟩

/-! ## What an answer holds -/

section Collected

variable {missing : String} {find : String → Except FeedError α} {pairs : List Pair}
  {found table : Table α}

/-- Under the symbol of a pair there is what was found for it, and all else is as before. -/
theorem get?_collect (h : (f.collect missing find pairs found).1 = .ok table) (symbol : String) :
    table.get? symbol =
      (if symbol ∈ pairs.map Pair.symbol then (find symbol).toOption else none).or
        (found.get? symbol) := by
  induction pairs generalizing found with
  | nil =>
    obtain rfl := Except.ok.inj h
    rfl
  | cons p rest ih =>
    unfold collect at h
    by_cases hsymbol : symbol = p.symbol
    · subst hsymbol
      simp only [List.map_cons, List.mem_cons, true_or, ↓reduceIte]
      split at h
      · rename_i a hfind
        rw [ih h, Table.get?_put_self, hfind]
        split <;> rfl
      · cases h
      · rename_i e _ hfind
        rw [ih h, hfind]
        split <;> rfl
    · simp only [List.map_cons, List.mem_cons, hsymbol, false_or]
      split at h
      · rw [ih h, Table.get?_put_of_ne _ hsymbol]
      · cases h
      · exact ih h

theorem nodup_keys_collect (h : (f.collect missing find pairs found).1 = .ok table)
    (hfound : found.keys.Nodup) : table.keys.Nodup := by
  induction pairs generalizing found with
  | nil =>
    obtain rfl := Except.ok.inj h
    exact hfound
  | cons p rest ih =>
    unfold collect at h
    split at h
    · exact ih h (Table.nodup_keys_put hfound _ _)
    · cases h
    · exact ih h hfound

theorem get?_collect_empty (h : (f.collect missing find pairs .empty).1 = .ok table)
    (symbol : String) (a : α) :
    table.get? symbol = some a ↔ (∃ p ∈ pairs, p.symbol = symbol) ∧ find symbol = .ok a := by
  rw [get?_collect h, Table.get?_empty, Option.or_none]
  simp [toOption_eq_some]

theorem answer_eq_ok_iff {none : FeedError} :
    (answer none (f.collect missing find pairs found)).result = .ok table ↔
      (f.collect missing find pairs found).1 = .ok table ∧ table.keys ≠ [] := by
  unfold answer
  split
  · rename_i hcollect
    simp [hcollect]
  · rename_i found' events hcollect
    rw [hcollect]
    by_cases hkeys : found'.keys = []
    · rw [if_pos ((Table.isEmpty_iff found').mpr hkeys)]
      refine iff_of_false (by simp) fun h => h.2 ?_
      rw [← Except.ok.inj h.1, hkeys]
    · rw [if_neg (mt (Table.isEmpty_iff found').mp hkeys)]
      simp only [Except.ok.injEq]
      refine ⟨fun h => ⟨h, ?_⟩, And.left⟩
      rw [← h]
      exact hkeys

end Collected

/-- The law of a query: a reply holds, for each pair asked for, what there is under its symbol, and
nothing else; it is an error if there is nothing for any of the pairs. No address is asked. -/
structure Answered (has : String → α → Prop) (asked : List Pair) (none : FeedError)
    (reply : Reply (Table α)) : Prop where
  found : (∃ table, reply.result = .ok table) ↔ ∃ p ∈ asked, ∃ a, has p.symbol a
  keys : ∀ table, reply.result = .ok table → table.keys.Nodup ∧
    ∀ symbol, symbol ∈ table.keys ↔ ∃ p ∈ asked, p.symbol = symbol ∧ ∃ a, has p.symbol a
  values : ∀ table, reply.result = .ok table →
    ∀ symbol a, table.get? symbol = some a → has symbol a
  missing : (¬ ∃ p ∈ asked, ∃ a, has p.symbol a) → reply.result = .error none
  fetched : reply.fetched = []

/-- A query whose pairs do not fault obeys the law. -/
theorem answer_answered {missing : String} {none : FeedError} {find : String → Except FeedError α}
    {has : String → α → Prop} {asked : List Pair}
    (hfind : ∀ symbol a, find symbol = .ok a ↔ has symbol a)
    (hfault : ¬ ∃ p ∈ asked, ∃ fault, find p.symbol = .error (.fault fault)) :
    Answered has asked none (answer none (f.collect missing find asked .empty)) := by
  -- The keys of whatever is collected, and whether there are any.
  have hkeys : ∀ table, (f.collect missing find asked .empty).1 = .ok table → ∀ symbol,
      symbol ∈ table.keys ↔ ∃ p ∈ asked, p.symbol = symbol ∧ ∃ a, has p.symbol a := by
    intro table htable symbol
    rw [← Table.has_iff_mem_keys, Table.has, Option.isSome_iff_exists]
    simp only [get?_collect_empty htable, hfind]
    constructor
    · rintro ⟨a, ⟨p, hp, rfl⟩, ha⟩
      exact ⟨p, hp, rfl, a, ha⟩
    · rintro ⟨p, hp, rfl, a, ha⟩
      exact ⟨a, ⟨p, hp, rfl⟩, ha⟩
  have hfound : (∃ table, (answer none (f.collect missing find asked .empty)).result = .ok table) ↔
      ∃ p ∈ asked, ∃ a, has p.symbol a := by
    constructor
    · rintro ⟨table, htable⟩
      obtain ⟨hcollect, hsome⟩ := answer_eq_ok_iff.mp htable
      obtain ⟨symbol, hsymbol⟩ := List.exists_mem_of_ne_nil _ hsome
      obtain ⟨p, hp, -, ha⟩ := (hkeys table hcollect symbol).mp hsymbol
      exact ⟨p, hp, ha⟩
    · rintro ⟨p, hp, ha⟩
      cases hcollect : (f.collect missing find asked .empty).1 with
      | error fault => exact absurd (exists_collect_eq_error.mp ⟨fault, hcollect⟩) hfault
      | ok table =>
        have hmem := (hkeys table hcollect p.symbol).mpr ⟨p, hp, rfl, ha⟩
        exact ⟨table, answer_eq_ok_iff.mpr ⟨hcollect, List.ne_nil_of_mem hmem⟩⟩
  refine ⟨hfound, fun table htable => ?_, fun table htable symbol a ha => ?_, fun hnone => ?_, ?_⟩
  · obtain ⟨hcollect, -⟩ := answer_eq_ok_iff.mp htable
    exact ⟨nodup_keys_collect hcollect List.nodup_nil, hkeys table hcollect⟩
  · obtain ⟨hcollect, -⟩ := answer_eq_ok_iff.mp htable
    exact (hfind symbol a).mp ((get?_collect_empty hcollect symbol a).mp ha).2
  · rcases answer_of_no_fault hfault with htable | herror
    · exact absurd (hfound.mp htable) hnone
    · exact herror
  · unfold answer
    split <;> rfl

/-! ## Queries for one pair -/

theorem answer_collect_singleton {missing : String} {none : FeedError}
    {find : String → Except FeedError α} {table : Table α} :
    (answer none (f.collect missing find [p] .empty)).result = .ok table ↔
      ∃ a, find p.symbol = .ok a ∧ table = Table.empty.put p.symbol a := by
  unfold collect
  split
  · rename_i a hfind
    simp [answer, collect, hfind, Table.isEmpty, Table.put, Table.putEntry, Table.empty, eq_comm]
  · rename_i fault hfind
    simp [answer, hfind]
  · rename_i e _ hfind
    simp [answer, collect, hfind, Table.isEmpty, Table.empty]

theorem tickers_singleton_eq_ok {table : Table Ticker} :
    (f.tickers [p]).result = .ok table ↔
      ∃ t, f.store.ticker p.symbol = .ok t ∧ table = Table.empty.put p.symbol t :=
  answer_collect_singleton

theorem candles_singleton_eq_ok {table : Table (List Candle)} :
    (f.candles [p]).result = .ok table ↔
      ∃ list, f.candlesOf p.symbol = .ok list ∧ table = Table.empty.put p.symbol list :=
  answer_collect_singleton

end MarketFeed.Feed
