import MarketFeed.Proofs.Feed.Ingestion

/-!
# Pairs that a subscription adds

A request may name pairs that are subscribed, pairs with a symbol that another pair of it has, and
pairs that the exchange does not list. Looking up what is new, confirming it and registering it
leave each of them out for one of these reasons, and keep the others in the order of the request.

* `firsts`: the pairs of a request that are the first with their symbol (`firsts_cons`).
* `newPairs_eq`: the new pairs of a request are the firsts that are not subscribed.
* `register_of_new`: registering new pairs of different symbols puts them behind the others.
* `adds`: the pairs that a subscription adds; `subscribe_of_listed` says that it adds these.
* `isSubscribed_subscribe`: which symbols are subscribed afterwards.
* `subscribe_adds`: this, for a subscription, the same one again, and two in any order.
-/

namespace MarketFeed

namespace Feed

/-! ## The first pairs of their symbols -/

/-- The pairs that no pair of the same symbol comes before. -/
def firsts (pairs : List Pair) : List Pair :=
  (pairs.zipIdx.filter fun (p, i) => ∀ q ∈ pairs.take i, q.symbol ≠ p.symbol).map Prod.fst

theorem firsts_cons (p : Pair) (rest : List Pair) :
    firsts (p :: rest) = p :: (firsts rest).filter fun q => q.symbol ≠ p.symbol := by
  -- A pair at `i` in the rest is at `i + 1` in the whole, with the first pair before it.
  have hlater : ∀ e : Pair × Nat,
      (∀ q ∈ (p :: rest).take (e.2 + 1), q.symbol ≠ e.1.symbol) ↔
        e.1.symbol ≠ p.symbol ∧ ∀ q ∈ rest.take e.2, q.symbol ≠ e.1.symbol := by
    intro e
    rw [List.take_succ_cons, List.forall_mem_cons, ne_comm]
  unfold firsts
  rw [List.zipIdx_cons, List.filter_cons_of_pos (by simp), List.map_cons, List.zipIdx_succ,
    List.filter_map, List.map_map, List.filter_map, List.filter_filter]
  refine congrArg (p :: ·) (congrArg₂ List.map rfl (List.filter_congr fun e _ => ?_))
  simp only [Function.comp, decide_eq_decide.mpr (hlater e), Bool.decide_and]

theorem firsts_sublist (pairs : List Pair) : (firsts pairs).Sublist pairs := by
  induction pairs with
  | nil => exact List.Sublist.refl _
  | cons p rest ih =>
    rw [firsts_cons]
    exact (List.filter_sublist.trans ih).cons_cons p

/-- No symbol comes twice. -/
theorem nodup_firsts (pairs : List Pair) : ((firsts pairs).map Pair.symbol).Nodup := by
  induction pairs with
  | nil => exact List.nodup_nil
  | cons p rest ih =>
    rw [firsts_cons, List.map_cons, List.nodup_cons]
    refine ⟨?_, ih.sublist (List.filter_sublist.map _)⟩
    rw [List.mem_map]
    rintro ⟨q, hq, hsymbol⟩
    simpa [hsymbol] using (List.mem_filter.mp hq).2

/-- No symbol is lost. -/
theorem exists_firsts {pairs : List Pair} {p : Pair} (h : p ∈ pairs) :
    ∃ q ∈ firsts pairs, q.symbol = p.symbol := by
  induction pairs with
  | nil => cases h
  | cons first rest ih =>
    rw [firsts_cons]
    by_cases hsame : p.symbol = first.symbol
    · exact ⟨first, List.mem_cons_self, hsame.symm⟩
    · obtain ⟨q, hq, hsymbol⟩ := ih ((List.mem_cons.mp h).resolve_left fun he => hsame (he ▸ rfl))
      refine ⟨q, List.mem_cons_of_mem first (List.mem_filter.mpr ⟨hq, ?_⟩), hsymbol⟩
      simpa [hsymbol] using hsame

/-- Leaving out symbols first makes no difference. -/
theorem firsts_filter (keep : String → Bool) (pairs : List Pair) :
    firsts (pairs.filter fun p => keep p.symbol) =
      (firsts pairs).filter fun p => keep p.symbol := by
  induction pairs with
  | nil => rfl
  | cons p rest ih =>
    rw [firsts_cons]
    by_cases hp : keep p.symbol = true
    · rw [List.filter_cons_of_pos (by exact hp), List.filter_cons_of_pos (by exact hp),
        firsts_cons, ih, List.filter_filter, List.filter_filter]
      exact congrArg (p :: ·) (List.filter_congr fun q _ => Bool.and_comm _ _)
    · rw [List.filter_cons_of_neg (by exact hp), List.filter_cons_of_neg (by exact hp), ih,
        List.filter_filter]
      refine List.filter_congr fun q _ => ?_
      by_cases hq : q.symbol = p.symbol
      · simp [hq, hp]
      · simp [hq]

/-! ## New pairs -/

theorem newPairs_go_eq (seen : List String) (pairs : List Pair) :
    newPairs.go seen pairs = (firsts pairs).filter fun p => !seen.contains p.symbol := by
  induction pairs generalizing seen with
  | nil => rfl
  | cons p rest ih =>
    simp only [newPairs.go, firsts_cons]
    -- Pairs with the symbol of the first one go either way, as seen before it or because of it.
    by_cases hp : seen.contains p.symbol = true
    · rw [if_pos hp, ih, List.filter_cons_of_neg (by simpa using hp), List.filter_filter]
      refine List.filter_congr fun q _ => ?_
      by_cases hq : q.symbol = p.symbol
      · simp [hq, List.contains_iff_mem.mp hp]
      · simp [hq]
    · rw [if_neg hp, ih, List.filter_cons_of_pos (by simpa using hp), List.filter_filter]
      refine congrArg (p :: ·) (List.filter_congr fun q _ => ?_)
      by_cases hq : q.symbol = p.symbol <;> simp [hq]

/-- The new pairs of a request are the first ones of their symbols that are not subscribed. -/
theorem newPairs_eq (f : Feed) (pairs : List Pair) :
    f.newPairs pairs = (firsts pairs).filter fun p => !f.isSubscribed p.symbol := by
  rw [newPairs, newPairs_go_eq, firsts_filter fun symbol => !f.isSubscribed symbol]
  simp

/-- There are new pairs if and only if a symbol of the request is not subscribed. -/
theorem newPairs_ne_nil_iff {f : Feed} {pairs : List Pair} :
    f.newPairs pairs ≠ [] ↔ ∃ p ∈ pairs, f.isSubscribed p.symbol = false := by
  rw [newPairs_eq]
  constructor
  · intro hne
    obtain ⟨p, hp⟩ := List.exists_mem_of_ne_nil _ hne
    obtain ⟨hfirst, hnew⟩ := List.mem_filter.mp hp
    exact ⟨p, (firsts_sublist pairs).subset hfirst, by simpa using hnew⟩
  · rintro ⟨p, hp, hnew⟩
    obtain ⟨q, hq, hsymbol⟩ := exists_firsts hp
    exact List.ne_nil_of_mem (List.mem_filter.mpr ⟨hq, by simp [hsymbol, hnew]⟩)

/-! ## Registering new pairs -/

/-- New pairs of different symbols come behind the subscribed ones, and all of them are given. -/
theorem register_of_new (f : Feed) {pairs : List Pair} (hnodup : (pairs.map Pair.symbol).Nodup)
    (hnew : ∀ p ∈ pairs, f.isSubscribed p.symbol = false) :
    f.register pairs =
      ({ f with subscribed := ⟨f.subscribed.entries ++ pairs.map fun p => (p.symbol, p)⟩ },
        pairs) := by
  induction pairs generalizing f with
  | nil => simp [register]
  | cons p rest ih =>
    obtain ⟨hp, hrest⟩ := List.nodup_cons.mp hnodup
    have hfirst := hnew p List.mem_cons_self
    have hstill : ∀ q ∈ rest, (f.subscribed.put p.symbol p).has q.symbol = false := by
      intro q hq
      have hne : q.symbol ≠ p.symbol := fun he => hp (he ▸ List.mem_map_of_mem hq)
      rw [Table.has_put, decide_eq_false hne]
      exact hnew q (List.mem_cons_of_mem p hq)
    simp only [register, hfirst]
    rw [ih { f with subscribed := f.subscribed.put p.symbol p } hrest hstill]
    simp [Table.entries_put_of_new hfirst]

/-! ## Subscribing listed pairs -/

/-- The pairs of a request that a subscription adds: the first ones of their symbols that are not
subscribed and whose symbol is listed. -/
def adds (f : Feed) (listed pairs : List Pair) : List Pair :=
  (firsts pairs).filter fun p =>
    f.isSubscribed p.symbol = false ∧ ∃ r ∈ listed, Text.upper r.symbol = p.symbol

section Listed

variable {f : Feed} {body : List UInt8} {listed : List Pair}

theorem confirm_of_listed (h : f.exchange.readListing body = .ok listed) (pairs : List Pair) :
    (f.confirm pairs (.ok body)).result =
      .ok (pairs.filter fun p => ∃ r ∈ listed, Text.upper r.symbol = p.symbol) := by
  unfold confirm
  split
  · rename_i hnone
    rw [List.isEmpty_iff.mp hnone]
    rfl
  · simp only [listedSymbols, h, confirmPairs]
    congr 2
    ext p
    simp

theorem confirm_newPairs (h : f.exchange.readListing body = .ok listed) (pairs : List Pair) :
    (f.confirm (f.newPairs pairs) (.ok body)).result = .ok (f.adds listed pairs) := by
  rw [confirm_of_listed h, newPairs_eq, List.filter_filter, adds]
  congr 2
  ext p
  simp [Bool.and_comm]

/-- What a subscription adds is new, and no symbol comes twice. -/
theorem register_adds (f : Feed) (listed pairs : List Pair) :
    f.register (f.adds listed pairs) =
      ({ f with subscribed :=
          ⟨f.subscribed.entries ++ (f.adds listed pairs).map fun p => (p.symbol, p)⟩ },
        f.adds listed pairs) := by
  refine register_of_new f ((nodup_firsts pairs).sublist (List.filter_sublist.map _)) fun p hp => ?_
  exact (of_decide_eq_true (List.mem_filter.mp hp).2).1

/-- With a listing, a subscription adds the pairs that are to be added. -/
theorem subscribe_of_listed (h : f.exchange.readListing body = .ok listed) (pairs : List Pair) :
    (f.subscribe pairs (.ok body)).2.result = .ok (f.adds listed pairs) ∧
      ∃ c, (f.subscribe pairs (.ok body)).1 =
        { f with
          subscribed := ⟨f.subscribed.entries ++ (f.adds listed pairs).map fun p => (p.symbol, p)⟩
          controller := c } := by
  have hconfirm := confirm_newPairs h pairs
  unfold subscribe
  dsimp only
  split
  · rename_i hnone
    rw [List.isEmpty_iff.mp hnone] at hconfirm
    have hadds : [] = f.adds listed pairs := Except.ok.inj hconfirm
    rw [← hadds]
    exact ⟨rfl, f.controller, by simp⟩
  · rw [hconfirm]
    dsimp only [addConfirmed]
    rw [register_adds]
    refine ⟨rfl, ?_⟩
    dsimp only
    split
    · exact connectAll_eq _ _
    · exact ⟨f.controller, rfl⟩

/-- A subscription with nothing to add changes nothing. -/
theorem subscribe_of_adds_nil (h : f.exchange.readListing body = .ok listed) {pairs : List Pair}
    (hnone : f.adds listed pairs = []) : (f.subscribe pairs (.ok body)).1 = f := by
  have hconfirm := confirm_newPairs h pairs
  unfold subscribe
  dsimp only
  split
  · rfl
  · rw [hconfirm, hnone]
    simp [addConfirmed, register]

/-- Afterwards those symbols are subscribed that were before, and the listed ones of the request. -/
theorem isSubscribed_subscribe (h : f.exchange.readListing body = .ok listed) (pairs : List Pair)
    (symbol : String) :
    (f.subscribe pairs (.ok body)).1.isSubscribed symbol = true ↔
      f.isSubscribed symbol = true ∨
        (∃ p ∈ pairs, p.symbol = symbol) ∧ ∃ r ∈ listed, Text.upper r.symbol = symbol := by
  obtain ⟨-, c, hc⟩ := subscribe_of_listed h pairs
  rw [hc]
  have hadds : symbol ∈ (f.adds listed pairs).map Pair.symbol ↔ f.isSubscribed symbol = false ∧
      (∃ p ∈ pairs, p.symbol = symbol) ∧ ∃ r ∈ listed, Text.upper r.symbol = symbol := by
    rw [List.mem_map]
    constructor
    · rintro ⟨p, hp, rfl⟩
      obtain ⟨hfirst, hadd⟩ := List.mem_filter.mp hp
      obtain ⟨hnew, hlisted⟩ := of_decide_eq_true hadd
      exact ⟨hnew, ⟨p, (firsts_sublist pairs).subset hfirst, rfl⟩, hlisted⟩
    · rintro ⟨hnew, ⟨p, hp, rfl⟩, hlisted⟩
      obtain ⟨q, hq, hsymbol⟩ := exists_firsts hp
      refine ⟨q, List.mem_filter.mpr ⟨hq, decide_eq_true ?_⟩, hsymbol⟩
      rw [hsymbol]
      exact ⟨hnew, hlisted⟩
  have hkeys : (Table.mk (f.subscribed.entries ++
      (f.adds listed pairs).map fun p => (p.symbol, p))).keys =
        f.subscribed.keys ++ (f.adds listed pairs).map Pair.symbol := by
    simp [Table.keys]
  rw [isSubscribed, Table.has_iff_mem_keys, hkeys, List.mem_append, hadds, isSubscribed,
    ← Table.has_iff_mem_keys]
  cases f.subscribed.has symbol <;> simp

/-- A subscription leaves nothing to add for the same one again. -/
theorem adds_subscribe (h : f.exchange.readListing body = .ok listed) (pairs : List Pair) :
    (f.subscribe pairs (.ok body)).1.adds listed pairs = [] := by
  refine List.filter_eq_nil_iff.mpr fun p hp hadd => ?_
  obtain ⟨hnew, hlisted⟩ := of_decide_eq_true hadd
  have hsubscribed := (isSubscribed_subscribe h pairs p.symbol).mpr
    (.inr ⟨⟨p, (firsts_sublist pairs).subset hp, rfl⟩, hlisted⟩)
  rw [hnew] at hsubscribed
  cases hsubscribed

/-- **Subscribing.** With a listing that the exchange can read, a subscription gives the pairs of
the request that are the first with their symbol, are not subscribed, and have the upper-case
symbol of a listed pair. They come behind the subscribed pairs, which stay as they are; besides,
only the connections change. The same subscription again gives and changes nothing. Two
requests, in either order or as one, end with the same symbols subscribed. -/
theorem subscribe_adds (h : f.exchange.readListing body = .ok listed) (pairs : List Pair) :
    ∃ f' c, f' = (f.subscribe pairs (.ok body)).1 ∧
      (f.subscribe pairs (.ok body)).2.result = .ok (f.adds listed pairs) ∧
      f' = { f with
        subscribed := ⟨f.subscribed.entries ++ (f.adds listed pairs).map fun p => (p.symbol, p)⟩
        controller := c } ∧
      (f'.subscribe pairs (.ok body)).2.result = .ok [] ∧
      (f'.subscribe pairs (.ok body)).1 = f' ∧
      ∀ others symbol,
        (f'.subscribe others (.ok body)).1.isSubscribed symbol =
          ((f.subscribe others (.ok body)).1.subscribe pairs (.ok body)).1.isSubscribed symbol ∧
        (f'.subscribe others (.ok body)).1.isSubscribed symbol =
          (f.subscribe (pairs ++ others) (.ok body)).1.isSubscribed symbol := by
  obtain ⟨hresult, c, hc⟩ := subscribe_of_listed h pairs
  have hread : ∀ requested, (f.subscribe requested (.ok body)).1.exchange.readListing body =
      .ok listed := by
    intro requested
    rw [(subscribe_ingested f requested (.ok body)).exchange]
    exact h
  have hagain := (subscribe_of_listed (hread pairs) pairs).1
  rw [adds_subscribe h] at hagain
  have hsame := subscribe_of_adds_nil (hread pairs) (adds_subscribe h pairs)
  refine ⟨_, c, rfl, hresult, hc, hagain, hsame, fun others symbol => ⟨?_, ?_⟩⟩
  · rw [Bool.eq_iff_iff, isSubscribed_subscribe (hread pairs), isSubscribed_subscribe h,
      isSubscribed_subscribe (hread others), isSubscribed_subscribe h]
    exact or_right_comm
  · rw [Bool.eq_iff_iff, isSubscribed_subscribe (hread pairs), isSubscribed_subscribe h,
      isSubscribed_subscribe h, or_assoc, ← or_and_right]
    simp only [List.mem_append, or_and_right, exists_or]

end Listed

/-- A request with a pair in lower case, the same in upper case, and a pair that is not listed. -/
def mixedRequest : List Pair :=
  [⟨"osmo", "usdt"⟩, .of "juno" "usdt", .of "osmo" "usdt", .of "atom" "usdt"]

/-- The pair in lower case is the first with its symbol. -/
theorem subscribe_adds_mixed :
    ∃ f f' body, f = bare .coinbase none .default ∧
      body = coinbaseListing [.of "atom" "usdt", .of "osmo" "usdt"] ∧
      f' = (f.subscribe mixedRequest (.ok body)).1 ∧
      (f.subscribe mixedRequest (.ok body)).2.result =
        .ok [⟨"osmo", "usdt"⟩, .of "atom" "usdt"] ∧
      (f'.subscribe mixedRequest (.ok body)).2.result = .ok [] := by
  have hlisted : (Exchange.coinbase.readListing
      (coinbaseListing [.of "atom" "usdt", .of "osmo" "usdt"])).toOption =
        some [.of "atom" "usdt", .of "osmo" "usdt"] := by
    simp only [coinbaseListing, Json.ascii_render]
    decide +kernel
  rw [toOption_eq_some] at hlisted
  have hadds : (bare .coinbase none .default).adds [.of "atom" "usdt", .of "osmo" "usdt"]
      mixedRequest = [⟨"osmo", "usdt"⟩, .of "atom" "usdt"] := by decide +kernel
  obtain ⟨f', c, hf', hresult, -, hagain, -⟩ :=
    subscribe_adds (f := bare .coinbase none .default) hlisted mixedRequest
  exact ⟨_, f', _, rfl, rfl, hf', hadds ▸ hresult, hagain⟩

end Feed

end MarketFeed
