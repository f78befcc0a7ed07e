import MarketFeed.Feed.Subscribe
import MarketFeed.Proofs.Market.Symbol

/-!
# What subscribing changes

Subscribing touches the table of subscribed pairs and the connections, and nothing else of a feed.

* `register_fst`: registering puts the pairs into the table of subscribed pairs.
* `keys_register`: the symbols of the pairs that registering gives are new, and no others are.
* `Keyed`: each subscribed pair is under its own symbol, and under that only.
* `subscribe_eq`, `open_eq`: a subscription or an opening gives the feed before it with confirmed
  pairs put and with other connections.
* `mem_confirm`: a pair is confirmed only if the listing has a pair with its symbol.
-/

namespace MarketFeed

/-- Does a listing of an exchange have a pair with the symbol of a given one? -/
def Listed (exchange : Exchange) (listing : Listing) (p : Pair) : Prop :=
  ∃ body listed r, listing = .ok body ∧ exchange.readListing body = .ok listed ∧ r ∈ listed ∧
    r.symbol = p.symbol

namespace Feed

/-! ## Pairs and connections -/

/-- A table of subscribed pairs with more pairs put under their symbols. -/
def putAll (t : Table Pair) (pairs : List Pair) : Table Pair :=
  pairs.foldl (fun t p => t.put p.symbol p) t

/-- Symbols stay in a table of subscribed pairs, and those of the pairs put are added. -/
theorem has_putAll (t : Table Pair) (pairs : List Pair) (symbol : String) :
    (putAll t pairs).has symbol = true ↔
      t.has symbol = true ∨ ∃ p ∈ pairs, p.symbol = symbol := by
  induction pairs generalizing t with
  | nil => simp [putAll]
  | cons p rest ih =>
    have h := ih (t.put p.symbol p)
    simp only [putAll, List.foldl_cons] at h ⊢
    rw [h, Table.has_put]
    simp only [Bool.or_eq_true, decide_eq_true_eq, List.mem_cons, exists_eq_or_imp]
    constructor
    · rintro ((hp | ht) | hr)
      · exact .inr (.inl hp.symm)
      · exact .inl ht
      · exact .inr (.inr hr)
    · rintro (ht | hp | hr)
      · exact .inl (.inr ht)
      · exact .inl (.inl hp.symm)
      · exact .inr hr

/-- Whatever is in a table after putting pairs was there before or is one of these. -/
theorem get?_putAll {t : Table Pair} {pairs : List Pair} {symbol : String} {p : Pair}
    (h : (putAll t pairs).get? symbol = some p) :
    t.get? symbol = some p ∨ p ∈ pairs ∧ p.symbol = symbol := by
  induction pairs generalizing t with
  | nil => exact .inl h
  | cons q rest ih =>
    rcases ih h with hput | ⟨hmem, hsym⟩
    · rw [Table.get?_put] at hput
      split at hput
      · rename_i hq
        obtain rfl := Option.some.inj hput
        exact .inr ⟨List.mem_cons_self, hq.symm⟩
      · exact .inl hput
    · exact .inr ⟨List.mem_cons_of_mem q hmem, hsym⟩

theorem register_fst (f : Feed) (pairs : List Pair) :
    (f.register pairs).1 = { f with subscribed := putAll f.subscribed pairs } := by
  induction pairs generalizing f with
  | nil => rfl
  | cons p rest ih =>
    simp only [register, ih]
    rfl

/-- The symbols of the pairs that registering gives are those that come to the table. -/
theorem keys_register (f : Feed) (pairs : List Pair) :
    (f.register pairs).1.subscribed.keys =
      f.subscribed.keys ++ (f.register pairs).2.map Pair.symbol := by
  induction pairs generalizing f with
  | nil => simp [register]
  | cons p rest ih =>
    simp only [register, ih, Table.keys_put]
    cases hp : f.isSubscribed p.symbol <;> unfold isSubscribed at hp <;> simp [hp]

/-- A table that has each pair under its own symbol, and no symbol twice. -/
structure Keyed (t : Table Pair) : Prop where
  nodup : t.keys.Nodup
  own : ∀ e ∈ t.entries, e.2.symbol = e.1

theorem empty_keyed : Keyed .empty := ⟨List.nodup_nil, by simp [Table.empty]⟩

theorem Keyed.put {t : Table Pair} (h : Keyed t) (p : Pair) : Keyed (t.put p.symbol p) := by
  refine ⟨Table.nodup_keys_put h.nodup _ _, fun e he => ?_⟩
  rcases Table.mem_putEntry he with rfl | hold
  · rfl
  · exact h.own e hold

theorem Keyed.putAll {t : Table Pair} (h : Keyed t) (pairs : List Pair) :
    Keyed (putAll t pairs) := by
  induction pairs generalizing t with
  | nil => exact h
  | cons p rest ih => exact ih (h.put p)

/-- The symbols of the subscribed pairs are the keys of their table. -/
theorem Keyed.symbols {t : Table Pair} (h : Keyed t) : t.values.map Pair.symbol = t.keys := by
  unfold Table.values Table.keys
  rw [List.map_map]
  exact List.map_congr_left h.own

theorem connectAll_eq (f : Feed) (pairs : List Pair) :
    ∃ c, f.connectAll pairs = { f with controller := c } := by
  have hfold : ∀ (parts : List (List Pair)) (f : Feed),
      ∃ c, parts.foldl connect f = { f with controller := c } := by
    intro parts
    induction parts with
    | nil => exact fun f => ⟨f.controller, rfl⟩
    | cons part rest ih =>
      intro f
      obtain ⟨c, hc⟩ := ih (f.connect part)
      exact ⟨c, hc⟩
  exact hfold _ f

theorem connectFirst_eq (f : Feed) (pairs : List Pair) :
    ∃ c, f.connectFirst pairs = { f with controller := c } := by
  unfold connectFirst
  split
  · exact connectAll_eq f pairs
  · exact ⟨_, rfl⟩

theorem addConfirmed_eq (f : Feed) (confirmed : List Pair) :
    ∃ c, (f.addConfirmed confirmed).1 =
      { f with subscribed := putAll f.subscribed confirmed, controller := c } := by
  simp only [addConfirmed, register_fst]
  split
  · obtain ⟨c, hc⟩ := connectAll_eq { f with subscribed := putAll f.subscribed confirmed }
      (f.register confirmed).2
    exact ⟨c, hc⟩
  · exact ⟨f.controller, rfl⟩

/-! ## Confirmation -/

/-- A pair is confirmed only if it was asked for and the listing has a pair with its symbol. -/
theorem mem_confirm {f : Feed} {pairs confirmed : List Pair} {listing : Listing} {p : Pair}
    (h : (f.confirm pairs listing).result = .ok confirmed) (hp : p ∈ confirmed) :
    p ∈ pairs ∧ Listed f.exchange listing p := by
  unfold confirm at h
  split at h
  · obtain rfl := Except.ok.inj h
    cases hp
  · split at h
    · cases h
    · rename_i symbols hsymbols
      obtain rfl := Except.ok.inj h
      obtain ⟨hmem, hsym⟩ := List.mem_filter.mp hp
      unfold listedSymbols at hsymbols
      dsimp only at hsymbols
      split at hsymbols
      · cases hsymbols
      · split at hsymbols
        · cases hsymbols
        · rename_i body _ listed hlisted
          obtain rfl := Except.ok.inj hsymbols
          obtain ⟨r, hr, he⟩ := List.mem_map.mp (List.contains_iff_mem.mp hsym)
          rw [Pair.upper_symbol] at he
          exact ⟨hmem, body, listed, r, rfl, hlisted, hr, he⟩

/-! ## Openings and subscriptions -/

section Open

variable {exchange : Exchange} {configured : Option Endpoint} {options : FeedOptions}
  {pairs : List Pair} {listing : Listing} {f : Feed}

/-- An opening gives a bare feed with the confirmed pairs put and with its first connections. -/
theorem open_eq
    (h : (open? exchange configured options pairs listing).result = .ok f) :
    ∃ confirmed c,
      ((bare exchange configured options).confirm pairs listing).result = .ok confirmed ∧
      f = { bare exchange configured options with
        subscribed := putAll .empty confirmed, controller := c } := by
  unfold open? at h
  dsimp only at h
  split at h
  · cases h
  · rename_i confirmed hconfirmed
    obtain rfl := Except.ok.inj h
    obtain ⟨c, hc⟩ :=
      connectFirst_eq ((bare exchange configured options).register confirmed).1 confirmed
    refine ⟨confirmed, c, hconfirmed, ?_⟩
    rw [hc, register_fst]
    rfl

theorem open_exchange
    (h : (open? exchange configured options pairs listing).result = .ok f) :
    f.exchange = exchange := by
  obtain ⟨confirmed, c, -, rfl⟩ := open_eq h
  rfl

/-- Whatever an opening subscribes is in the listing that it brings. -/
theorem listed_of_open {symbol : String} {p : Pair}
    (h : (open? exchange configured options pairs listing).result = .ok f)
    (hp : f.subscribed.get? symbol = some p) : Listed exchange listing p := by
  obtain ⟨confirmed, c, hconfirmed, rfl⟩ := open_eq h
  rcases get?_putAll hp with hempty | ⟨hmem, -⟩
  · cases hempty
  · exact (mem_confirm hconfirmed hmem).2

end Open

/-- A subscription gives the feed as it was, or with confirmed pairs put and other connections. -/
theorem subscribe_eq (f : Feed) (pairs : List Pair) (listing : Listing) :
    (f.subscribe pairs listing).1 = f ∨
      ∃ confirmed c, (f.confirm (f.newPairs pairs) listing).result = .ok confirmed ∧
        (f.subscribe pairs listing).1 =
          { f with subscribed := putAll f.subscribed confirmed, controller := c } := by
  unfold subscribe
  dsimp only
  split
  · exact .inl rfl
  · split
    · exact .inl rfl
    · rename_i confirmed hconfirmed
      obtain ⟨c, hc⟩ := addConfirmed_eq f confirmed
      exact .inr ⟨confirmed, c, hconfirmed, hc⟩

end Feed

end MarketFeed
