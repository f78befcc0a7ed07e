import MarketFeed.Proofs.Exchange.Drafts

/-!
# Messages that price a pair

A message prices the pair of a spelling if it is well-formed and its texts read as decimals. It
then decodes to the ticker, behind which nothing else about the same symbol follows.

* `PricesOnly`: a message of a provider has one ticker, under some spelling.
* `Prices`: a message of a provider has a ticker under some spelling. A message of Osmosis may
  have any other entries before it, and behind it those of other symbols.
* `PricesOnly.decode`, `Prices.decode`: what such messages decode to.
-/

namespace MarketFeed

/-! ## Coinbase -/

namespace Coinbase

/-- A ticker message of a product, with its price and its volume. -/
def Prices (octets : List UInt8) (wire : String) (t : Ticker) : Prop :=
  readType octets = .ok "ticker" ∧ ∃ m, readTicker octets = .ok m ∧ m.productId = wire ∧
    Decimal.read m.price = .ok t.price ∧ Decimal.read m.volume = .ok t.volume

theorem Prices.decode {octets : List UInt8} {wire : String} {t : Ticker} {r : Pair}
    (h : Prices octets wire t) (hr : Pair.ofSeparated? separator wire = some r) :
    (decode octets).result = .ok (.updates [.ticker r.symbol t]) := by
  obtain ⟨htype, m, hm, rfl, hprice, hvolume⟩ := h
  have hsymbol : canonicalSymbol m.productId = .ok r.symbol := by
    unfold canonicalSymbol
    rw [hr]
  have hupdate : m.update = .ok (.ticker r.symbol t) := by
    simp only [TickerMessage.update, bind_eq_ok]
    exact ⟨_, hsymbol, _, hprice, _, hvolume, rfl⟩
  unfold Coinbase.decode
  simp [htype, hm, hupdate, keepValid]

end Coinbase

/-! ## Osmosis -/

namespace Osmosis

/-- A message with one entry, the ticker of a spelling. -/
def PricesOnly (octets : List UInt8) (wire : String) (t : Ticker) : Prop :=
  ∃ fields, Json.Value.read octets = .ok (.object [(wire, .object fields)]) ∧
    tickerOfValue (.object fields) = .ok t

/-- Does a message have one entry, the ticker of a spelling? -/
def hasOnly (octets : List UInt8) (wire : String) (t : Ticker) : Bool :=
  match Json.Value.read octets with
  | .ok (.object [(key, .object fields)]) =>
    decide (key = wire) && decide ((tickerOfValue (.object fields)).toOption = some t)
  | _ => false

theorem hasOnly_iff {octets : List UInt8} {wire : String} {t : Ticker} :
    hasOnly octets wire t = true ↔ PricesOnly octets wire t := by
  constructor
  · intro h
    unfold hasOnly at h
    split at h
    · rename_i key fields hread
      simp only [Bool.and_eq_true, decide_eq_true_eq, toOption_eq_some] at h
      obtain ⟨rfl, ht⟩ := h
      exact ⟨fields, hread, ht⟩
    · cases h
  · rintro ⟨fields, hread, ht⟩
    simp [hasOnly, hread, ht, Except.toOption]

instance (octets : List UInt8) (wire : String) (t : Ticker) :
    Decidable (PricesOnly octets wire t) := decidable_of_iff _ hasOnly_iff

/-- A message with the ticker of a spelling among its entries. No later entry is about the same
symbol. -/
def Prices (octets : List UInt8) (wire : String) (t : Ticker) : Prop :=
  ∃ before fields after,
    Json.Value.read octets = .ok (.object (before ++ (wire, .object fields) :: after)) ∧
    tickerOfValue (.object fields) = .ok t ∧
    ∀ e ∈ after, ∀ q r, Pair.ofSeparated? separator e.1 = some q →
      Pair.ofSeparated? separator wire = some r → q.symbol ≠ r.symbol

theorem gatherEntry_ticker {wire : String} {fields : List (String × Json.Value)} {t : Ticker}
    {r : Pair} (hr : Pair.ofSeparated? separator wire = some r)
    (ht : tickerOfValue (.object fields) = .ok t) :
    gatherEntry (wire, .object fields) = .ok ([.ticker r.symbol t], []) := by
  unfold gatherEntry
  simp only [hr, ht]
  rfl

theorem PricesOnly.decode {octets : List UInt8} {wire : String} {t : Ticker} {r : Pair}
    (h : PricesOnly octets wire t) (hr : Pair.ofSeparated? separator wire = some r) :
    (decode octets).result = .ok (.updates [.ticker r.symbol t]) := by
  obtain ⟨fields, hread, ht⟩ := h
  rw [decode_object hread]
  simp [decodeEntries, gatherEntry_ticker hr ht, gatherAll]

theorem Prices.decode {octets : List UInt8} {wire : String} {t : Ticker} {r : Pair}
    (h : Prices octets wire t) (hr : Pair.ofSeparated? separator wire = some r) :
    ∃ first rest, (decode octets).result = .ok (.updates (first ++ .ticker r.symbol t :: rest)) ∧
      ∀ u ∈ rest, u.symbol ≠ r.symbol := by
  obtain ⟨before, fields, after, hread, ht, hafter⟩ := h
  obtain ⟨_, hentry⟩ := gatherEntry_finished (wire, .object fields)
  rw [gatherEntry_ticker hr ht] at hentry
  have hown : finished (entryDrafts (wire, .object fields)) = [.ticker r.symbol t] :=
    (Prod.mk.inj (Except.ok.inj hentry)).1.symm
  rw [decode_object hread, result_decodeEntries, List.flatMap_append, List.flatMap_cons, hown]
  refine ⟨_, _, rfl, fun u hu => ?_⟩
  obtain ⟨e, he, hin⟩ := List.mem_flatMap.mp hu
  obtain ⟨_, hgather⟩ := gatherEntry_finished e
  obtain ⟨q, hq, hsymbol⟩ := pair_of_gatherEntry hgather hin
  exact hsymbol ▸ hafter e he q r hq hr

end Osmosis

/-! ## Both exchanges -/

/-- A message of a provider has one ticker, that of a spelling. -/
def PricesOnly : Provider → List UInt8 → String → Ticker → Prop
  | .coinbase => Coinbase.Prices
  | .osmosisV2 => Osmosis.PricesOnly

/-- A message of a provider has a ticker of a spelling, and nothing later about its symbol. -/
def Prices : Provider → List UInt8 → String → Ticker → Prop
  | .coinbase => Coinbase.Prices
  | .osmosisV2 => Osmosis.Prices

section Provider

variable {provider : Provider} {octets : List UInt8} {wire : String} {t : Ticker} {r : Pair}

theorem PricesOnly.decode (h : PricesOnly provider octets wire t)
    (hr : (Service.exchangeOf provider).pairOfWire? wire = some r) :
    ((Service.exchangeOf provider).decode octets).result =
      .ok (.updates [.ticker r.symbol t]) := by
  cases provider with
  | coinbase => exact Coinbase.Prices.decode h hr
  | osmosisV2 => exact Osmosis.PricesOnly.decode h hr

/-- Such a message decodes to updates, of which the ticker is the last one of its symbol. -/
theorem Prices.decode (h : Prices provider octets wire t)
    (hr : (Service.exchangeOf provider).pairOfWire? wire = some r) :
    ∃ first rest, ((Service.exchangeOf provider).decode octets).result =
        .ok (.updates (first ++ .ticker r.symbol t :: rest)) ∧ ∀ u ∈ rest, u.symbol ≠ r.symbol := by
  cases provider with
  | coinbase => exact ⟨[], [], Coinbase.Prices.decode h hr, by simp⟩
  | osmosisV2 => exact Osmosis.Prices.decode h hr

end Provider

end MarketFeed
