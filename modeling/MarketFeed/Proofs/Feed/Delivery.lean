import MarketFeed.Proofs.Exchange.Priced
import MarketFeed.Proofs.Feed.Attribution
import MarketFeed.Proofs.Feed.Growth
import MarketFeed.Proofs.Feed.Query
import MarketFeed.Proofs.Market.Spelling

/-!
# From a message to the answer

A message that prices a subscribed pair is decoded, accepted and kept, and the next query for the
pair gives its ticker. The way starts at the exchange's spelling of the pair; a listing may confirm
pairs whose spelling does not read as a pair, and these are never priced under it.

* `ticker_of_step`: after a message the store has the last ticker in it.
* `exists_step_of_ticker`: a message with one ticker does not fault, unless the count is full.
* `subscribed_delivery`: which subscribed pairs get what a message says about them.
* `subscribed_not_delivered`: a subscribed pair that does not.
-/

namespace MarketFeed

namespace Feed

/-! ## The last ticker of a message -/

theorem ticker?_of_ne {u : Update} {symbol : String} (h : u.symbol ≠ symbol) :
    u.ticker? symbol = none := by
  cases u with
  | ticker s t => exact if_neg h
  | trade | candle => rfl

/-- All tickers of a subscribed symbol are accepted. -/
theorem filterMap_acceptedOf {f : Feed} {symbol : String} (h : f.isSubscribed symbol = true)
    (clock : Clock) (us : List Update) :
    (f.acceptedOf clock us).filterMap (·.1.ticker? symbol) =
      us.filterMap (·.ticker? symbol) := by
  induction us generalizing clock with
  | nil => rfl
  | cons u us ih =>
    rw [acceptedOf_cons, List.filterMap_append, ih]
    by_cases hu : f.isSubscribed u.symbol = true
    · rw [if_pos hu]
      simp only [List.filterMap_cons, List.filterMap_nil]
      cases u.ticker? symbol <;> rfl
    · have hnone : u.ticker? symbol = none := ticker?_of_ne fun heq => hu (heq ▸ h)
      rw [if_neg hu]
      simp [hnone]

section Run

variable {exchange : Exchange} {configured : Option Endpoint} {options : FeedOptions}
  {pairs : List Pair} {listing : Listing} {f₀ f f' : Feed} {steps : List Step} {clock : Clock}
  {octets : List UInt8} {symbol : String} {t : Ticker}

/-- After a message the store has the last ticker in it, if its symbol is subscribed. -/
theorem ticker_of_step
    (hopen : (open? exchange configured options pairs listing).result = .ok f₀)
    (hrun : f₀.run steps = .ok f) (hstep : f.step (.frame clock octets) = .ok f')
    (hsubscribed : f.isSubscribed symbol = true) {first rest : List Update}
    (hus : (f.exchange.decode octets).result =
      .ok (.updates (first ++ .ticker symbol t :: rest)))
    (hrest : ∀ u ∈ rest, u.symbol ≠ symbol) : f'.store.ticker symbol = .ok t := by
  have hrun' : f₀.run (steps ++ [.frame clock octets]) = .ok f' :=
    run_append.mpr ⟨f, hrun, run_cons.mpr ⟨f', hstep, rfl⟩⟩
  have hin : f.updatesIn octets = first ++ .ticker symbol t :: rest := by
    unfold updatesIn
    rw [hus]
  have hlater : rest.filterMap (·.ticker? symbol) = [] :=
    List.filterMap_eq_nil_iff.mpr fun u hu => ticker?_of_ne (hrest u hu)
  have hown : (Update.ticker symbol t).ticker? symbol = some t := if_pos rfl
  have haccepted : f₀.accepted (steps ++ [.frame clock octets]) =
      f₀.accepted steps ++ f.acceptedOf clock (f.updatesIn octets) := by
    rw [accepted_append hrun, accepted_cons hstep]
    exact congrArg _ (List.append_nil _)
  rw [(run_writes hopen hrun').2.ticker symbol, filterMap_ticker?_writesOf, haccepted,
    List.filterMap_append, filterMap_acceptedOf hsubscribed, hin]
  simp [hown, hlater]

/-- A message with one ticker of a subscribed symbol does not fault, unless 64 bits cannot hold
the count of the tickers. -/
theorem exists_step_of_ticker (hsubscribed : f.isSubscribed symbol = true)
    (hus : (f.exchange.decode octets).result = .ok (.updates [.ticker symbol t])) :
    (∃ f', f.step (.frame clock octets) = .ok f') ↔ f.counters.isFull .ticker = false := by
  simp only [step_frame_eq_ok, exists_and_left, exists_eq', and_true]
  rw [(handleFrame_updates hus clock).2]
  have hkind : (Update.ticker symbol t).kind = .ticker := rfl
  have hsymbol : f.isSubscribed (Update.ticker symbol t).symbol = true := hsubscribed
  unfold applyAll apply
  rw [if_pos hsymbol, hkind]
  cases f.counters.isFull .ticker <;> simp [keep, applyAll]

end Run

/-! ## Delivery -/

section Provider

variable {provider : Provider} {configured : Option Endpoint} {options : FeedOptions}
  {pairs : List Pair} {listing : Listing} {f₀ f : Feed} {steps : List Step} {p : Pair}

/-- A subscribed pair is subscribed under its symbol. -/
theorem isSubscribed_of_mem
    (hopen : (open? (Service.exchangeOf provider) configured options pairs listing).result = .ok f₀)
    (hrun : f₀.run steps = .ok f) (hp : p ∈ f.subscribed.values) :
    f.isSubscribed p.symbol = true := by
  have hkeyed := (open_run_settled hopen hrun).2
  rw [isSubscribed, Table.has_iff_mem_keys, ← hkeyed.symbols]
  exact List.mem_map_of_mem hp

/-- The exchange's spelling of a pair reads as the pair of its names, or not at all. -/
theorem pairOfWire_wireSymbol (e : Exchange) (p : Pair) :
    e.pairOfWire? (e.wireSymbol p) =
      if p.Spellable e.separator then some (.of p.base p.quote) else none :=
  Pair.ofSeparated?_separated e.separator p

/-- **Delivery.** Let a feed of a provider be opened and run without a fault, and take one of its
subscribed pairs. If the pair has two names without the exchange's separator in them, its spelling
reads as a pair with its symbol; a message with its ticker alone is taken, unless the count of
tickers is full, and after any message that has its ticker last of all with its symbol, a query
gives this ticker. If not, its spelling reads as no pair, and no message carries anything under
it. -/
theorem subscribed_delivery
    (hopen : (open? (Service.exchangeOf provider) configured options pairs listing).result = .ok f₀)
    (hrun : f₀.run steps = .ok f) (hp : p ∈ f.subscribed.values) :
    (p.Spellable (Service.exchangeOf provider).separator →
      (∃ r, (Service.exchangeOf provider).pairOfWire?
          ((Service.exchangeOf provider).wireSymbol p) = some r ∧ r.symbol = p.symbol) ∧
      ∀ clock octets t,
        (PricesOnly provider octets ((Service.exchangeOf provider).wireSymbol p) t →
          ((∃ f', f.step (.frame clock octets) = .ok f') ↔
            f.counters.isFull .ticker = false)) ∧
        (Prices provider octets ((Service.exchangeOf provider).wireSymbol p) t →
          ∀ f', f.step (.frame clock octets) = .ok f' →
            (f'.tickers [p]).result = .ok (Table.empty.put p.symbol t))) ∧
    (¬ p.Spellable (Service.exchangeOf provider).separator →
      (Service.exchangeOf provider).pairOfWire?
          ((Service.exchangeOf provider).wireSymbol p) = none ∧
      ∀ octets u, ¬ Carries provider octets ((Service.exchangeOf provider).wireSymbol p) u) := by
  have hsubscribed := isSubscribed_of_mem hopen hrun hp
  have hexchange : f.exchange = Service.exchangeOf provider :=
    (run_ingested hrun).exchange.trans (open_exchange hopen)
  have hread := pairOfWire_wireSymbol (Service.exchangeOf provider) p
  refine ⟨fun hspell => ?_, fun hspell => ?_⟩
  · rw [if_pos hspell] at hread
    have hsymbol := p.symbol_of_names
    refine ⟨⟨_, hread, hsymbol⟩, fun clock octets t =>
      ⟨fun hprices => ?_, fun hprices f' hstep => ?_⟩⟩
    · have hus := hprices.decode hread
      rw [hsymbol, ← hexchange] at hus
      exact exists_step_of_ticker hsubscribed hus
    · have hdecode := hprices.decode hread
      rw [hsymbol, ← hexchange] at hdecode
      obtain ⟨first, rest, hus, hrest⟩ := hdecode
      have hticker := ticker_of_step hopen hrun hstep hsubscribed hus hrest
      exact tickers_singleton_eq_ok.mpr ⟨t, hticker, rfl⟩
  · rw [if_neg hspell] at hread
    refine ⟨hread, fun octets u hcarries => ?_⟩
    obtain ⟨r, hr, -⟩ := hcarries.pairOfWire
    rw [hread] at hr
    cases hr

end Provider

/-- A listing of ATOM/USDT. -/
def atomListing : Listing := .ok (coinbaseListing [.of "atom" "usdt"])

private theorem coinbaseTicker_prices :
    Prices .coinbase (coinbaseTicker "ATOM-USDT" "3" "0") "ATOM-USDT"
      ⟨⟨3, 0, by decide, by decide⟩, .zero⟩ := by
  have htype : Coinbase.readType (coinbaseTicker "ATOM-USDT" "3" "0") = .ok "ticker" := by
    rw [← toOption_eq_some, coinbaseTicker, Json.ascii_render]
    decide
  have hfields : (Coinbase.readTicker (coinbaseTicker "ATOM-USDT" "3" "0")).toOption.map
      (fun m => (m.productId, m.price, m.volume)) = some ("ATOM-USDT", "3", "0") := by
    rw [coinbaseTicker, Json.ascii_render]
    decide
  obtain ⟨m, hm, hparts⟩ := Option.map_eq_some_iff.mp hfields
  obtain ⟨hproduct, hparts⟩ := Prod.mk.inj hparts
  obtain ⟨hprice, hvolume⟩ := Prod.mk.inj hparts
  rw [toOption_eq_some] at hm
  refine ⟨htype, m, hm, hproduct, ?_, ?_⟩
  · rw [hprice, ← toOption_eq_some]
    decide
  · rw [hvolume, ← toOption_eq_some]
    decide

/-- The price of ATOM/USDT is delivered. -/
theorem subscribed_delivery_atom :
    ∃ f f',
      (open? (Service.exchangeOf .coinbase) none .default [.of "atom" "usdt"] atomListing).result =
        .ok f ∧
      f.step (.frame (5 : Int64) (coinbaseTicker "ATOM-USDT" "3" "0")) = .ok f' ∧
      (f'.tickers [.of "atom" "usdt"]).result =
        .ok (Table.empty.put "ATOMUSDT" ⟨⟨3, 0, by decide, by decide⟩, .zero⟩) := by
  have hall : ((open? (Service.exchangeOf .coinbase) none .default [.of "atom" "usdt"]
      atomListing).result.toOption.map fun f =>
        (f.subscribed.values, f.counters.isFull .ticker)) = some ([.of "atom" "usdt"], false) := by
    rw [atomListing, coinbaseListing, Json.ascii_render]
    decide
  obtain ⟨f, hopen, hstate⟩ := Option.map_eq_some_iff.mp hall
  obtain ⟨hvalues, hfull⟩ := Prod.mk.inj hstate
  rw [toOption_eq_some] at hopen
  have hrun : f.run [] = .ok f := rfl
  have hp : Pair.of "atom" "usdt" ∈ f.subscribed.values := hvalues ▸ List.mem_cons_self
  have hspell : (Pair.of "atom" "usdt").Spellable '-' := by decide
  obtain ⟨-, hdelivery⟩ := (subscribed_delivery hopen hrun hp).1 hspell
  obtain ⟨hstep, hticker⟩ := hdelivery (5 : Int64) (coinbaseTicker "ATOM-USDT" "3" "0")
    ⟨⟨3, 0, by decide, by decide⟩, .zero⟩
  obtain ⟨f', hf'⟩ := (hstep coinbaseTicker_prices).mpr hfull
  exact ⟨f, f', hopen, hf', hticker coinbaseTicker_prices f' hf'⟩

/-- A pair whose base has the separator of Osmosis in it. -/
def slashPair : Pair := .of "ibc/abc" "usdt"

/-- A listing of that pair, as Osmosis sends it. -/
def slashListing : Listing := .ok (Json.ascii (Json.Value.array
  [.object [("base", .string "ibc/abc"), ("quote", .string "usdt")]]).render)

/-- A message of Osmosis with the ticker of that pair. -/
def slashTicker : List UInt8 := Json.ascii (Json.Value.object [("IBC/ABC/USDT",
  .object [("Price", .string "1"), ("Volume", .string "2")])]).render

private theorem slashTicker_prices :
    PricesOnly .osmosisV2 slashTicker "IBC/ABC/USDT"
      ⟨⟨1, 0, by decide, by decide⟩, ⟨2, 0, by decide, by decide⟩⟩ := by
  rw [PricesOnly, slashTicker, Json.ascii_render]
  decide

/-- That pair is subscribed, and its spelling reads as no pair; its message is taken, and a query
for it finds nothing. -/
theorem subscribed_not_delivered :
    ∃ f f',
      (open? (Service.exchangeOf .osmosisV2) none .default [slashPair] slashListing).result =
        .ok f ∧
      slashPair ∈ f.subscribed.values ∧
      Exchange.osmosis.pairOfWire? (Exchange.osmosis.wireSymbol slashPair) = none ∧
      PricesOnly .osmosisV2 slashTicker (Exchange.osmosis.wireSymbol slashPair)
        ⟨⟨1, 0, by decide, by decide⟩, ⟨2, 0, by decide, by decide⟩⟩ ∧
      f.step (.frame (5 : Int64) slashTicker) = .ok f' ∧
      (f'.tickers [slashPair]).result = .error (.noTickers .osmosisV2 [slashPair]) := by
  have hall : ((open? (Service.exchangeOf .osmosisV2) none .default [slashPair]
      slashListing).result.toOption.bind fun f =>
        (f.step (.frame (5 : Int64) slashTicker)).toOption.map fun f' =>
          (f.subscribed.values, match (f'.tickers [slashPair]).result with
            | .ok _ => none
            | .error e => some e)) =
      some ([slashPair], some (.noTickers .osmosisV2 [slashPair])) := by
    simp only [slashListing, slashTicker, Json.ascii_render]
    decide
  obtain ⟨f, hopen, hrest⟩ := Option.bind_eq_some_iff.mp hall
  obtain ⟨f', hstep, hstate⟩ := Option.map_eq_some_iff.mp hrest
  obtain ⟨hvalues, hanswer⟩ := Prod.mk.inj hstate
  rw [toOption_eq_some] at hopen hstep
  have hwire : Exchange.osmosis.wireSymbol slashPair = "IBC/ABC/USDT" := by decide
  refine ⟨f, f', hopen, hvalues ▸ List.mem_cons_self, by decide, hwire ▸ slashTicker_prices,
    hstep, ?_⟩
  split at hanswer
  · cases hanswer
  · rename_i e he
    rw [he, Option.some.inj hanswer]

end Feed

end MarketFeed
