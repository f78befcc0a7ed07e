import MarketFeed.Exchange.Coinbase
import MarketFeed.Proofs.Feed.Run
import MarketFeed.Proofs.Store.History

/-!
# What a feed has taken in

Counters, store and subscribed pairs of a feed that has been opened and run, told from the updates
that the run has accepted.

* `exists_taken_of_has`: prices are there only for symbols of accepted updates.
* `run_writes`: the store of a run is that of the writes of the accepted updates.
* `handleFrame_ignored`: a message without an accepted update changes nothing.
* `open_run_ingested`: the law of a whole run, from the opening on.
-/

namespace MarketFeed

/-- The ticker that an update brings for a symbol. -/
def Update.ticker? (symbol : String) : Update → Option Ticker
  | .ticker s t => if s = symbol then some t else none
  | _ => none

namespace Feed

/-! ## The writes of updates -/

theorem ticker?_write (symbol : String) (u : Update) (now : Int64) :
    (u.write now).ticker? symbol = u.ticker? symbol := by
  cases u <;> rfl

theorem filterMap_ticker?_writesOf (symbol : String) (taken : List Timed) :
    (writesOf taken).filterMap (·.ticker? symbol) = taken.filterMap (·.1.ticker? symbol) := by
  unfold writesOf
  rw [List.filterMap_map]
  congr 1
  funext t
  exact ticker?_write symbol t.1 t.2

/-- A write of an update is about the symbol of the update. -/
theorem symbol_of_write {u : Update} {now : Int64} {symbol : String}
    (h : ((u.write now).ticker? symbol).isSome ∨ ((u.write now).candle? symbol).isSome ∨
      ((u.write now).trade? symbol).isSome) : u.symbol = symbol := by
  cases u <;>
    simpa [Update.write, Update.symbol, Store.Write.ticker?, Store.Write.candle?,
      Store.Write.trade?] using h

/-! ## What a store owes to the updates -/

/-- A symbol has prices in a store only if one of the updates behind them is about it. -/
theorem exists_taken_of_has {s : Store} {taken : List Timed} (h : s.Reflects (writesOf taken))
    {symbol : String} (hs : s.tickers.has symbol = true ∨ s.candles.has symbol = true ∨
      s.trades.has symbol = true) : ∃ t ∈ taken, t.1.symbol = symbol := by
  have hfirst : ∀ {β : Type} (f : Store.Write → Option β), (writesOf taken).filterMap f ≠ [] →
      ∃ t ∈ taken, (f (t.1.write t.2)).isSome := by
    intro β f hne
    obtain ⟨b, hb⟩ := List.exists_mem_of_ne_nil _ hne
    obtain ⟨w, hw, hf⟩ := List.mem_filterMap.mp hb
    obtain ⟨t, ht, rfl⟩ := List.mem_map.mp hw
    exact ⟨t, ht, by rw [hf]; rfl⟩
  unfold Table.has at hs
  rw [h.tickers, h.candles, h.trades] at hs
  rcases hs with hticker | hcandle | htrade
  · obtain ⟨t, ht, hf⟩ := hfirst (·.ticker? symbol) (fun hnil => by simp [hnil] at hticker)
    exact ⟨t, ht, symbol_of_write (.inl hf)⟩
  · obtain ⟨t, ht, hf⟩ := hfirst (·.candle? symbol)
      (fun hnil => by simp [hnil, Store.remaining] at hcandle)
    exact ⟨t, ht, symbol_of_write (.inr (.inl hf))⟩
  · obtain ⟨t, ht, hf⟩ := hfirst (·.trade? symbol)
      (fun hnil => by simp [hnil, Store.remaining] at htrade)
    exact ⟨t, ht, symbol_of_write (.inr (.inr hf))⟩

/-! ## Messages without an accepted update -/

theorem applyAll_unsubscribed {f : Feed} {us : List Update}
    (h : ∀ u ∈ us, f.isSubscribed u.symbol = false) (clock : Clock) :
    (f.applyAll clock us).1 = f := by
  induction us generalizing clock with
  | nil => rfl
  | cons u us ih =>
    obtain ⟨hsame, hok⟩ := apply_unsubscribed (h u List.mem_cons_self) (clock.reading 0)
    have hrest := ih (fun v hv => h v (List.mem_cons_of_mem u hv)) clock.later
    unfold applyAll
    split
    · rename_i happly
      rw [happly] at hok
      cases hok
    · rename_i happly
      rw [happly] at hsame
      subst hsame
      exact hrest

/-- A message none of whose updates is subscribed changes nothing, and so does one without any. -/
theorem handleFrame_ignored {f : Feed} {octets : List UInt8}
    (h : ∀ u ∈ f.updatesIn octets, f.isSubscribed u.symbol = false) (clock : Clock) :
    (f.handleFrame clock octets).1 = f := by
  by_cases hus : ∃ us, (f.exchange.decode octets).result = .ok (.updates us)
  · obtain ⟨us, hus⟩ := hus
    have hin : f.updatesIn octets = us := by
      unfold updatesIn
      rw [hus]
    rw [(handleFrame_updates hus clock).1]
    exact applyAll_unsubscribed (hin ▸ h) clock
  · exact handleFrame_other (fun us h => hus ⟨us, h⟩) clock

/-! ## The law of a run -/

section Run

variable {exchange : Exchange} {configured : Option Endpoint} {options : FeedOptions}
  {pairs : List Pair} {listing : Listing} {f₀ f : Feed} {steps : List Step}

/-- The store of a feed that was opened and run is that of the writes of what it accepted. -/
theorem run_writes
    (hopen : (open? exchange configured options pairs listing).result = .ok f₀)
    (hrun : f₀.run steps = .ok f) :
    (Store.new exchange.provider options.candlePeriod).writeAll (writesOf (f₀.accepted steps)) =
        .ok f.store ∧ f.store.Reflects (writesOf (f₀.accepted steps)) := by
  obtain ⟨confirmed, c, -, hf₀⟩ := open_eq hopen
  have hstore : f₀.store = Store.new exchange.provider options.candlePeriod := by rw [hf₀]; rfl
  have hwrites := (run_ingested hrun).store
  rw [hstore] at hwrites
  refine ⟨hwrites, ?_⟩
  simpa using (Store.reflects_new exchange.provider options.candlePeriod).writeAll hwrites

/-- **Ingestion law.** Let a feed be opened and run without a fault. Its counters count what it has
accepted; its store is the one that the accepted updates write, one after the other; the ticker of
a symbol is the last one accepted, and prices are there only for subscribed symbols. No message
subscribes a pair, and one without an accepted update changes nothing. Wherever the run is cut,
what is not subscribed by then owes nothing to the messages before the cut. -/
theorem open_run_ingested
    (hopen : (open? exchange configured options pairs listing).result = .ok f₀)
    (hrun : f₀.run steps = .ok f) :
    (∀ kind, (f.counters.get kind).toNat = (f₀.accepted steps).countP (·.1.kind = kind)) ∧
    (Store.new exchange.provider options.candlePeriod).writeAll (writesOf (f₀.accepted steps)) =
      .ok f.store ∧
    (∀ symbol, f.store.ticker symbol =
      match ((f₀.accepted steps).filterMap (·.1.ticker? symbol)).getLast? with
      | some t => .ok t
      | none => .error (.tickerNotFound exchange.provider symbol)) ∧
    (∀ symbol, f.store.tickers.has symbol = true ∨ f.store.candles.has symbol = true ∨
      f.store.trades.has symbol = true → f.isSubscribed symbol = true) ∧
    (∀ clock octets, (f.handleFrame clock octets).1.subscribed = f.subscribed) ∧
    (∀ clock octets, (∀ u ∈ f.updatesIn octets, f.isSubscribed u.symbol = false) →
      (f.handleFrame clock octets).1 = f) ∧
    (∀ before after, steps = before ++ after → ∃ g, f₀.run before = .ok g ∧
      f₀.accepted steps = f₀.accepted before ++ g.accepted after ∧
      ∀ t ∈ f₀.accepted before, g.isSubscribed t.1.symbol = true) := by
  obtain ⟨confirmed, c, -, hf₀⟩ := open_eq hopen
  have hcounters : f₀.counters = {} := by rw [hf₀]; rfl
  have hin := run_ingested hrun
  obtain ⟨hwrites, hreflects⟩ := run_writes hopen hrun
  obtain ⟨-, hprovider⟩ := Store.writeAll_period hwrites
  refine ⟨fun kind => ?_, hwrites, fun symbol => ?_, fun symbol hs => ?_,
    handleFrame_subscribed_eq f, fun clock octets h => handleFrame_ignored h clock,
    fun before after hsteps => ?_⟩
  · have hzero : (f₀.counters.get kind).toNat = 0 := by
      rw [hcounters]
      cases kind <;> rfl
    rw [hin.counters kind, hzero, Nat.zero_add]
  · have hticker := hreflects.ticker symbol
    rw [filterMap_ticker?_writesOf, hprovider] at hticker
    exact hticker
  · obtain ⟨t, ht, rfl⟩ := exists_taken_of_has hreflects hs
    exact hin.taken t ht
  · subst hsteps
    obtain ⟨g, hbefore, -⟩ := run_append.mp hrun
    exact ⟨g, hbefore, accepted_append hbefore after, (run_ingested hbefore).taken⟩

end Run

/-- A list of tradable pairs as Coinbase sends it. -/
def coinbaseListing (pairs : List Pair) : List UInt8 :=
  Json.ascii (Json.Value.array (pairs.map fun p => .object
    [("base_currency", .string p.base), ("quote_currency", .string p.quote)])).render

/-- A ticker message as Coinbase sends it. -/
def coinbaseTicker (product price volume : String) : List UInt8 :=
  Json.ascii (Json.Value.object [("type", .string "ticker"), ("product_id", .string product),
    ("price", .string price), ("volume_24h", .string volume)]).render

/-- A run in which a pair is priced before and after it is subscribed. -/
def lateSubscription : List Step := [
  .frame (5 : Int64) (coinbaseTicker "OSMO-USDT" "7" "0"),
  .frame (6 : Int64) (coinbaseTicker "ATOM-USDT" "3" "0"),
  .subscribe [.of "osmo" "usdt"] (.ok (coinbaseListing [.of "OSMO" "USDT"])),
  .frame (7 : Int64) (coinbaseTicker "OSMO-USDT" "8" "0"),
  .frame (8 : Int64) (Json.ascii "no JSON")]

/-- Of the two prices of that pair only the later one is taken. -/
theorem open_run_ingested_lateSubscription :
    ∃ f₀ f,
      (open? .coinbase none .default [.of "atom" "usdt"]
        (.ok (coinbaseListing [.of "atom" "usdt"]))).result = .ok f₀ ∧
      f₀.run lateSubscription = .ok f ∧
      (f.counters.get .ticker).toNat = 2 ∧
      f.store.ticker "ATOMUSDT" = .ok ⟨⟨3, 0, by decide, by decide⟩, .zero⟩ ∧
      f.store.ticker "OSMOUSDT" = .ok ⟨⟨8, 0, by decide, by decide⟩, .zero⟩ ∧
      f.store.ticker "JUNOUSDT" = .error (.tickerNotFound .coinbase "JUNOUSDT") := by
  have hall : ((open? .coinbase none .default [.of "atom" "usdt"]
      (.ok (coinbaseListing [.of "atom" "usdt"]))).result.toOption.bind fun f₀ =>
        (f₀.run lateSubscription).toOption.map fun _ => f₀.accepted lateSubscription) =
      some [(.ticker "ATOMUSDT" ⟨⟨3, 0, by decide, by decide⟩, .zero⟩, 6),
        (.ticker "OSMOUSDT" ⟨⟨8, 0, by decide, by decide⟩, .zero⟩, 7)] := by
    simp only [lateSubscription, coinbaseListing, coinbaseTicker, Json.ascii_render]
    decide +kernel
  obtain ⟨f₀, hopen, hrest⟩ := Option.bind_eq_some_iff.mp hall
  obtain ⟨f, hrun, haccepted⟩ := Option.map_eq_some_iff.mp hrest
  rw [toOption_eq_some] at hopen hrun
  obtain ⟨hcount, -, hticker, -⟩ := open_run_ingested hopen hrun
  rw [haccepted] at hcount hticker
  exact ⟨f₀, f, hopen, hrun, hcount .ticker, hticker "ATOMUSDT", hticker "OSMOUSDT",
    hticker "JUNOUSDT"⟩

end Feed

end MarketFeed
