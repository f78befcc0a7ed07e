import MarketFeed.Proofs.Exchange.Carried
import MarketFeed.Proofs.Feed.Ingestion
import MarketFeed.Proofs.Feed.Query

/-!
# Whose prices a feed gives

The way of a price goes from the spelling of a pair in a message over a symbol to an answer, and
the way of a subscription from the listing over symbols to the confirmed pairs. Both are told from
their ends; in between there are symbols only, so each end knows the pair of the other one up to
the place where the text of the pair is cut.

* `exists_frame_of_accepted`: what a run accepts was decoded from one of its messages.
* `PricedAs`, `ConfirmedAs`: prices and confirmations come from a pair that is the same in a sense.
* `run_attribution`: both hold of every run in the sense that pairs have the same symbol.
* `attribution_not_exact`: neither holds of every run in the sense that pairs are equal.
-/

namespace MarketFeed

namespace Feed

/-! ## Accepted updates and their messages -/

theorem mem_updatesIn {f : Feed} {octets : List UInt8} {u : Update} (h : u ∈ f.updatesIn octets) :
    ∃ us, (f.exchange.decode octets).result = .ok (.updates us) ∧ u ∈ us := by
  unfold updatesIn at h
  split at h
  · rename_i us hus
    exact ⟨us, hus, h⟩
  · cases h

theorem mem_acceptedIn {f : Feed} {s : Step} {t : Timed} (h : t ∈ f.acceptedIn s) :
    ∃ clock octets, s = .frame clock octets ∧ t.1 ∈ f.updatesIn octets := by
  cases s with
  | frame clock octets =>
    have hmem := (List.mem_filter.mp h).1
    obtain ⟨i, hi, rfl⟩ := List.mem_mapIdx.mp hmem
    exact ⟨clock, octets, rfl, List.getElem_mem hi⟩
  | subscribe | start | shutdown => cases h

/-- What a run accepts was decoded from one of its messages. -/
theorem exists_frame_of_accepted {f : Feed} {steps : List Step} {t : Timed}
    (h : t ∈ f.accepted steps) :
    ∃ clock octets, Step.frame clock octets ∈ steps ∧ t.1 ∈ f.updatesIn octets := by
  induction steps generalizing f with
  | nil => cases h
  | cons s rest ih =>
    rcases List.mem_append.mp h with hfirst | hrest
    · obtain ⟨clock, octets, rfl, hin⟩ := mem_acceptedIn hfirst
      exact ⟨clock, octets, List.mem_cons_self, hin⟩
    · split at hrest
      · rename_i g hg
        obtain ⟨clock, octets, hmem, hin⟩ := ih hrest
        refine ⟨clock, octets, List.mem_cons_of_mem s hmem, ?_⟩
        unfold updatesIn at hin ⊢
        rwa [(step_ingested hg).exchange] at hin
      · cases hrest

/-- A ticker in the store of a run is one that the run has accepted. -/
theorem accepted_of_ticker {s : Store} {taken : List Timed} {symbol : String} {t : Ticker}
    (h : s.Reflects (writesOf taken)) (ht : s.ticker symbol = .ok t) :
    ∃ now, (Update.ticker symbol t, now) ∈ taken := by
  rw [h.ticker symbol, filterMap_ticker?_writesOf] at ht
  split at ht
  · rename_i last hlast
    obtain rfl := Except.ok.inj ht
    obtain ⟨⟨u, now⟩, hmem, hu⟩ := List.mem_filterMap.mp (List.mem_of_getLast? hlast)
    cases u with
    | ticker key t' =>
      simp only [Update.ticker?, Option.ite_none_right_eq_some, Option.some.injEq] at hu
      obtain ⟨rfl, rfl⟩ := hu
      exact ⟨now, hmem⟩
    | trade | candle => cases hu
  · cases ht

/-! ## Subscribed pairs and their listings -/

/-- The step: whatever it subscribes is in the listing that it brings. -/
theorem listed_of_step {f f' : Feed} {s : Step} (h : f.step s = .ok f') {symbol : String}
    {p : Pair} (hp : f'.subscribed.get? symbol = some p) :
    f.subscribed.get? symbol = some p ∨
      ∃ asked listing, s = .subscribe asked listing ∧ Listed f.exchange listing p := by
  cases s with
  | frame clock octets =>
    obtain ⟨-, rfl⟩ := step_frame_eq_ok.mp h
    rw [handleFrame_subscribed_eq] at hp
    exact .inl hp
  | subscribe asked listing =>
    obtain rfl := Except.ok.inj h
    rcases subscribe_eq f asked listing with hsame | ⟨confirmed, c, hconfirmed, hnew⟩
    · rw [hsame] at hp
      exact .inl hp
    · rw [hnew] at hp
      rcases get?_putAll hp with hold | ⟨hmem, -⟩
      · exact .inl hold
      · exact .inr ⟨asked, listing, rfl, (mem_confirm hconfirmed hmem).2⟩
  | start | shutdown =>
    obtain rfl := Except.ok.inj h
    exact .inl hp

/-- The run: whatever it subscribes is in the listing of one of its subscriptions. -/
theorem listed_of_run {f f' : Feed} {steps : List Step} (h : f.run steps = .ok f')
    {symbol : String} {p : Pair} (hp : f'.subscribed.get? symbol = some p) :
    f.subscribed.get? symbol = some p ∨
      ∃ asked listing, Step.subscribe asked listing ∈ steps ∧ Listed f.exchange listing p := by
  induction steps generalizing f with
  | nil =>
    obtain rfl := Except.ok.inj h
    exact .inl hp
  | cons s rest ih =>
    obtain ⟨g, hs, hrest⟩ := run_cons.mp h
    rcases ih hrest with hg | ⟨asked, listing, hmem, hlisted⟩
    · rcases listed_of_step hs hg with hf | ⟨asked, listing, rfl, hlisted⟩
      · exact .inl hf
      · exact .inr ⟨asked, listing, List.mem_cons_self, hlisted⟩
    · rw [(step_ingested hs).exchange] at hlisted
      exact .inr ⟨asked, listing, List.mem_cons_of_mem s hmem, hlisted⟩

/-! ## Attribution -/

/-- A price that a feed gives for a pair was carried in a run, under the spelling of a pair that
is the same in a sense. -/
def PricedAs (same : Pair → Pair → Prop) (provider : Provider) (steps : List Step) (f : Feed)
    (p : Pair) : Prop :=
  ∀ table, (f.tickers [p]).result = .ok table → ∃ t clock octets wire r,
    table.get? p.symbol = some t ∧ Step.frame clock octets ∈ steps ∧
      Carries provider octets wire (.ticker p.symbol t) ∧
      (Service.exchangeOf provider).pairOfWire? wire = some r ∧ same r p

/-- Feeds of a provider confirm a pair only if the listing has one that is the same in a sense. -/
def ConfirmedAs (same : Pair → Pair → Prop) (provider : Provider) (p : Pair) : Prop :=
  ∀ (g : Feed) (asked : List Pair) (listing : Listing) (confirmed : List Pair),
    g.exchange = Service.exchangeOf provider →
      (g.confirm asked listing).result = .ok confirmed → p ∈ confirmed →
        ∃ body listed r, listing = .ok body ∧
          (Service.exchangeOf provider).readListing body = .ok listed ∧ r ∈ listed ∧ same r p

/-- A pair is subscribed after a run only if the listing of the opening, or of a subscription, has
one that is the same in a sense. -/
def SubscribedAs (same : Pair → Pair → Prop) (provider : Provider) (opening : Listing)
    (steps : List Step) (f : Feed) (p : Pair) : Prop :=
  ∀ symbol, f.subscribed.get? symbol = some p → ∃ listing body listed r,
    (listing = opening ∨ ∃ asked, Step.subscribe asked listing ∈ steps) ∧ listing = .ok body ∧
      (Service.exchangeOf provider).readListing body = .ok listed ∧ r ∈ listed ∧ same r p

section Run

variable {provider : Provider} {configured : Option Endpoint} {options : FeedOptions}
  {pairs : List Pair} {listing : Listing} {f₀ f : Feed} {steps : List Step} {p : Pair}

theorem pricedAs_confusable
    (hopen : (open? (Service.exchangeOf provider) configured options pairs listing).result = .ok f₀)
    (hrun : f₀.run steps = .ok f) (hp : p.IsUpper) :
    PricedAs Pair.Confusable provider steps f p := by
  intro table htable
  obtain ⟨t, hticker, rfl⟩ := tickers_singleton_eq_ok.mp htable
  obtain ⟨now, haccepted⟩ := accepted_of_ticker (run_writes hopen hrun).2 hticker
  obtain ⟨clock, octets, hframe, hin⟩ := exists_frame_of_accepted haccepted
  obtain ⟨us, hdecode, hu⟩ := mem_updatesIn hin
  rw [open_exchange hopen] at hdecode
  obtain ⟨wire, hcarries⟩ := exists_carries hdecode hu
  obtain ⟨r, hr, hsymbol⟩ := hcarries.pairOfWire
  exact ⟨t, clock, octets, wire, r, Table.get?_put_self _ _ _, hframe, hcarries, hr,
    (Pair.symbol_eq_iff (Pair.ofSeparated?_isUpper hr) hp).mp hsymbol⟩

theorem confusable_of_listed (hp : p.IsUpper)
    (h : Listed (Service.exchangeOf provider) listing p) :
    ∃ body listed r, listing = .ok body ∧
      (Service.exchangeOf provider).readListing body = .ok listed ∧ r ∈ listed ∧
      r.Confusable p := by
  obtain ⟨body, listed, r, hbody, hlisted, hr, hsymbol⟩ := h
  exact ⟨body, listed, r, hbody, hlisted, hr,
    (Pair.symbol_eq_iff (isUpper_of_readListing hlisted hr) hp).mp hsymbol⟩

theorem confirmedAs_confusable (hp : p.IsUpper) :
    ConfirmedAs Pair.Confusable provider p := by
  intro g asked listing confirmed hg hconfirmed hmem
  have hlisted := (mem_confirm hconfirmed hmem).2
  rw [hg] at hlisted
  exact confusable_of_listed hp hlisted

theorem subscribedAs_confusable
    (hopen : (open? (Service.exchangeOf provider) configured options pairs listing).result = .ok f₀)
    (hrun : f₀.run steps = .ok f) (hp : p.IsUpper) :
    SubscribedAs Pair.Confusable provider listing steps f p := by
  intro symbol hget
  rcases listed_of_run hrun hget with hfirst | ⟨asked, listing', hmem, hlisted⟩
  · obtain ⟨body, listed, r, hrest⟩ := confusable_of_listed hp (listed_of_open hopen hfirst)
    exact ⟨listing, body, listed, r, .inl rfl, hrest⟩
  · rw [open_exchange hopen] at hlisted
    obtain ⟨body, listed, r, hrest⟩ := confusable_of_listed hp hlisted
    exact ⟨listing', body, listed, r, .inr ⟨asked, hmem⟩, hrest⟩

/-- **Attribution.** Let a feed of a provider be opened and run without a fault, and take a pair of
two names. A price that the feed gives for it was carried under the spelling of a pair with its
symbol; it is confirmed, and subscribed, only if a listing has a pair with its symbol. The pairs
with its symbol are itself and the same text cut in another place. -/
theorem run_attribution
    (hopen : (open? (Service.exchangeOf provider) configured options pairs listing).result = .ok f₀)
    (hrun : f₀.run steps = .ok f) (base quote : String) :
    PricedAs Pair.Confusable provider steps f (.of base quote) ∧
    ConfirmedAs Pair.Confusable provider (.of base quote) ∧
    SubscribedAs Pair.Confusable provider listing steps f (.of base quote) ∧
    ∀ base' quote', (Pair.of base quote).symbol = (Pair.of base' quote').symbol ↔
      (Pair.of base quote).Confusable (.of base' quote') := by
  have hp := Pair.of_isUpper base quote
  refine ⟨pricedAs_confusable hopen hrun hp, confirmedAs_confusable hp,
    subscribedAs_confusable hopen hrun hp, fun base' quote' => ?_⟩
  exact Pair.symbol_eq_iff hp (Pair.of_isUpper base' quote')

end Run

/-- A listing of the pair A/BC. -/
def otherPairListing : Listing := .ok (coinbaseListing [.of "a" "bc"])

/-- The message that prices A/BC. -/
def otherPairPriced : List Step := [.frame (5 : Int64) (coinbaseTicker "A-BC" "3" "0")]

private theorem exists_otherPairPriced :
    ∃ f₀ f table,
      (open? (Service.exchangeOf .coinbase) none .default [.of "ab" "c"] otherPairListing).result =
        .ok f₀ ∧
      f₀.run otherPairPriced = .ok f ∧ (f.tickers [.of "ab" "c"]).result = .ok table ∧
      f.subscribed.get? "ABC" = some (.of "ab" "c") := by
  have hall : ((open? (Service.exchangeOf .coinbase) none .default [.of "ab" "c"]
      otherPairListing).result.toOption.bind fun f₀ =>
        (f₀.run otherPairPriced).toOption.bind fun f =>
          (f.tickers [.of "ab" "c"]).result.toOption.map fun _ => f.subscribed.get? "ABC") =
      some (some (.of "ab" "c")) := by
    simp only [otherPairListing, otherPairPriced, coinbaseListing, coinbaseTicker,
      Json.ascii_render]
    decide
  obtain ⟨f₀, hopen, hrest⟩ := Option.bind_eq_some_iff.mp hall
  obtain ⟨f, hrun, hrest⟩ := Option.bind_eq_some_iff.mp hrest
  obtain ⟨table, htable, hsubscribed⟩ := Option.map_eq_some_iff.mp hrest
  rw [toOption_eq_some] at hopen hrun htable
  exact ⟨f₀, f, table, hopen, hrun, htable, hsubscribed⟩

/-- The price of AB/C comes under the spelling of a pair that is AB/C up to the cut. -/
theorem run_attribution_otherPairPriced :
    ∃ f₀ f table,
      (open? (Service.exchangeOf .coinbase) none .default [.of "ab" "c"] otherPairListing).result =
        .ok f₀ ∧
      f₀.run otherPairPriced = .ok f ∧ (f.tickers [.of "ab" "c"]).result = .ok table ∧
      ∃ t wire r, table.get? (Pair.of "ab" "c").symbol = some t ∧
        (Service.exchangeOf .coinbase).pairOfWire? wire = some r ∧
        r.Confusable (.of "ab" "c") := by
  obtain ⟨f₀, f, table, hopen, hrun, htable, -⟩ := exists_otherPairPriced
  obtain ⟨hpriced, -⟩ := run_attribution hopen hrun "ab" "c"
  obtain ⟨t, -, -, wire, r, hget, -, -, hr, hsame⟩ := hpriced table htable
  exact ⟨f₀, f, table, hopen, hrun, htable, t, wire, r, hget, hr, hsame⟩

private theorem wire_of_carries {u : Update} {wire : String}
    (h : Carries .coinbase (coinbaseTicker "A-BC" "3" "0") wire u) : wire = "A-BC" := by
  have hticker : (Coinbase.readTicker (coinbaseTicker "A-BC" "3" "0")).toOption.map
      (·.productId) = some "A-BC" := by
    rw [coinbaseTicker, Json.ascii_render]
    decide
  have htrade : (Coinbase.readTrade (coinbaseTicker "A-BC" "3" "0")).toOption.map
      (·.productId) = none := by
    rw [coinbaseTicker, Json.ascii_render]
    decide
  rcases h with ⟨-, m, hm, rfl, -⟩ | ⟨-, m, hm, -, -⟩
  · simpa [hm, Except.toOption] using hticker
  · simp [hm, Except.toOption] at htrade

private theorem not_mem_otherPairListing {body : List UInt8} {listed : List Pair}
    (hbody : otherPairListing = .ok body)
    (hlisted : (Service.exchangeOf .coinbase).readListing body = .ok listed) :
    Pair.of "ab" "c" ∉ listed := by
  obtain rfl := Except.ok.inj hbody
  have hread : (Service.exchangeOf .coinbase).readListing (coinbaseListing [.of "a" "bc"]) =
      .ok [.of "a" "bc"] := by
    rw [← toOption_eq_some, coinbaseListing, Json.ascii_render]
    decide
  obtain rfl := Except.ok.inj (hread.symm.trans hlisted)
  decide

/-- That price is not carried under the spelling of AB/C itself, and AB/C is confirmed and
subscribed without being listed: it is another pair than A/BC and has the same symbol. -/
theorem attribution_not_exact :
    ∃ f₀ f,
      (open? (Service.exchangeOf .coinbase) none .default [.of "ab" "c"] otherPairListing).result =
        .ok f₀ ∧
      f₀.run otherPairPriced = .ok f ∧
      ¬ PricedAs (· = ·) .coinbase otherPairPriced f (.of "ab" "c") ∧
      ¬ ConfirmedAs (· = ·) .coinbase (.of "ab" "c") ∧
      ¬ SubscribedAs (· = ·) .coinbase otherPairListing otherPairPriced f (.of "ab" "c") ∧
      Pair.of "ab" "c" ≠ .of "a" "bc" ∧ (Pair.of "ab" "c").symbol = (Pair.of "a" "bc").symbol := by
  obtain ⟨f₀, f, table, hopen, hrun, htable, hsubscribed⟩ := exists_otherPairPriced
  refine ⟨f₀, f, hopen, hrun, fun hpriced => ?_, fun hconfirmed => ?_, fun hsub => ?_,
    by decide, by decide⟩
  · obtain ⟨t, clock, octets, wire, r, -, hframe, hcarries, hr, rfl⟩ := hpriced table htable
    obtain ⟨-, rfl⟩ := Step.frame.inj (List.mem_singleton.mp hframe)
    obtain rfl := wire_of_carries hcarries
    revert hr
    decide
  · have hconfirm : ((bare (Service.exchangeOf .coinbase) none .default).confirm [.of "ab" "c"]
        otherPairListing).result = .ok [.of "ab" "c"] := by
      rw [← toOption_eq_some, otherPairListing, coinbaseListing, Json.ascii_render]
      decide
    obtain ⟨body, listed, r, hbody, hread, hr, rfl⟩ :=
      hconfirmed _ _ _ _ rfl hconfirm List.mem_cons_self
    exact not_mem_otherPairListing hbody hread hr
  · obtain ⟨listing, body, listed, r, hlisting, hbody, hread, hr, rfl⟩ := hsub "ABC" hsubscribed
    rcases hlisting with rfl | ⟨asked, hmem⟩
    · exact not_mem_otherPairListing hbody hread hr
    · cases List.mem_singleton.mp hmem

end Feed

end MarketFeed
