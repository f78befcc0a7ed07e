import MarketFeed.Proofs.Feed.Answers
import MarketFeed.Proofs.Feed.Concurrent

/-!
# What queries find

A query looks up what the store has under the symbols of its pairs. After any session, with or
without faults, the answer holds what there is for these pairs, and nothing else. A list is stored
with its first entry, and a write that drops older entries puts its own in; so no list of candles
is empty.

* `Store.HasCandles`: the candles that there are under a symbol, streamed or cut from the trades.
* `Request`, `serve`, `serveAll`: a session of steps and queries, and of subscriptions on their way.
* `HasCandles.ne_nil`: candles that there are after a run of writes are at least one.
* `queries_answered`: what the queries of a session answer, and that they change nothing.
-/

namespace MarketFeed

/-! ## Candles in a store -/

/-- A store has candles under a symbol: those that Osmosis streams, and for Coinbase those cut from
the stored trades. -/
def Store.HasCandles (s : Store) : Provider → String → List Candle → Prop
  | .osmosisV2, symbol, list => s.candles.get? symbol = some list
  | .coinbase, symbol, list =>
    ∃ trades, s.trades.get? symbol = some trades ∧ Candles.ofTrades trades = .ok list

theorem Store.HasCandles.ne_nil {s : Store} {ws : List Store.Write} {provider : Provider}
    {symbol : String} {list : List Candle} (h : s.HasCandles provider symbol list)
    (hreflects : s.Reflects ws) : list ≠ [] := by
  cases provider with
  | coinbase =>
    obtain ⟨trades, htrades, hcandles⟩ := h
    refine mt (Candles.ofTrades_eq_nil_iff hcandles).mp ?_
    rintro rfl
    exact Store.remaining_ne_some_nil _ _ _ ((hreflects.trades symbol).symm.trans htrades)
  | osmosisV2 =>
    rintro rfl
    exact Store.remaining_ne_some_nil _ _ _ ((hreflects.candles symbol).symm.trans h)

namespace Feed

theorem ticker_eq_ok {s : Store} {symbol : String} {t : Ticker} :
    s.ticker symbol = .ok t ↔ s.tickers.get? symbol = some t := by
  unfold Store.ticker
  split <;> simp_all

/-- The candles of a symbol are those that the store has. -/
theorem candlesOf_eq_ok_iff {f : Feed} {provider : Provider}
    (hexchange : f.exchange = Service.exchangeOf provider) {symbol : String} {list : List Candle} :
    f.candlesOf symbol = .ok list ↔ f.store.HasCandles provider symbol list := by
  unfold candlesOf
  cases provider with
  | coinbase =>
    rw [hexchange, show (Service.exchangeOf .coinbase).candleSource = .trades from rfl]
    simp only [Store.tradesOf, Store.HasCandles]
    cases f.store.trades.get? symbol with
    | none => simp [bind, Except.bind]
    | some trades =>
      simp only [bind, Except.bind, Option.some.injEq, exists_eq_left']
      cases Candles.ofTrades trades <;> simp
  | osmosisV2 =>
    rw [hexchange, show (Service.exchangeOf .osmosisV2).candleSource = .candles from rfl]
    simp only [Store.candlesOf, Store.HasCandles]
    cases f.store.candles.get? symbol <;> simp

/-! ## Sessions -/

/-- What a feed is asked for in a session. Subscriptions on their way may take their steps at any
time. -/
inductive Request where
  | step (s : Step)
  | call (c : Call) (listing : Listing)
  | tickers (asked : List Pair)
  | candles (asked : List Pair)

/-- What it replies. -/
inductive Response where
  | done
  | tickers (reply : Reply (Table Ticker))
  | candles (reply : Reply (Table (List Candle)))

/-- Is a request a query? -/
def Request.isQuery : Request → Bool
  | .step _ => false
  | .call .. => false
  | .tickers _ => true
  | .candles _ => true

/-- Serves a request. -/
def serve (f : Feed) : Request → Feed × Response
  | .step s => (f.advance s, .done)
  | .call c listing => ((c.next f listing).1, .done)
  | .tickers asked => (f, .tickers (f.tickers asked))
  | .candles asked => (f, .candles (f.candles asked))

/-- Serves requests one after the other. -/
def serveAll (f : Feed) (requests : List Request) : Feed :=
  requests.foldl (fun f r => (f.serve r).1) f

/-- Queries change nothing: a session ends as it would without them. -/
theorem serveAll_eq (f : Feed) (requests : List Request) :
    f.serveAll requests = f.serveAll (requests.filter fun r => !r.isQuery) := by
  induction requests generalizing f with
  | nil => rfl
  | cons r rest ih => cases r <;> exact ih _

/-- The step: a request leaves the exchange as it is, and whatever it writes are updates. -/
theorem serve_reflects {f : Feed} {ws : List Store.Write} (h : f.store.Reflects ws)
    (r : Request) :
    (f.serve r).1.exchange = f.exchange ∧ ∃ more, (f.serve r).1.store.Reflects (ws ++ more) := by
  have hsame : ∃ more, f.store.Reflects (ws ++ more) := ⟨[], by rwa [List.append_nil]⟩
  cases r with
  | step s =>
    obtain ⟨more, hwrites, -⟩ := advance_writes f s
    exact ⟨advance_exchange f s, more, h.writeAll hwrites⟩
  | call c listing =>
    obtain ⟨t, k, hnext⟩ := c.next_eq f listing
    rw [serve, hnext]
    exact ⟨rfl, hsame⟩
  | tickers | candles => exact ⟨rfl, hsame⟩

/-- The run: so do all requests of a session. -/
theorem serveAll_reflects {f : Feed} {ws : List Store.Write} (h : f.store.Reflects ws)
    (requests : List Request) :
    (f.serveAll requests).exchange = f.exchange ∧
      ∃ more, (f.serveAll requests).store.Reflects more := by
  induction requests generalizing f ws with
  | nil => exact ⟨rfl, ws, h⟩
  | cons r rest ih =>
    obtain ⟨hexchange, more, hmore⟩ := serve_reflects h r
    obtain ⟨hrest, hreflects⟩ := ih hmore
    exact ⟨hrest.trans hexchange, hreflects⟩

/-! ## Queries -/

variable {provider : Provider} {configured : Option Endpoint} {options : FeedOptions}
  {pairs : List Pair} {listing : Listing} {f₀ : Feed}

/-- The store of an opened feed is what some updates have written, whatever it was asked for. -/
theorem open_serveAll_reflects {exchange : Exchange}
    (hopen : (open? exchange configured options pairs listing).result = .ok f₀)
    (requests : List Request) :
    (f₀.serveAll requests).exchange = exchange ∧
      ∃ ws, (f₀.serveAll requests).store.Reflects ws := by
  obtain ⟨confirmed, c, -, hf₀⟩ := open_eq hopen
  have hstore : f₀.store = .new exchange.provider options.candlePeriod := by
    rw [hf₀]
    rfl
  obtain ⟨hexchange, hreflects⟩ :=
    serveAll_reflects (hstore ▸ Store.reflects_new exchange.provider options.candlePeriod) requests
  exact ⟨hexchange.trans (open_exchange hopen), hreflects⟩

/-- **Queries.** Let a feed of a provider be opened and serve any session, with or without faults
of its steps. The queries of the session have changed nothing, and further ones leave the feed as
it is too. A query for tickers obeys the law for the stored tickers, and one for candles, unless it
faults, that for the candles that the store has, streamed or cut from the trades; none of the lists
it gives is empty. -/
theorem queries_answered
    (hopen : (open? (Service.exchangeOf provider) configured options pairs listing).result = .ok f₀)
    (requests : List Request) (asked : List Pair) :
    ∃ f tickers candles, f = f₀.serveAll requests ∧
      f = f₀.serveAll (requests.filter fun r => !r.isQuery) ∧
      f.serve (.tickers asked) = (f, .tickers tickers) ∧
      f.serve (.candles asked) = (f, .candles candles) ∧
      Answered (fun symbol t => f.store.tickers.get? symbol = some t) asked
        (.noTickers provider asked) tickers ∧
      ((∀ fault, candles.result ≠ .error (.fault fault)) →
        Answered (f.store.HasCandles provider) asked (.noCandles provider asked) candles ∧
        ∀ table, candles.result = .ok table →
          ∀ symbol list, table.get? symbol = some list → list ≠ []) := by
  refine ⟨_, _, _, rfl, serveAll_eq f₀ requests, rfl, rfl, ?_⟩
  obtain ⟨hexchange, ws, hreflects⟩ := open_serveAll_reflects hopen requests
  generalize f₀.serveAll requests = f at *
  have hprovider : f.provider = provider := by
    rw [Feed.provider, hexchange]
    cases provider <;> rfl
  have hfindTicker : ∀ symbol t,
      f.store.ticker symbol = .ok t ↔ f.store.tickers.get? symbol = some t :=
    fun _ _ => ticker_eq_ok
  have hfindCandles : ∀ symbol list,
      f.candlesOf symbol = .ok list ↔ f.store.HasCandles provider symbol list :=
    fun _ _ => candlesOf_eq_ok_iff hexchange
  unfold tickers candles
  rw [hprovider]
  refine ⟨answer_answered hfindTicker ?_, fun hno => ?_⟩
  · rintro ⟨p, -, fault, hfault⟩
    exact ticker_ne_fault f.store p.symbol fault hfault
  · have hfault : ¬ ∃ p ∈ asked, ∃ fault, f.candlesOf p.symbol = .error (.fault fault) := by
      intro h
      obtain ⟨-, -, fault, -, herror⟩ := answer_of_fault h
      exact hno fault herror
    have hanswered : Answered (f.store.HasCandles provider) asked (.noCandles provider asked)
        (answer (.noCandles provider asked)
          (f.collect "Missing candles" f.candlesOf asked .empty)) :=
      answer_answered hfindCandles hfault
    exact ⟨hanswered, fun table htable symbol list hlist =>
      (hanswered.values table htable symbol list hlist).ne_nil hreflects⟩

/-- A session with Osmosis: a candle of ATOM/USDT that is older than the retention, and queries
before and after it. -/
def lateCandle : List Request := [
  .candles [.of "atom" "usdt"],
  .step (.frame (1700000000000 : Int64) (Json.ascii (Json.Value.object [("ATOM/USDT", .array [
    .object [("Close", .string "3"), ("Volume", .string "0"), ("EndTime", .nat 5)]])]).render)),
  .tickers [.of "atom" "usdt"]]

/-- The pairs asked for then: one that was never subscribed, and ATOM/USDT twice. -/
def atomTwice : List Pair := [.of "juno" "usdt", .of "atom" "usdt", .of "ATOM" "USDT"]

/-- A listing of Osmosis with one pair. -/
def oneAtomListing : Listing := .ok (Json.ascii (Json.Value.array
  [.object [("base", .string "atom"), ("quote", .string "usdt")]]).render)

/-- The list of ATOM/USDT is given once, and it is not empty; there are no tickers. -/
theorem queries_answered_lateCandle :
    ∃ f₀ f table,
      (open? (Service.exchangeOf .osmosisV2) none .default [.of "atom" "usdt"]
        oneAtomListing).result = .ok f₀ ∧
      f = f₀.serveAll lateCandle ∧
      (f.tickers atomTwice).result = .error (.noTickers .osmosisV2 atomTwice) ∧
      (f.candles atomTwice).result = .ok table ∧ table.keys = ["ATOMUSDT"] ∧
      ∀ list, table.get? "ATOMUSDT" = some list → list ≠ [] := by
  have hall : ((open? (Service.exchangeOf .osmosisV2) none .default [.of "atom" "usdt"]
      oneAtomListing).result.toOption.bind fun f₀ =>
        let f := f₀.serveAll lateCandle
        (f.candles atomTwice).result.toOption.map fun table =>
          (table.keys, atomTwice.any fun p => (f.store.tickers.get? p.symbol).isSome)) =
      some (["ATOMUSDT"], false) := by
    simp only [oneAtomListing, lateCandle, Json.ascii_render]
    decide +kernel
  obtain ⟨f₀, hopen, hrest⟩ := Option.bind_eq_some_iff.mp hall
  obtain ⟨table, htable, hstate⟩ := Option.map_eq_some_iff.mp hrest
  obtain ⟨hkeys, hnone⟩ := Prod.mk.inj hstate
  rw [toOption_eq_some] at hopen htable
  obtain ⟨f, tickers, candles, hf, -, hserveTickers, hserveCandles, htickers, hcandles⟩ :=
    queries_answered hopen lateCandle atomTwice
  obtain rfl := Response.tickers.inj (congrArg Prod.snd hserveTickers)
  obtain rfl := Response.candles.inj (congrArg Prod.snd hserveCandles)
  rw [← hf] at htable hnone
  have hmissing : ¬ ∃ p ∈ atomTwice, ∃ t, f.store.tickers.get? p.symbol = some t := by
    rintro ⟨p, hp, t, ht⟩
    have hsome := List.any_eq_false.mp hnone p hp
    rw [ht] at hsome
    exact hsome rfl
  obtain ⟨-, hlists⟩ := hcandles fun fault => by rw [htable]; exact nofun
  exact ⟨f₀, f, table, hopen, hf, htickers.missing hmissing, htable, hkeys,
    fun list => hlists table htable "ATOMUSDT" list⟩

end Feed

end MarketFeed
